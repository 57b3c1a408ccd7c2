import LineMachine.Text.Bytes

/-! What a command sees of the disk. -/
namespace LineMachine

inductive Disk.Reason where
  | missing
  | notDirectory
  | isDirectory
  | nameTooLong
  | invalid
  /-- Anything else the system has to say. -/
  | other (reason : Bytes)
  deriving DecidableEq

def Disk.Reason.message : Disk.Reason → Bytes
  | missing => text "no such file or directory"
  | notDirectory => text "not a directory"
  | isDirectory => text "is a directory"
  | nameTooLong => text "file name too long"
  | invalid => text "invalid argument"
  | other r => r

/-- What could not be done to which file, and why. -/
structure Disk.Problem where
  action : String
  path : Bytes
  reason : Disk.Reason
  deriving DecidableEq

def Disk.Problem.message (p : Disk.Problem) : Bytes :=
  text p.action ++ [Bytes.space] ++ p.path ++ text ": " ++ p.reason.message

structure Disk where
  read : Bytes → Except Disk.Problem Bytes
  /-- Why nothing can be said about a path. -/
  stat : Bytes → Option Disk.Problem
  /-- Why a path cannot be opened for writing. -/
  create : Bytes → Option Disk.Problem

end LineMachine
