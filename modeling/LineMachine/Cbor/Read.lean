import LineMachine.Cbor.Item

/-! Reading CBOR: exactly one well-formed item, within limits on depth and size. -/
namespace LineMachine.Cbor.Read

/-- How many arrays and maps may be nested. A tag directly inside a tag counts as well. -/
def maxDepth : Nat := 32

/-- How many elements an array may have, and how many entries a map. -/
def maxSize : Nat := 131072

def bigEndian (b : Bytes) : Nat := b.foldl (fun n x => 256 * n + x.toNat) 0

/-- The first `n` bytes and the rest, if there are that many. -/
def split? (n : Nat) (s : Bytes) : Option (Bytes × Bytes) :=
  let b := s.take n
  if b.length = n then some (b, s.drop n) else none

/-- The argument of a head: a number, or the mark for an unknown length. -/
inductive Argument where
  | number (n : Nat)
  | unknown
  deriving DecidableEq

structure Head where
  major : Major
  info : Nat
  argument : Argument

def head? (s : Bytes) : Option (Head × Bytes) :=
  match s with
  | [] => none
  | b :: s =>
    let major := Major.ofByte b
    let info := b.toNat % 32
    if info < 24 then some (⟨major, info, .number info⟩, s)
    else if info < 28 then do
      let (b, s) ← split? (1 <<< (info - 24)) s
      some (⟨major, info, .number (bigEndian b)⟩, s)
    else if info = 31 then some (⟨major, info, .unknown⟩, s)
    else none

def break? : Bytes → Option Bytes
  | 0xFF :: s => some s
  | _ => none

/-- Reads `n` things. -/
def times {α : Type} (read? : Bytes → Option (α × Bytes)) :
    (n : Nat) → Array α → Bytes → Option (List α × Bytes)
  | 0, acc, s => some (acc.toList, s)
  | n + 1, acc, s => do
    let (a, s) ← read? s
    times read? n (acc.push a) s

/-- Reads things up to a break, at most `n`. -/
def untilBreak {α : Type} (read? : Bytes → Option (α × Bytes)) :
    (n : Nat) → Array α → Bytes → Option (List α × Bytes)
  | 0, acc, s => (break? s).map fun s => (acc.toList, s)
  | n + 1, acc, s =>
    match break? s with
    | some s => some (acc.toList, s)
    | none => do
      let (a, s) ← read? s
      untilBreak read? n (acc.push a) s

/-- A string of known length and of a given type, as a part of one whose length is not known. -/
def chunk? (major : Major) (s : Bytes) : Option (Bytes × Bytes) := do
  let (h, s) ← head? s
  match h.argument with
  | .number n => if h.major = major then split? n s else none
  | .unknown => none

/-- The chunks of a string. -/
def chunks? (h : Head) (s : Bytes) : Option (List Bytes × Bytes) :=
  match h.argument with
  | .number n => (split? n s).map fun (b, s) => ([b], s)
  | .unknown => untilBreak (chunk? h.major) s.length #[] s

/-- Between zero and `maxSize` things, as many as the head says. -/
def elements? {α : Type} (read? : Bytes → Option (α × Bytes)) (h : Head) (s : Bytes) :
    Option (List α × Bytes) :=
  match h.argument with
  | .number n => if n ≤ maxSize then times read? n #[] s else none
  | .unknown => untilBreak read? maxSize #[] s

/-- Simple values and floats. -/
def other? (h : Head) : Option Item :=
  match h.argument with
  | .unknown => none
  | .number n =>
    if h.info = 24 then if n < 32 then none else some (.simple n)
    else if h.info = 25 then some (.float (half.widen n))
    else if h.info = 26 then some (.float (single.widen n))
    else if h.info = 27 then some (.float (Float.ofBits (UInt64.ofNat n)))
    else some (.simple n)

/-- Whether a tag follows. -/
def isTag : Bytes → Bool
  | b :: _ => Major.ofByte b = .tag
  | [] => false

/-- One item, at most `room` levels deep. Every level uses up a byte, so the length of the text is
enough `fuel`. -/
def item? : (fuel room : Nat) → Bytes → Option (Item × Bytes)
  | 0, _, _ => none
  | fuel + 1, room, s => do
    let (h, s) ← head? s
    match h.major with
    | .unsigned =>
      match h.argument with
      | .number n => some (.unsigned n, s)
      | .unknown => none
    | .negative =>
      match h.argument with
      | .number n => some (.negative n, s)
      | .unknown => none
    | .bytes => (chunks? h s).map fun (cs, s) => (.bytes cs.flatten, s)
    | .text => (chunks? h s).map fun (cs, s) => (.text cs, s)
    | .array =>
      match room with
      | 0 => none
      | room + 1 => (elements? (item? fuel room) h s).map fun (is, s) => (.array is, s)
    | .map =>
      match room with
      | 0 => none
      | room + 1 =>
        let entry? (s : Bytes) : Option ((Item × Item) × Bytes) := do
          let (k, s) ← item? fuel room s
          let (v, s) ← item? fuel room s
          some ((k, v), s)
        (elements? entry? h s).map fun (es, s) => (.map es, s)
    | .tag =>
      match h.argument with
      | .unknown => none
      | .number n =>
        match isTag s, room with
        | true, 0 => none
        | true, room + 1 => (item? fuel room s).map fun (i, s) => (.tag n i, s)
        | false, room => (item? fuel room s).map fun (i, s) => (.tag n i, s)
    | .other => (other? h).map fun i => (i, s)

end Read

/-- The item that makes up the whole of `s`. -/
def read? (s : Bytes) : Option Item :=
  match Read.item? s.length Read.maxDepth s with
  | some (i, []) => some i
  | _ => none

end LineMachine.Cbor
