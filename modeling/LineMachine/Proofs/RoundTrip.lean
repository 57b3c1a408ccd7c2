import Mathlib.Data.List.Forall2
import LineMachine.Proofs.Execution
import LineMachine.Proofs.Loading
import LineMachine.Proofs.SnapshotItems

/-! What comes back of a snapshot that is written and read: for any snapshot within the limits of
the reader, and for the snapshot of a machine. -/
namespace LineMachine

open Cbor

/-- Values that agree in every field, as far as floats can be told apart. -/
structure TaggedValue.Agrees (t u : TaggedValue) : Prop where
  kind : t.kind = u.kind
  int : t.int = u.int
  float : Binary64.Same t.float u.float
  str : t.str = u.str
  bool : t.bool = u.bool

theorem TaggedValue.agrees_canonical (t : TaggedValue) : t.Agrees t.canonical where
  kind := rfl
  int := rfl
  float := Binary64.same_canonical t.float
  str := rfl
  bool := rfl

namespace Snapshot

/-- Snapshots that agree in every field; what is absent counts as empty. -/
structure Agrees (s t : Snapshot) : Prop where
  program : s.program = t.program
  pc : s.pc = t.pc
  running : s.running = t.running
  steps : s.steps = t.steps
  color : s.color = t.color
  stack : List.Forall₂ TaggedValue.Agrees (s.stack.getD []) (t.stack.getD [])
  vars (name : Bytes) :
    Option.Rel TaggedValue.Agrees (s.vars.getD ∅)[name]? (t.vars.getD ∅)[name]?
  memory : s.memory.getD ∅ = t.memory.getD ∅
  loops : s.loops.getD [] = t.loops.getD []
  calls : s.calls.getD [] = t.calls.getD []
  faults : s.faults = t.faults

theorem stack_canonical (s : Snapshot) :
    s.canonical.stack.getD [] = (s.stack.getD []).map TaggedValue.canonical := by
  cases hs : s.stack <;> simp [canonical, hs]

theorem agrees_canonical (s : Snapshot) : s.Agrees s.canonical where
  program := rfl
  pc := rfl
  running := rfl
  steps := rfl
  color := rfl
  stack := by
    rw [stack_canonical, List.forall₂_map_right_iff, List.forall₂_same]
    exact fun t _ => t.agrees_canonical
  vars name := by
    rw [vars_canonical]
    cases (s.vars.getD ∅)[name]? with
    | none => exact .none
    | some t => exact .some t.agrees_canonical
  memory := rfl
  loops := rfl
  calls := rfl
  faults := rfl

/-- Every snapshot with valid texts and within the limits of the reader comes back as it was. -/
theorem decode_encode_agrees {s : Snapshot} (hvalid : ∀ b ∈ s.texts, Utf8.valid b)
    (hsizes : ∀ n ∈ s.sizes, n ≤ 131072) (hwords : ∀ b ∈ s.texts, b.length < 2 ^ 64) :
    ∃ t, decode? s.encode = some t ∧ s.Agrees t := by
  have hfits : s.Fits := ⟨hwords, fun n hn => Nat.lt_of_le_of_lt (hsizes n hn) (by decide)⟩
  exact ⟨_, (decode?_encode hfits).eq_some ⟨hsizes, hvalid⟩, s.agrees_canonical⟩

/-- A snapshot with numbers and floats of all widths. -/
def mixed : Snapshot where
  program := text "é"
  pc := -25
  steps := 4294967296
  stack := some [{ kind := text "float", float := Binary64.negativeZero },
    { kind := text "float", float := Binary64.nan }, { kind := text "int", int := Int64.minValue }]
  vars := some (Std.ExtTreeMap.ofList
    [(text "b", ({ kind := text "string", str := text "ß" } : TaggedValue)),
      (text "a", { kind := text "float", float := Binary64.ofRatio false 1 3 })])
  memory := some (Std.ExtTreeMap.ofList [((256 : Int64), (-1 : Int64)), (23, 65536)])
  loops := some []

theorem decode_encode_agrees_mixed : (∀ b ∈ mixed.texts, Utf8.valid b) ∧
    (∀ n ∈ mixed.sizes, n ≤ 131072) ∧ (∀ b ∈ mixed.texts, b.length < 2 ^ 64) ∧
    ∃ t, decode? mixed.encode = some t ∧ mixed.Agrees t := by
  have hvalid : ∀ b ∈ mixed.texts, Utf8.valid b := by decide +kernel
  have hsizes : ∀ n ∈ mixed.sizes, n ≤ 131072 := by decide +kernel
  have hwords : ∀ b ∈ mixed.texts, b.length < 2 ^ 64 := by decide +kernel
  exact ⟨hvalid, hsizes, hwords, decode_encode_agrees hvalid hsizes hwords⟩

end Snapshot

/-- What a value comes back as: itself, unless it is the negative zero. -/
def Value.ReadAs (v u : Value) : Prop :=
  u.kind = v.kind ∧ (u = v ∨ v = .float Binary64.negativeZero ∧ u = .float 0)

theorem Value.readAs_canonical (v : Value) :
    v.ReadAs (TaggedValue.ofValue v).canonical.toValue := by
  cases v with
  | int n => exact ⟨rfl, Or.inl rfl⟩
  | str s => exact ⟨rfl, Or.inl rfl⟩
  | bool b => exact ⟨rfl, Or.inl rfl⟩
  | float x =>
    change Value.ReadAs _ (.float (Binary64.canonical x))
    rcases Binary64.canonical_cases x with hx | ⟨rfl, hx⟩ <;> rw [hx]
    · exact ⟨rfl, Or.inl rfl⟩
    · exact ⟨rfl, Or.inr ⟨rfl, rfl⟩⟩

namespace Snapshot

/-- The snapshot shows the state of a machine. -/
structure Shows (t : Snapshot) (m : Machine) : Prop where
  program : t.program = m.program.name
  pc : t.pc = Int64.ofInt m.pc
  running : t.running = m.running
  steps : t.steps = m.steps
  color : t.color = m.color.escape
  stack : List.Forall₂ Value.ReadAs m.stack.reverse ((t.stack.getD []).map TaggedValue.toValue)
  vars (name : Bytes) :
    Option.Rel Value.ReadAs m.vars[name]? ((t.vars.getD ∅)[name]?.map TaggedValue.toValue)
  memory (a : Address) : (t.memory.getD ∅)[Int64.ofNat a.val]?.getD 0 = m.memory.read a
  loops : t.loops.getD [] = m.loops.reverse.map Int64.ofNat
  calls : t.calls.getD [] = m.calls.reverse.map Int64.ofNat
  faults : t.faults = m.faults.toList.map Fault.print

theorem shows_canonical (m : Machine) : (ofMachine m).canonical.Shows m where
  program := rfl
  pc := rfl
  running := rfl
  steps := rfl
  color := rfl
  stack := by
    rw [stack_ofMachine, Option.getD_some, List.map_map, List.forall₂_map_right_iff,
      List.forall₂_same]
    exact fun v _ => v.readAs_canonical
  vars name := by
    rw [vars_ofMachine]
    cases m.vars[name]? with
    | none => exact .none
    | some v => exact .some v.readAs_canonical
  memory a := congrArg (·.getD 0) (cells_ofMachine m a)
  loops := getD_indices m.loops
  calls := getD_indices m.calls
  faults := rfl

/-- The snapshot of a machine can be read exactly if its texts are valid UTF-8 and nothing has more
elements than the reader takes, and then it shows the machine. -/
theorem decode_ofMachine {m : Machine} (h : (ofMachine m).Fits) :
    ((decode? (ofMachine m).encode).isSome ↔
      (∀ b ∈ (ofMachine m).texts, Utf8.valid b) ∧ ∀ n ∈ (ofMachine m).sizes, n ≤ 131072) ∧
    ∀ t, decode? (ofMachine m).encode = some t → t.Shows m := by
  have hdecode := decode?_encode h
  constructor
  · rw [Option.isSome_iff_exists]
    constructor
    · rintro ⟨t, ht⟩
      exact ((hdecode t).mp ht).1.symm
    · exact fun hin => ⟨_, hdecode.eq_some hin.symm⟩
  · intro t ht
    obtain ⟨-, rfl⟩ := (hdecode t).mp ht
    exact shows_canonical m

/-- Nothing to read, and nothing random. -/
def quiet : Setup := ⟨⟨[], none⟩, .scripted [], [], false⟩

theorem decode_ofMachine_invalid : ∃ p m, Program.load (text "p") (text "P " ++ [0xFF]) = .ok p ∧
    Machine.Reachable p m ∧ (ofMachine m).Fits ∧ decode? (ofMachine m).encode = none := by
  obtain ⟨p, hp, hstep⟩ := Program.exists_of_loads
    (P := fun p => ((Machine.new p quiet).step?.any fun m => decide ((ofMachine m).Fits ∧
      ¬ ∀ b ∈ (ofMachine m).texts, Utf8.valid b)) = true)
    (text "p") (text "P " ++ [0xFF]) (by decide +kernel)
  obtain ⟨m, hm, hstate⟩ := (Option.any_eq_true _ _).mp hstep
  obtain ⟨hfits, hinvalid⟩ := of_decide_eq_true hstate
  refine ⟨p, m, hp, .step (.new quiet) hm, hfits, ?_⟩
  rw [← Option.not_isSome_iff_eq_none, (decode_ofMachine hfits).1]
  exact fun h => hinvalid h.1

/-- The printed text of a value can change: the sign of a zero is not written. -/
theorem negative_zero_read_back : ∃ p m t,
    Program.load (text "p") (text "FL x -0.0") = .ok p ∧ Machine.Reachable p m ∧
    decode? (ofMachine m).encode = some t ∧
    m.vars[text "x"]?.map Value.print = some (text "-0.0") ∧
    ((t.vars.getD ∅)[text "x"]?.map fun v => v.toValue.print) = some (text "0.0") := by
  obtain ⟨p, hp, hstep⟩ := Program.exists_of_loads
    (P := fun p => ((Machine.new p quiet).step?.any fun m => decide ((ofMachine m).Fits ∧
      ((∀ n ∈ (ofMachine m).sizes, n ≤ Read.maxSize) ∧ ∀ b ∈ (ofMachine m).texts, Utf8.valid b) ∧
      m.vars[text "x"]? = some (.float Binary64.negativeZero))) = true)
    (text "p") (text "FL x -0.0") (by decide +kernel)
  obtain ⟨m, hm, hstate⟩ := (Option.any_eq_true _ _).mp hstep
  obtain ⟨hfits, hin, hx⟩ := of_decide_eq_true hstate
  refine ⟨p, m, _, hp, .step (.new quiet) hm, (decode?_encode hfits).eq_some hin, ?_, ?_⟩
  · rw [hx]
    decide +kernel
  · rw [vars_ofMachine, hx]
    decide +kernel

end Snapshot
end LineMachine
