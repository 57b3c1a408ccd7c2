import Mathlib.Data.List.Forall2
import LineMachine.Proofs.SnapshotItems

/-! Snapshots are canonical: two machines have the same written snapshot exactly if they are in the
same state, up to the sign of zeros. -/
namespace LineMachine

namespace Cbor.Item

variable {m n : Int64} {b c : Bytes} {i j : Item} {d d' : Bool}

theorem ofWord_inj : ofWord m = ofWord n ↔ m = n := by
  refine ⟨fun h => ?_, congrArg ofWord⟩
  have hm := (Reader.word_ofWord 0 m).eq_some trivial
  rw [h, (Reader.word_ofWord 0 n).eq_some trivial] at hm
  exact (Option.some.inj hm).symm

theorem ofText_inj : ofText b = ofText c ↔ b = c := by
  simp [ofText]

theorem ofBool_inj : ofBool d = ofBool d' ↔ d = d' := by
  cases d <;> cases d' <;> simp [ofBool]

/-- A field that is left out if it has its default value tells all values apart. -/
theorem optional_eq_iff {α : Type} (isDefault : α → Bool) (zero : α) {x y : α} {f : α → Item}
    (hdefault : ∀ a, isDefault a = true ↔ a = zero) (hf : ∀ a b, f a = f b ↔ a = b) :
    optional (isDefault x) (f x) = optional (isDefault y) (f y) ↔ x = y := by
  unfold optional
  split <;> split
  · rename_i hx hy
    simp [(hdefault x).mp hx, (hdefault y).mp hy]
  · rename_i hx hy
    refine ⟨nofun, ?_⟩
    rintro rfl
    exact absurd hx hy
  · rename_i hx hy
    refine ⟨nofun, ?_⟩
    rintro rfl
    exact absurd hy hx
  · rw [Option.some.injEq, hf]

theorem optional_float_eq_iff {x y : Float} :
    optional (x == 0) (.float x) = optional (y == 0) (.float y) ↔
      Binary64.canonical x = Binary64.canonical y := by
  have hzero : ((0 : Float) == 0) = true := by decide
  unfold optional Binary64.canonical
  split <;> split
  · simp
  · rename_i hx hy
    refine ⟨nofun, ?_⟩
    rintro rfl
    exact absurd hzero hy
  · rename_i hx hy
    refine ⟨nofun, ?_⟩
    rintro rfl
    exact absurd hzero hx
  · rw [Option.some.injEq, Item.float.injEq]

theorem mem_entries {fs : List (String × Option Item)} {name : String}
    (h : (ofText (LineMachine.text name), i) ∈ entries fs) : name ∈ fs.map (·.1) := by
  obtain ⟨f, hf, hmem⟩ := List.mem_flatMap.mp h
  obtain ⟨j, -, heq⟩ := List.mem_map.mp hmem
  have hname := text_inj.mp (ofText_inj.mp (congrArg Prod.fst heq))
  exact List.mem_map.mpr ⟨f, hf, hname⟩

/-- Records of the same fields are equal only if all fields are, also those that are left out. -/
theorem entries_inj {fs gs : List (String × Option Item)} (hnames : fs.map (·.1) = gs.map (·.1))
    (hnodup : (fs.map (·.1)).Nodup) (h : entries fs = entries gs) : fs = gs := by
  induction fs generalizing gs with
  | nil =>
    rw [List.map_nil, eq_comm, List.map_eq_nil_iff] at hnames
    exact hnames.symm
  | cons f fs ih =>
    obtain ⟨n, o⟩ := f
    cases gs with
    | nil => cases hnames
    | cons g gs =>
      obtain ⟨n', o'⟩ := g
      obtain ⟨rfl, hrest⟩ := List.cons.inj hnames
      obtain ⟨hnew, hdistinct⟩ := List.nodup_cons.mp hnodup
      cases o with
      | none =>
        cases o' with
        | none => rw [ih hrest hdistinct h]
        | some j =>
          have hmem : (ofText (LineMachine.text n), j) ∈ entries fs := by
            change entries fs = (ofText (LineMachine.text n), j) :: entries gs at h
            rw [h]
            exact List.mem_cons_self
          exact absurd (mem_entries hmem) hnew
      | some i =>
        cases o' with
        | none =>
          have hmem : (ofText (LineMachine.text n), i) ∈ entries gs := by
            change (ofText (LineMachine.text n), i) :: entries fs = entries gs at h
            rw [← h]
            exact List.mem_cons_self
          exact absurd (hrest ▸ mem_entries hmem) hnew
        | some j =>
          obtain ⟨heq, htail⟩ := List.cons.inj h
          have hij : i = j := congrArg Prod.snd heq
          rw [ih hrest hdistinct htail, hij]

theorem record_inj {fs gs : List (String × Option Item)} (hnames : fs.map (·.1) = gs.map (·.1))
    (hnodup : (fs.map (·.1)).Nodup) : record fs = record gs ↔ fs = gs :=
  ⟨fun h => entries_inj hnames hnodup (Item.map.inj h), congrArg record⟩

section Collections

variable {α β κ : Type} {f : α → Item} {g : α → β}

/-- If elements are told apart as items as they are by `g`, so are lists of them. -/
theorem map_eq_map_iff {γ : Type} {f : α → γ} (h : ∀ a b, f a = f b ↔ g a = g b) (as bs : List α) :
    as.map f = bs.map f ↔ as.map g = bs.map g := by
  induction as generalizing bs with
  | nil => cases bs <;> simp
  | cons a as ih => cases bs <;> simp [h, ih]

theorem ofList_eq_iff (h : ∀ a b, f a = f b ↔ g a = g b) (as bs : Option (List α)) :
    ofList f as = ofList f bs ↔ as.map (List.map g) = bs.map (List.map g) := by
  cases as with
  | none => cases bs <;> simp [ofList, null]
  | some as =>
    cases bs with
    | none => simp [ofList, null]
    | some bs => simp [ofList, map_eq_map_iff h]

theorem sorted_eq_iff [Ord κ] [Std.TransOrd κ] [Std.LawfulEqOrd κ] {key : κ → Item}
    (hkey : ∀ k l, key k = key l ↔ k = l) (h : ∀ a b, f a = f b ↔ g a = g b)
    (m n : Std.ExtTreeMap κ α) :
    sorted (m.toList.map fun e => (key e.1, f e.2)) =
        sorted (n.toList.map fun e => (key e.1, f e.2)) ↔
      (m.map fun _ => g) = n.map fun _ => g := by
  have hentry (e e' : κ × α) : (key e.1, f e.2) = (key e'.1, f e'.2) ↔
      (e.1, g e.2) = (e'.1, g e'.2) := by
    simp only [Prod.mk.injEq, hkey, h]
  have hlist (m : Std.ExtTreeMap κ α) :
      (m.map fun _ => g).toList = m.toList.map fun e => (e.1, g e.2) :=
    Std.ExtTreeMap.toList_map
  constructor
  · intro heq
    rw [sorted_map, sorted_map, Item.map.injEq, map_eq_map_iff hentry] at heq
    have hperm : (m.toList.map fun e => (e.1, g e.2)).Perm (n.toList.map fun e => (e.1, g e.2)) :=
      ((keySort_perm key m.toList).map _).symm.trans (heq ▸ (keySort_perm key n.toList).map _)
    rw [← hlist, ← hlist] at hperm
    exact (ofList_of_perm (List.Perm.refl _)).symm.trans (ofList_of_perm hperm)
  · intro heq
    have htoList := congrArg Std.ExtTreeMap.toList heq
    rw [hlist, hlist, ← map_eq_map_iff hentry] at htoList
    rw [htoList]

theorem ofMap_eq_iff [Ord κ] [Std.TransOrd κ] [Std.LawfulEqOrd κ] {key : κ → Item}
    (hkey : ∀ k l, key k = key l ↔ k = l) (h : ∀ a b, f a = f b ↔ g a = g b)
    (m n : Option (Std.ExtTreeMap κ α)) : ofMap key f m = ofMap key f n ↔
      (m.map fun m => m.map fun _ => g) = n.map fun m => m.map fun _ => g := by
  cases m with
  | none => cases n <;> simp [ofMap, null, sorted]
  | some m =>
    cases n with
    | none => simp [ofMap, null, sorted]
    | some n =>
      rw [Option.map_some, Option.map_some, Option.some.injEq]
      exact sorted_eq_iff hkey h m n

end Collections
end Cbor.Item

open Cbor

theorem Cbor.Write.word_inj {m n : Int64} : Write.word m = Write.word n ↔ m = n := by
  refine ⟨fun h => ?_, congrArg Write.word⟩
  rw [← Item.write_ofWord, ← Item.write_ofWord] at h
  have hwithin (n : Int64) : (Item.ofWord n).Within 0 0 := Item.within_ofWord n
  exact Item.ofWord_inj.mp (write_inj (by decide) (hwithin m) (hwithin n) h)

namespace TaggedValue

variable {t u : TaggedValue}

/-- Values are told apart as items as far as the sign of zeros. -/
theorem item_eq_iff : t.item = u.item ↔ t.canonical = u.canonical := by
  have hfields : t.item = u.item ↔ t.fieldItems = u.fieldItems :=
    Item.record_inj ((names_fieldItems t).trans (names_fieldItems u).symm)
      (names_fieldItems t ▸ by decide)
  have hb : Item.optional (!t.bool) (.ofBool t.bool) = Item.optional (!u.bool) (.ofBool u.bool) ↔
      t.bool = u.bool :=
    Item.optional_eq_iff (!·) false (by simp) fun _ _ => Item.ofBool_inj
  have hi : Item.optional (t.int = 0) (.ofWord t.int) = Item.optional (u.int = 0) (.ofWord u.int) ↔
      t.int = u.int :=
    Item.optional_eq_iff (· = 0) 0 (by simp) fun _ _ => Item.ofWord_inj
  have hs : Item.optional t.str.isEmpty (.ofText t.str) =
      Item.optional u.str.isEmpty (.ofText u.str) ↔ t.str = u.str :=
    Item.optional_eq_iff List.isEmpty [] (by simp) fun _ _ => Item.ofText_inj
  rw [hfields]
  simp only [fieldItems, List.cons.injEq, Prod.mk.injEq, Option.some.injEq, hb, hi, hs,
    Item.optional_float_eq_iff, Item.ofText_inj, true_and, and_true, canonical,
    TaggedValue.mk.injEq]
  constructor
  · rintro ⟨hbool, hfloat, hint, hkind, hstr⟩
    exact ⟨hkind, hint, hfloat, hstr, hbool⟩
  · rintro ⟨hkind, hint, hfloat, hstr, hbool⟩
    exact ⟨hbool, hfloat, hint, hkind, hstr⟩

end TaggedValue

namespace Snapshot

variable {s t : Snapshot}

theorem eq_iff_fields : s = t ↔ s.program = t.program ∧ s.pc = t.pc ∧ s.running = t.running ∧
    s.steps = t.steps ∧ s.color = t.color ∧ s.stack = t.stack ∧ s.vars = t.vars ∧
    s.memory = t.memory ∧ s.loops = t.loops ∧ s.calls = t.calls ∧ s.faults = t.faults := by
  cases s
  cases t
  rw [Snapshot.mk.injEq]

theorem item_eq_iff : s.item = t.item ↔ s.canonical = t.canonical := by
  have hfields : s.item = t.item ↔ s.fieldItems = t.fieldItems :=
    Item.record_inj ((names_fieldItems s).trans (names_fieldItems t).symm)
      (names_fieldItems s ▸ by decide)
  have hwords (as bs : Option (List Int64)) :
      Item.ofList Item.ofWord as = Item.ofList Item.ofWord bs ↔ as = bs := by
    simpa using Item.ofList_eq_iff (g := id) (fun _ _ => Item.ofWord_inj) as bs
  have hmemory : Item.ofMap .ofWord .ofWord s.memory = Item.ofMap .ofWord .ofWord t.memory ↔
      s.memory = t.memory := by
    have h := Item.ofMap_eq_iff (f := Item.ofWord) (g := fun n => n) (fun _ _ => Item.ofWord_inj)
      (fun _ _ => Item.ofWord_inj) s.memory t.memory
    simpa only [map_snd, Option.map_id'] using h
  have hvars : Item.ofMap .ofText TaggedValue.item s.vars =
      Item.ofMap .ofText TaggedValue.item t.vars ↔ s.canonical.vars = t.canonical.vars :=
    Item.ofMap_eq_iff (fun _ _ => Item.ofText_inj) (fun _ _ => TaggedValue.item_eq_iff) _ _
  have hstack : Item.ofList TaggedValue.item s.stack = Item.ofList TaggedValue.item t.stack ↔
      s.canonical.stack = t.canonical.stack :=
    Item.ofList_eq_iff (fun _ _ => TaggedValue.item_eq_iff) _ _
  have hlines (as bs : List Bytes) : Item.ofList .ofText (some as) = .ofList .ofText (some bs) ↔
      as = bs := by
    simpa using Item.ofList_eq_iff (g := id) (fun _ _ => Item.ofText_inj) (some as) (some bs)
  have hfaults : Item.optional s.faults.isEmpty (.ofList .ofText (some s.faults)) =
      Item.optional t.faults.isEmpty (.ofList .ofText (some t.faults)) ↔ s.faults = t.faults :=
    Item.optional_eq_iff (f := fun fs => .ofList .ofText (some fs)) List.isEmpty [] (by simp) hlines
  rw [hfields]
  simp only [fieldItems, List.cons.injEq, Prod.mk.injEq, Option.some.injEq, hwords, hmemory, hvars,
    hstack, hfaults, Item.ofText_inj, Item.ofWord_inj, Item.ofBool_inj, true_and, and_true]
  rw [eq_iff_fields]
  constructor
  · rintro ⟨hpc, hmemory, hvars, hcalls, hcolor, hloops, hstack, hsteps, hfaults, hprogram,
      hrunning⟩
    exact ⟨hprogram, hpc, hrunning, hsteps, hcolor, hstack, hvars, hmemory, hloops, hcalls, hfaults⟩
  · rintro ⟨hprogram, hpc, hrunning, hsteps, hcolor, hstack, hvars, hmemory, hloops, hcalls,
      hfaults⟩
    exact ⟨hpc, hmemory, hvars, hcalls, hcolor, hloops, hstack, hsteps, hfaults, hprogram, hrunning⟩

/-- No two snapshots that differ in more than the sign of zeros are written alike. -/
theorem encode_eq_iff (hs : s.Fits) (ht : t.Fits) :
    s.encode = t.encode ↔ s.canonical = t.canonical := by
  rw [← item_eq_iff, ← write_item, ← write_item]
  exact ⟨write_inj (by decide) hs.within_item ht.within_item, congrArg Item.write⟩

end Snapshot

/-- Values of one kind that are equal, as far as floats can be told apart. -/
def Value.Agrees : Value → Value → Prop
  | .float x, .float y => Binary64.Same x y
  | v, w => v = w

theorem Value.agrees_iff {v w : Value} : v.Agrees w ↔
    (TaggedValue.ofValue v).canonical = (TaggedValue.ofValue w).canonical := by
  cases v <;> cases w <;>
    simp [Value.Agrees, TaggedValue.ofValue, TaggedValue.canonical, Value.kind, Kind.name, text_inj,
      Binary64.canonical_eq_iff]

theorem Memory.eq_of_read {m n : Memory} (h : ∀ a, m.read a = n.read a) : m = n := by
  have hcells : m.cells = n.cells := by
    refine Std.ExtTreeMap.ext_getElem? fun a => ?_
    have hread : m.cells[a]?.getD 0 = n.cells[a]?.getD 0 := h a
    have hm := m.nonzero a
    have hn := n.nonzero a
    cases hma : m.cells[a]? <;> cases hna : n.cells[a]? <;> simp_all
  cases m
  cases n
  congr

namespace Machine

/-- The numbers and lengths in a snapshot of the machine are words. Positions are numbers of lines, so
this holds of every machine that fits in a memory. -/
structure FitsWords (m : Machine) : Prop where
  pc : -2 ^ 63 ≤ m.pc ∧ m.pc < 2 ^ 63
  loops : ∀ n ∈ m.loops, n < 2 ^ 63
  calls : ∀ n ∈ m.calls, n < 2 ^ 63
  snapshot : (Snapshot.ofMachine m).Fits

/-- Machines in the same state, as far as a snapshot shows it. -/
structure SameState (m n : Machine) : Prop where
  name : m.program.name = n.program.name
  pc : m.pc = n.pc
  running : m.running = n.running
  steps : m.steps = n.steps
  color : m.color = n.color
  stack : List.Forall₂ Value.Agrees m.stack n.stack
  vars (name : Bytes) : Option.Rel Value.Agrees m.vars[name]? n.vars[name]?
  memory (a : Address) : m.memory.read a = n.memory.read a
  loops : m.loops = n.loops
  calls : m.calls = n.calls
  faults : m.faults.toList.map Fault.print = n.faults.toList.map Fault.print

variable {m n : Machine}

theorem forall₂_agrees_iff {vs ws : List Value} : List.Forall₂ Value.Agrees vs ws ↔
    vs.map (fun v => (TaggedValue.ofValue v).canonical) =
      ws.map fun v => (TaggedValue.ofValue v).canonical := by
  have hagrees : Value.Agrees = fun v w =>
      (TaggedValue.ofValue v).canonical = (TaggedValue.ofValue w).canonical :=
    funext fun _ => funext fun _ => propext Value.agrees_iff
  rw [← List.forall₂_eq_eq_eq, List.forall₂_map_left_iff, List.forall₂_map_right_iff, hagrees]

theorem rel_agrees_iff {v w : Option Value} : Option.Rel Value.Agrees v w ↔
    v.map (fun v => (TaggedValue.ofValue v).canonical) =
      w.map fun v => (TaggedValue.ofValue v).canonical := by
  constructor
  · rintro (h | _)
    · rw [Option.map_some, Option.map_some, Value.agrees_iff.mp h]
    · rfl
  · intro h
    cases v with
    | none =>
      cases w with
      | none => exact .none
      | some w => cases h
    | some v =>
      cases w with
      | none => cases h
      | some w => exact .some (Value.agrees_iff.mpr (Option.some.inj h))

theorem stack_eq_iff :
    (Snapshot.ofMachine m).canonical.stack = (Snapshot.ofMachine n).canonical.stack ↔
      List.Forall₂ Value.Agrees m.stack n.stack := by
  rw [Snapshot.stack_ofMachine, Snapshot.stack_ofMachine, Option.some.injEq, List.map_reverse,
    List.map_reverse, List.reverse_inj, forall₂_agrees_iff]

theorem vars_eq_iff :
    (Snapshot.ofMachine m).canonical.vars = (Snapshot.ofMachine n).canonical.vars ↔
      ∀ name : Bytes, Option.Rel Value.Agrees m.vars[name]? n.vars[name]? := by
  constructor
  · intro h name
    rw [rel_agrees_iff, ← Snapshot.vars_ofMachine, ← Snapshot.vars_ofMachine, h]
  · intro h
    have hvars : (Snapshot.ofMachine m).canonical.vars.getD ∅ =
        (Snapshot.ofMachine n).canonical.vars.getD ∅ := by
      refine Std.ExtTreeMap.ext_getElem? fun name => ?_
      rw [Snapshot.vars_ofMachine, Snapshot.vars_ofMachine]
      exact rel_agrees_iff.mp (h name)
    exact congrArg some hvars

theorem memory_eq_iff : (Snapshot.ofMachine m).memory = (Snapshot.ofMachine n).memory ↔
    ∀ a, m.memory.read a = n.memory.read a := by
  constructor
  · intro h a
    rw [Memory.read, Memory.read, ← Snapshot.cells_ofMachine, ← Snapshot.cells_ofMachine, h]
  · intro h
    have hmemory : m.memory = n.memory := Memory.eq_of_read h
    simp only [Snapshot.ofMachine, hmemory]

theorem indices_inj {as bs : List Nat} (has : ∀ n ∈ as, n < 2 ^ 63) (hbs : ∀ n ∈ bs, n < 2 ^ 63)
    (h : Snapshot.indices as = Snapshot.indices bs) : as = bs := by
  have hback {as : List Nat} (has : ∀ n ∈ as, n < 2 ^ 63) :
      (as.reverse.map Int64.ofNat).map Int64.toInt = as.reverse.map Int.ofNat := by
    rw [List.map_map]
    refine List.map_congr_left fun n hn => ?_
    exact Int64.toInt_ofNat_of_lt (has n (List.mem_reverse.mp hn))
  have hsaved := congrArg (fun ns => (ns.getD []).map Int64.toInt) h
  simp only [Snapshot.getD_indices, hback has, hback hbs] at hsaved
  exact List.reverse_injective (List.map_injective_iff.mpr (fun _ _ => Int.ofNat.inj) hsaved)

theorem escape_inj {c d : Color} (h : c.escape = d.escape) : c = d := by
  cases c <;> cases d <;> first | rfl | exact absurd h (by decide)

theorem ofInt_inj {a b : Int} (ha : -2 ^ 63 ≤ a ∧ a < 2 ^ 63) (hb : -2 ^ 63 ≤ b ∧ b < 2 ^ 63)
    (h : Int64.ofInt a = Int64.ofInt b) : a = b := by
  have hint := congrArg Int64.toInt h
  rwa [Int64.toInt_ofInt_of_le ha.1 ha.2, Int64.toInt_ofInt_of_le hb.1 hb.2] at hint

/-- What two snapshots have to agree in is the state of the machines. -/
theorem canonical_eq_iff (hm : m.FitsWords) (hn : n.FitsWords) :
    (Snapshot.ofMachine m).canonical = (Snapshot.ofMachine n).canonical ↔ m.SameState n := by
  rw [Snapshot.eq_iff_fields, stack_eq_iff, vars_eq_iff]
  constructor
  · rintro ⟨hname, hpc, hrunning, hsteps, hcolor, hstack, hvars, hmemory, hloops, hcalls, hfaults⟩
    exact ⟨hname, ofInt_inj hm.pc hn.pc hpc, hrunning, hsteps, escape_inj hcolor, hstack, hvars,
      memory_eq_iff.mp hmemory, indices_inj hm.loops hn.loops hloops,
      indices_inj hm.calls hn.calls hcalls, hfaults⟩
  · intro h
    exact ⟨h.name, congrArg Int64.ofInt h.pc, h.running, h.steps, congrArg Color.escape h.color,
      h.stack, h.vars, memory_eq_iff.mpr h.memory, congrArg Snapshot.indices h.loops,
      congrArg Snapshot.indices h.calls, h.faults⟩

/-- The snapshot as it is written when variables and memory cells are visited in given orders. -/
def snapshotFrom (m : Machine) (vars : List (Bytes × Value)) (cells : List (Address × Int64)) :
    Bytes :=
  let s := Snapshot.ofMachine m
  let named := vars.map fun (x, v) => (Write.str x, (TaggedValue.ofValue v).encode)
  let stored := cells.map fun (a, n) => (Write.word (Int64.ofNat a.val), Write.word n)
  Write.map (Write.field "program" (Write.str s.program) ++
    Write.field "pc" (Write.word s.pc) ++
    Write.field "running" (Write.bool s.running) ++
    Write.field "steps" (Write.word s.steps) ++
    Write.field "color" (Write.str s.color) ++
    Write.field "stack" (Snapshot.encodeList TaggedValue.encode s.stack) ++
    Write.field "vars" (Write.map named) ++
    Write.field "mem" (Write.map stored) ++
    Write.field "loops" (Snapshot.encodeList Write.word s.loops) ++
    Write.field "calls" (Snapshot.encodeList Write.word s.calls) ++
    Write.optionalField "faults" s.faults.isEmpty (Write.array (s.faults.map Write.str)))

theorem map_variables {vars : List (Bytes × Value)} (h : vars.Perm m.vars.toList) :
    Write.map (vars.map fun (x, v) => (Write.str x, (TaggedValue.ofValue v).encode)) =
      Snapshot.encodeMap Write.str TaggedValue.encode (Snapshot.ofMachine m).vars := by
  have hperm : (vars.map fun e => (e.1, TaggedValue.ofValue e.2)).Perm
      (m.vars.map fun _ v => TaggedValue.ofValue v).toList := by
    rw [Std.ExtTreeMap.toList_map]
    exact h.map _
  have hmap := Snapshot.encodeMap_of_perm (g := TaggedValue.encode) (fun _ _ => Write.str_inj.mp) hperm
  rw [List.map_map] at hmap
  exact hmap

theorem map_cells {cells : List (Address × Int64)} (h : cells.Perm m.memory.toList) :
    Write.map (cells.map fun (a, n) => (Write.word (Int64.ofNat a.val), Write.word n)) =
      Snapshot.encodeMap Write.word Write.word (Snapshot.ofMachine m).memory := by
  have hdistinct := distinct_map Snapshot.address_inj m.memory.cells
  have hperm : (cells.map fun e => (Int64.ofNat e.1.val, e.2)).Perm
      (Std.ExtTreeMap.ofList (m.memory.toList.map fun e => (Int64.ofNat e.1.val, e.2))).toList :=
    (h.map _).trans (toList_ofList_perm hdistinct).symm
  have hmap := Snapshot.encodeMap_of_perm (g := Write.word) (fun _ _ => Write.word_inj.mp) hperm
  rw [List.map_map] at hmap
  exact hmap

/-- The order in which variables and memory cells are visited does not show in a snapshot. -/
theorem snapshotFrom_eq {vars : List (Bytes × Value)} {cells : List (Address × Int64)}
    (hvars : vars.Perm m.vars.toList) (hcells : cells.Perm m.memory.toList) :
    m.snapshotFrom vars cells = (Snapshot.ofMachine m).encode := by
  simp only [snapshotFrom, map_variables hvars, map_cells hcells]
  rfl

/-- Snapshots are canonical, and no two states share one. -/
theorem snapshot_eq_iff (hm : m.FitsWords) (hn : n.FitsWords) :
    (Snapshot.ofMachine m).encode = (Snapshot.ofMachine n).encode ↔ m.SameState n := by
  rw [Snapshot.encode_eq_iff hm.snapshot hn.snapshot, canonical_eq_iff hm hn]

/-- Two variables with cells of their own can be set in any order. -/
theorem sameState_setVar_comm (m : Machine) {a b : Bytes} {v w w' : Value} (hname : a ≠ b)
    (hcells : Address.ofName a ≠ Address.ofName b) (hw : w.Agrees w') (hcell : w.cell = w'.cell) :
    ((m.setVar a v).setVar b w).SameState ((m.setVar b w').setVar a v) where
  name := rfl
  pc := rfl
  running := rfl
  steps := rfl
  color := rfl
  stack := forall₂_agrees_iff.mpr rfl
  vars name := by
    change Option.Rel _ ((m.vars.insert a v).insert b w)[name]?
      ((m.vars.insert b w').insert a v)[name]?
    simp only [Std.ExtTreeMap.getElem?_insert, Std.compare_eq_iff_eq]
    by_cases hb : b = name
    · rw [if_pos hb, if_neg (hb ▸ hname), if_pos hb]
      exact .some hw
    · rw [if_neg hb, if_neg hb]
      exact rel_agrees_iff.mpr rfl
  memory c := by
    change ((m.memory.write _ v.cell).write _ w.cell).read c =
      ((m.memory.write _ w'.cell).write _ v.cell).read c
    simp only [Memory.read_write, hcell]
    by_cases hc : Address.ofName b = c
    · rw [if_pos hc, if_neg (hc ▸ hcells), if_pos hc]
    · rw [if_neg hc, if_neg hc]
  loops := rfl
  calls := rfl
  faults := rfl

/-- A machine without instructions in which variables were set, one after the other. -/
def storing (vs : List (Bytes × Value)) : Machine :=
  vs.foldl (fun m e => m.setVar e.1 e.2) { program := ⟨text "p", #[], ∅⟩ }

theorem snapshot_eq_iff_storing :
    (storing [(text "a", .int 7), (text "z", .float 0)]).FitsWords ∧
    (storing [(text "z", .float Binary64.negativeZero), (text "a", .int 7)]).FitsWords ∧
    (Snapshot.ofMachine (storing [(text "a", .int 7), (text "z", .float 0)])).encode =
    (Snapshot.ofMachine
      (storing [(text "z", .float Binary64.negativeZero), (text "a", .int 7)])).encode := by
  have hm : (storing [(text "a", .int 7), (text "z", .float 0)]).FitsWords :=
    ⟨by decide, by decide, by decide, by decide +kernel⟩
  have hn : (storing [(text "z", .float Binary64.negativeZero), (text "a", .int 7)]).FitsWords :=
    ⟨by decide, by decide, by decide, by decide +kernel⟩
  refine ⟨hm, hn, (snapshot_eq_iff hm hn).mpr (sameState_setVar_comm _ ?_ ?_ ?_ ?_)⟩
  · decide
  · decide +kernel
  · exact Or.inl (by decide +kernel)
  · decide +kernel

end Machine
end LineMachine
