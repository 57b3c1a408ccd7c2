import LineMachine.Proofs.CborRecords
import LineMachine.Snapshot.Encode

/-! Snapshots as items. A snapshot is written as one record, with every field in its place; what is
read from it is the snapshot itself with one zero for both, if all texts are valid and nothing is
too long. -/
namespace LineMachine

open Cbor

theorem optionalField_eq (name : String) (isDefault : Bool) (i : Item) :
    Write.optionalField name isDefault i.write =
      (Item.entries [(name, Item.optional isDefault i)]).map Item.written := by
  cases isDefault with
  | true => rfl
  | false =>
    change [_] = [(_, _)]
    rw [Item.write_ofText]

theorem field_eq (name : String) (i : Item) :
    Write.field name i.write = (Item.entries [(name, some i)]).map Item.written :=
  optionalField_eq name false i

/-- What holds of nothing need not be asked of a list that is left out. -/
theorem nonempty_imp_iff {α : Type} {P : List α → Prop} (h : P []) (l : List α) :
    (l.isEmpty = false → P l) ↔ P l := by
  cases l <;> simp [h]

theorem written_cons (f : String × Option Item) (fs : List (String × Option Item)) :
    (Item.entries (f :: fs)).map Item.written =
      (Item.entries [f]).map Item.written ++ (Item.entries fs).map Item.written := by
  simp [Item.entries]

namespace TaggedValue

/-- The fields in the order of their keys. -/
def fieldItems (t : TaggedValue) : List (String × Option Item) :=
  [("b", Item.optional (!t.bool) (.ofBool t.bool)),
    ("f", Item.optional (t.float == 0) (.float t.float)),
    ("i", Item.optional (t.int = 0) (.ofWord t.int)),
    ("k", some (.ofText t.kind)),
    ("s", Item.optional t.str.isEmpty (.ofText t.str))]

theorem names_fieldItems (t : TaggedValue) :
    t.fieldItems.map (·.1) = ["b", "f", "i", "k", "s"] := rfl

def item (t : TaggedValue) : Item := .record t.fieldItems

theorem write_item (t : TaggedValue) : t.item.write = t.encode := by
  have hfloat : Write.float t.float = (Item.float t.float).write := by rw [Item.write]
  refine Item.write_record ?_ (names_fieldItems t ▸ by decide)
  simp only [← Item.write_ofText, ← Item.write_ofWord, ← Item.write_ofBool, hfloat, field_eq,
    optionalField_eq, fieldItems, written_cons _ (_ :: _)]
  classical
  rw [List.perm_iff_count]
  intro e
  simp only [List.count_append]
  omega

/-- What is read back: both zeros are the positive one. -/
def canonical (t : TaggedValue) : TaggedValue :=
  { t with float := Binary64.canonical t.float }

def texts (t : TaggedValue) : List Bytes := [t.kind, t.str]

theorem forall_texts {P : Bytes → Prop} (t : TaggedValue) :
    (∀ b ∈ t.texts, P b) ↔ P t.kind ∧ P t.str := by
  simp [texts]

theorem within_item {size room : Nat} (hsize : 5 ≤ size) (t : TaggedValue) :
    t.item.Within size (room + 1) ↔ ∀ b ∈ t.texts, b.length < 2 ^ 64 := by
  have hempty := nonempty_imp_iff (P := fun b : Bytes => b.length < 2 ^ 64) (by decide) t.str
  rw [item, Item.within_record hsize (names_fieldItems t ▸ by decide), forall_texts]
  simp only [fieldItems, List.forall_mem_cons, List.not_mem_nil, Item.within_optional,
    Item.within_ofBool, Item.within_ofWord, Item.within_ofText, Item.Within.float, hempty,
    Option.mem_some_iff, forall_eq', imp_true_iff, false_imp_iff, true_and, and_true]

open Reader in
theorem read_item (t : TaggedValue) :
    SomeIf (read {} t.item) (∀ b ∈ t.texts, Utf8.valid b) t.canonical := by
  have hb (r : TaggedValue) : SomeIf (setter fields "b" r (.ofBool t.bool)) True
      { r with bool := t.bool } := (bool_ofBool _ _).map _
  have hf (r : TaggedValue) : SomeIf (setter fields "f" r (.float t.float)) True
      { r with float := t.float } := .of_some trivial
  have hi (r : TaggedValue) : SomeIf (setter fields "i" r (.ofWord t.int)) True
      { r with int := t.int } := (word_ofWord _ _).map _
  have hk (r : TaggedValue) : SomeIf (setter fields "k" r (.ofText t.kind)) (Utf8.valid t.kind)
      { r with kind := t.kind } := (str_ofText _ _).map _
  have hs (r : TaggedValue) : SomeIf (setter fields "s" r (.ofText t.str)) (Utf8.valid t.str)
      { r with str := t.str } := (str_ofText _ _).map _
  rw [read, item, record_record (by rw [names_fieldItems]; decide)
    (by rw [names_fieldItems]; decide) (by rw [names_fieldItems]; decide)]
  refine SomeIf.congr (.bind (assign_optional (hb _)) <| .bind (assign_optional (hf _)) <|
    .bind (assign_optional (hi _)) <| .bind (assign_some (hk _)) <|
    .bind (assign_optional (hs _)) (.of_some trivial)) ?_ ?_
  · have hempty := nonempty_imp_iff (P := fun b => Utf8.valid b = true) rfl t.str
    simp only [hempty, imp_true_iff, true_and, and_true, forall_texts]
  · unfold canonical Binary64.canonical
    obtain ⟨kind, int, float, str, bool⟩ := t
    by_cases hzero : int = 0 <;> cases float == 0 <;> cases str <;> cases bool <;> simp [hzero]

end TaggedValue

namespace Snapshot

/-- The fields in the order of their keys. -/
def fieldItems (s : Snapshot) : List (String × Option Item) :=
  [("pc", some (.ofWord s.pc)),
    ("mem", some (.ofMap .ofWord .ofWord s.memory)),
    ("vars", some (.ofMap .ofText TaggedValue.item s.vars)),
    ("calls", some (.ofList .ofWord s.calls)),
    ("color", some (.ofText s.color)),
    ("loops", some (.ofList .ofWord s.loops)),
    ("stack", some (.ofList TaggedValue.item s.stack)),
    ("steps", some (.ofWord s.steps)),
    ("faults", Item.optional s.faults.isEmpty (.ofList .ofText (some s.faults))),
    ("program", some (.ofText s.program)),
    ("running", some (.ofBool s.running))]

theorem names_fieldItems (s : Snapshot) : s.fieldItems.map (·.1) =
    ["pc", "mem", "vars", "calls", "color", "loops", "stack", "steps", "faults", "program",
      "running"] := rfl

def item (s : Snapshot) : Item := .record s.fieldItems

theorem encodeList_eq {α : Type} {f : α → Bytes} {g : α → Item} (h : ∀ a, (g a).write = f a)
    (as : Option (List α)) : encodeList f as = (Item.ofList g as).write := by
  cases as with
  | none => exact Item.write_null.symm
  | some as =>
    rw [Item.ofList, Item.write, List.map_map, show Item.write ∘ g = f from funext h]
    rfl

theorem encodeMap_eq {κ α : Type} [Ord κ] [Std.TransOrd κ] {f : κ → Bytes} {g : α → Bytes}
    {f' : κ → Item} {g' : α → Item} (hf : ∀ k, (f' k).write = f k) (hg : ∀ a, (g' a).write = g a)
    (m : Option (Std.ExtTreeMap κ α)) : encodeMap f g m = (Item.ofMap f' g' m).write := by
  cases m with
  | none => exact Item.write_null.symm
  | some m =>
    rw [Item.ofMap, Item.write_sorted, List.map_map]
    simp only [Function.comp_def, Item.written, hf, hg]
    rfl

/-- A map is written the same in whatever order its entries are visited. -/
theorem encodeMap_of_perm {κ α : Type} [Ord κ] [Std.TransOrd κ] [Std.LawfulEqOrd κ]
    {f : κ → Bytes} {g : α → Bytes} (hf : ∀ j k, f j = f k → j = k) {m : Std.ExtTreeMap κ α}
    {l : List (κ × α)} (h : l.Perm m.toList) :
    Write.map (l.map fun (k, a) => (f k, g a)) = encodeMap f g (some m) := by
  refine Write.map_perm (h.map _) ?_
  rw [List.map_map]
  exact (h.map _).nodup_iff.mpr (nodup_map hf m)

theorem write_item (s : Snapshot) : s.item.write = s.encode := by
  refine Item.write_record ?_ (names_fieldItems s ▸ by decide)
  have hfaults : Write.array (s.faults.map Write.str) =
      (Item.ofList .ofText (some s.faults)).write :=
    encodeList_eq Item.write_ofText (some s.faults)
  simp only [encodeList_eq TaggedValue.write_item, encodeList_eq Item.write_ofWord,
    encodeMap_eq Item.write_ofText TaggedValue.write_item,
    encodeMap_eq Item.write_ofWord Item.write_ofWord, hfaults, ← Item.write_ofText,
    ← Item.write_ofWord, ← Item.write_ofBool, field_eq, optionalField_eq, fieldItems,
    written_cons _ (_ :: _)]
  classical
  rw [List.perm_iff_count]
  intro e
  simp only [List.count_append]
  omega

/-- What is read back: both zeros are the positive one. -/
def canonical (s : Snapshot) : Snapshot :=
  { s with
    stack := s.stack.map (List.map TaggedValue.canonical)
    vars := s.vars.map fun m => m.map fun _ => TaggedValue.canonical }

/-- Every text that is written. -/
def texts (s : Snapshot) : List Bytes :=
  s.program :: s.color :: (s.stack.getD []).flatMap TaggedValue.texts ++
    s.variableList.flatMap (fun e => e.1 :: e.2.texts) ++ s.faults

/-- The length of every sequence and map that is written. -/
def sizes (s : Snapshot) : List Nat :=
  [(s.stack.getD []).length, s.variableList.length, s.cells.length, (s.loops.getD []).length,
    (s.calls.getD []).length, s.faults.length]

theorem forall_texts {P : Bytes → Prop} (s : Snapshot) : (∀ b ∈ s.texts, P b) ↔
    P s.program ∧ P s.color ∧ (∀ t ∈ s.stack.getD [], ∀ b ∈ t.texts, P b) ∧
      (∀ e ∈ s.variableList, P e.1 ∧ ∀ b ∈ e.2.texts, P b) ∧ ∀ f ∈ s.faults, P f := by
  simp only [texts, List.cons_append, List.append_assoc, List.forall_mem_cons,
    List.forall_mem_append, List.forall_mem_flatMap]

theorem within_item {size room : Nat} (hsize : 11 ≤ size) (s : Snapshot) :
    s.item.Within size (room + 3) ↔
      (∀ b ∈ s.texts, b.length < 2 ^ 64) ∧ ∀ n ∈ s.sizes, n ≤ size := by
  have hempty := nonempty_imp_iff
    (P := fun fs : List Bytes => fs.length ≤ size ∧ ∀ f ∈ fs, f.length < 2 ^ 64) (by simp) s.faults
  rw [item, Item.within_record hsize (names_fieldItems s ▸ by decide), forall_texts]
  simp only [fieldItems, sizes, List.forall_mem_cons, List.not_mem_nil, Item.within_optional,
    Item.within_ofBool, Item.within_ofWord, Item.within_ofText, Item.within_ofList,
    Item.within_ofMap, TaggedValue.within_item (show 5 ≤ size by omega), hempty,
    Option.mem_some_iff, forall_eq', Option.getD_some, imp_true_iff, false_imp_iff, true_and,
    and_true]
  constructor
  · rintro ⟨hmemory, ⟨hvars, hnames⟩, hcalls, hcolor, hloops, ⟨hstack, hvalues⟩, ⟨hfaults, hlines⟩,
      hprogram⟩
    exact ⟨⟨hprogram, hcolor, hvalues, hnames, hlines⟩, hstack, hvars, hmemory, hloops, hcalls,
      hfaults⟩
  · rintro ⟨⟨hprogram, hcolor, hvalues, hnames, hlines⟩, hstack, hvars, hmemory, hloops, hcalls,
      hfaults⟩
    exact ⟨hmemory, ⟨hvars, hnames⟩, hcalls, hcolor, hloops, ⟨hstack, hvalues⟩, ⟨hfaults, hlines⟩,
      hprogram⟩

theorem map_snd {κ α : Type} [Ord κ] [Std.TransOrd κ] [Std.LawfulEqOrd κ]
    (m : Std.ExtTreeMap κ α) : (m.map fun _ a => a) = m := by
  refine Std.ExtTreeMap.ext_getElem? fun k => ?_
  rw [Std.ExtTreeMap.getElem?_map, Option.map_id']

open Reader in
theorem record_item (s : Snapshot) :
    SomeIf (record fields {} s.item) (∀ b ∈ s.texts, Utf8.valid b) s.canonical := by
  have hpc (r : Snapshot) : SomeIf (setter fields "pc" r (.ofWord s.pc)) True
      { r with pc := s.pc } := (word_ofWord _ _).map _
  have hmem (r : Snapshot) : SomeIf (setter fields "mem" r (.ofMap .ofWord .ofWord s.memory)) _
      { r with memory := s.memory.map fun m => m.map fun _ n => n } :=
    (map_ofMap word_ofWord (fun _ => word_ofWord _) r.memory s.memory).map _
  have hvars (r : Snapshot) :
      SomeIf (setter fields "vars" r (.ofMap .ofText TaggedValue.item s.vars)) _
      { r with vars := s.canonical.vars } :=
    (map_ofMap str_ofText (fun _ => TaggedValue.read_item) r.vars s.vars).map _
  have hcalls (r : Snapshot) : SomeIf (setter fields "calls" r (.ofList .ofWord s.calls)) _
      { r with calls := s.calls.map (List.map id) } :=
    (list_ofList (fun n => word_ofWord 0 n) r.calls s.calls).map _
  have hcolor (r : Snapshot) : SomeIf (setter fields "color" r (.ofText s.color)) _
      { r with color := s.color } := (str_ofText _ _).map _
  have hloops (r : Snapshot) : SomeIf (setter fields "loops" r (.ofList .ofWord s.loops)) _
      { r with loops := s.loops.map (List.map id) } :=
    (list_ofList (fun n => word_ofWord 0 n) r.loops s.loops).map _
  have hstack (r : Snapshot) :
      SomeIf (setter fields "stack" r (.ofList TaggedValue.item s.stack)) _
      { r with stack := s.canonical.stack } :=
    (list_ofList TaggedValue.read_item r.stack s.stack).map _
  have hsteps (r : Snapshot) : SomeIf (setter fields "steps" r (.ofWord s.steps)) True
      { r with steps := s.steps } := (word_ofWord _ _).map _
  have hfaults (r : Snapshot) :
      SomeIf (setter fields "faults" r (.ofList .ofText (some s.faults))) _
      { r with faults := s.faults.map id } :=
    ((list_ofList (fun f => str_ofText [] f) (some r.faults) (some s.faults)).map _).map _
  have hprogram (r : Snapshot) : SomeIf (setter fields "program" r (.ofText s.program)) _
      { r with program := s.program } := (str_ofText _ _).map _
  have hrunning (r : Snapshot) : SomeIf (setter fields "running" r (.ofBool s.running)) True
      { r with running := s.running } := (bool_ofBool _ _).map _
  rw [item, record_record (by rw [names_fieldItems]; decide) (by rw [names_fieldItems]; decide)
    (by rw [names_fieldItems]; decide)]
  refine SomeIf.congr (.bind (assign_some (hpc _)) <| .bind (assign_some (hmem _)) <|
    .bind (assign_some (hvars _)) <| .bind (assign_some (hcalls _)) <|
    .bind (assign_some (hcolor _)) <| .bind (assign_some (hloops _)) <|
    .bind (assign_some (hstack _)) <| .bind (assign_some (hsteps _)) <|
    .bind (assign_optional (hfaults _)) <| .bind (assign_some (hprogram _)) <|
    .bind (assign_some (hrunning _)) (.of_some trivial)) ?_ ?_
  · have hempty := nonempty_imp_iff (P := fun fs => ∀ f ∈ fs, Utf8.valid f) (by simp) s.faults
    simp only [Option.getD_some, hempty, imp_true_iff, and_true, true_and, forall_texts]
    constructor
    · rintro ⟨hvars, hcolor, hstack, hfaults, hprogram⟩
      exact ⟨hprogram, hcolor, hstack, hvars, hfaults⟩
    · rintro ⟨hprogram, hcolor, hstack, hvars, hfaults⟩
      exact ⟨hvars, hcolor, hstack, hfaults, hprogram⟩
  · have hmemory : (s.memory.map fun m => m.map fun _ n => n) = s.memory := by
      simp only [map_snd, Option.map_id']
    have hlist (ns : Option (List Int64)) : ns.map (List.map id) = ns := by cases ns <;> simp
    simp only [List.map_id, hmemory, hlist]
    obtain ⟨_, _, _, _, _, _, _, _, _, _, faults⟩ := s
    cases faults <;> rfl

theorem vars_canonical (s : Snapshot) (name : Bytes) :
    (s.canonical.vars.getD ∅)[name]? = (s.vars.getD ∅)[name]?.map TaggedValue.canonical := by
  cases hs : s.vars <;> simp [canonical, hs, Std.ExtTreeMap.getElem?_map]

theorem stack_ofMachine (m : Machine) : (ofMachine m).canonical.stack =
    some (m.stack.reverse.map fun v => (TaggedValue.ofValue v).canonical) := by
  change some ((m.stack.reverse.map TaggedValue.ofValue).map TaggedValue.canonical) = _
  rw [List.map_map]
  rfl

theorem vars_ofMachine (m : Machine) (name : Bytes) :
    ((ofMachine m).canonical.vars.getD ∅)[name]? =
      m.vars[name]?.map fun v => (TaggedValue.ofValue v).canonical := by
  have hvars : (ofMachine m).vars.getD ∅ = m.vars.map fun _ v => TaggedValue.ofValue v := rfl
  rw [vars_canonical, hvars, Std.ExtTreeMap.getElem?_map, Option.map_map]
  rfl

theorem getD_indices (saved : List Nat) :
    (indices saved).getD [] = saved.reverse.map Int64.ofNat := by
  cases saved <;> rfl

theorem address_inj (a b : Address) (h : Int64.ofNat a.val = Int64.ofNat b.val) : a = b := by
  have hlt (a : Address) : a.val < 2 ^ 63 := Nat.lt_trans a.isLt (by decide)
  have hint := congrArg Int64.toInt h
  rw [Int64.toInt_ofNat_of_lt (hlt a), Int64.toInt_ofNat_of_lt (hlt b)] at hint
  exact Fin.ext (Int.ofNat.inj hint)

theorem cells_ofMachine (m : Machine) (a : Address) :
    ((ofMachine m).memory.getD ∅)[Int64.ofNat a.val]? = m.memory.cells[a]? :=
  getElem?_ofList_map address_inj _ a

/-- Lengths are words, as those of everything that fits in a memory are. -/
def Fits (s : Snapshot) : Prop := (∀ b ∈ s.texts, b.length < 2 ^ 64) ∧ ∀ n ∈ s.sizes, n < 2 ^ 64

instance (s : Snapshot) : Decidable s.Fits := inferInstanceAs (Decidable (_ ∧ _))

theorem Fits.within_item {s : Snapshot} (h : s.Fits) : s.item.Within (2 ^ 64 - 1) 3 :=
  (Snapshot.within_item (by decide) s).mpr ⟨h.1, fun n hn => Nat.le_sub_one_of_lt (h.2 n hn)⟩

/-- What is written of a snapshot is read back if all texts are valid UTF-8 and nothing has more
elements than the reader allows. -/
theorem decode?_encode {s : Snapshot} (h : s.Fits) : SomeIf (decode? s.encode)
    ((∀ n ∈ s.sizes, n ≤ Read.maxSize) ∧ ∀ b ∈ s.texts, Utf8.valid b) s.canonical := by
  have hlimit : s.item.Within Read.maxSize Read.maxDepth ↔ ∀ n ∈ s.sizes, n ≤ Read.maxSize :=
    (@within_item Read.maxSize 29 (by decide) s).trans (and_iff_right h.1)
  have hread := read?_write (by decide) h.within_item
  rw [hlimit, write_item] at hread
  exact hread.bind (record_item s)

end Snapshot
end LineMachine
