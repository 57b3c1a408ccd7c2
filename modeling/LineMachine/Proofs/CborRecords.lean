import Mathlib.Data.List.Pairwise
import LineMachine.Proofs.CborItems
import LineMachine.Snapshot.Decode

/-! Maps and records. The order of written keys is a total one, so a map has one written form, and
what readers make of written items is said reader by reader. -/
namespace LineMachine.Cbor

namespace Write

variable {a b c : Bytes}

/-- The order of keys: by length, then by bytes. -/
def keyOrder : Bytes → Bytes → Ordering := compareLex (compareOn List.length) compare

instance : Std.TransCmp keyOrder :=
  inferInstanceAs (Std.TransCmp (compareLex (compareOn List.length) compare))

theorem keyLe_eq (a b : Bytes) : keyLe a b = (keyOrder a b).isLE := by
  unfold keyLe keyOrder compareLex compareOn
  split
  · rename_i hlen
    have hswap : compare b a = (compare a b).swap := Std.OrientedCmp.eq_swap
    rw [Bytes.less_eq, hswap, hlen, Nat.compare_eq_eq.mpr rfl]
    cases compare a b <;> rfl
  · rename_i hlen
    rcases Nat.lt_or_gt_of_ne hlen with hlt | hgt
    · simp [Nat.compare_eq_lt.mpr hlt, hlt]
    · simp [Nat.compare_eq_gt.mpr hgt, Nat.le_of_lt hgt]

theorem keyLe_trans (hab : keyLe a b) (hbc : keyLe b c) : keyLe a c := by
  rw [keyLe_eq] at *
  exact Std.TransCmp.isLE_trans hab hbc

theorem keyLe_total (a b : Bytes) : (keyLe a b || keyLe b a) = true := by
  have hswap : keyOrder b a = (keyOrder a b).swap := Std.OrientedCmp.eq_swap
  rw [keyLe_eq, keyLe_eq, hswap]
  cases keyOrder a b <;> rfl

theorem keyLe_antisymm (hab : keyLe a b) (hba : keyLe b a) : a = b := by
  rw [keyLe_eq] at hab hba
  have heq : keyOrder a b = .eq := Std.OrientedCmp.isLE_antisymm hab hba
  exact Std.LawfulEqCmp.eq_of_compare (Ordering.then_eq_eq.mp heq).2

theorem keyLe_refl (a : Bytes) : keyLe a a = true := by
  have htotal := keyLe_total a a
  rwa [Bool.or_self] at htotal

/-- A map with distinct keys is written in the order of its keys, whatever order they come in. -/
theorem map_eq_of_perm {es es' : List (Bytes × Bytes)} (hperm : es.Perm es')
    (hkeys : es'.Pairwise fun e e' => keyLe e'.1 e.1 = false) :
    map es = head .map es'.length ++ es'.flatMap fun (k, v) => k ++ v := by
  have hsorted : es'.Pairwise fun e e' => keyLe e.1 e'.1 := by
    refine hkeys.imp fun {e e'} hnot => ?_
    have htotal := keyLe_total e.1 e'.1
    rwa [hnot, Bool.or_false] at htotal
  have hinj : ∀ e ∈ es', ∀ e' ∈ es', e.1 = e'.1 → e = e' := by
    have : Std.Symm fun e e' : Bytes × Bytes => e.1 = e'.1 → e = e' :=
      ⟨fun e e' h heq => (h heq.symm).symm⟩
    refine List.Pairwise.forall_of_forall (fun _ _ _ => rfl) (hkeys.imp fun hnot heq => ?_)
    rw [heq, keyLe_refl] at hnot
    cases hnot
  have hsort : es.mergeSort (fun a b => keyLe a.1 b.1) = es' := by
    have hmerged := List.pairwise_mergeSort (l := es) (fun a b c => @keyLe_trans a.1 b.1 c.1)
      fun a b => keyLe_total a.1 b.1
    have hto := (es.mergeSort_perm fun a b => keyLe a.1 b.1).trans hperm
    refine hto.eq_of_pairwise (fun e e' he he' hle hge => ?_) hmerged hsorted
    exact hinj e (hto.mem_iff.mp he) e' he' (keyLe_antisymm hle hge)
  rw [map, hperm.length_eq, hsort]

theorem map_perm {es es' : List (Bytes × Bytes)} (h : es.Perm es') (hkeys : (es.map (·.1)).Nodup) :
    map es = map es' := by
  have hsort := es.mergeSort_perm fun a b => keyLe a.1 b.1
  have hsorted := List.pairwise_mergeSort (l := es) (fun a b c => @keyLe_trans a.1 b.1 c.1)
    fun a b => keyLe_total a.1 b.1
  have hdistinct : (es.mergeSort fun a b => keyLe a.1 b.1).Pairwise fun e e' => e.1 ≠ e'.1 :=
    List.pairwise_map.mp ((hsort.map _).nodup_iff.mpr hkeys)
  have hstrict : (es.mergeSort fun a b => keyLe a.1 b.1).Pairwise
      fun e e' => keyLe e'.1 e.1 = false := by
    refine (hsorted.and hdistinct).imp ?_
    rintro e e' ⟨hle, hne⟩
    rw [← Bool.not_eq_true]
    intro hge
    exact hne (keyLe_antisymm hle hge)
  rw [map_eq_of_perm hsort.symm hstrict, map_eq_of_perm (h.symm.trans hsort.symm) hstrict]

theorem length_head (major : Major) (n : Nat) : (head major n).length =
    if n < 24 then 1 else if n < 1 <<< 8 then 2 else if n < 1 <<< 16 then 3
      else if n < 1 <<< 32 then 5 else 9 := by
  unfold head
  split_ifs <;> simp [Read.length_bigEndian]

theorem str_inj : str b = str c ↔ b = c := by
  refine ⟨fun h => ?_, congrArg str⟩
  have htotal := congrArg List.length h
  simp only [str, List.length_append, length_head] at htotal
  have hlength : b.length = c.length := by
    split_ifs at htotal <;> omega
  exact List.append_inj_right' h hlength

end Write

namespace Item

def ofWord (n : Int64) : Item :=
  if 0 ≤ n.toInt then .unsigned n.toInt.toNat else .negative (-1 - n.toInt).toNat

def ofText (b : Bytes) : Item := .text [b]

def ofBool (b : Bool) : Item := .simple (if b then 21 else 20)

def null : Item := .simple 22

def ofList {α : Type} (f : α → Item) : Option (List α) → Item
  | none => null
  | some as => .array (as.map f)

/-- A map with its entries in the order of their written keys. -/
def sorted (es : List (Item × Item)) : Item :=
  .map (es.mergeSort fun a b => Write.keyLe a.1.write b.1.write)

def ofMap {κ α : Type} [Ord κ] [Std.TransOrd κ] (f : κ → Item) (g : α → Item) :
    Option (Std.ExtTreeMap κ α) → Item
  | none => null
  | some m => sorted (m.toList.map fun (k, a) => (f k, g a))

/-- An item that is left out if it is the default. -/
def optional (isDefault : Bool) (i : Item) : Option Item := if isDefault then none else some i

/-- The entries of a record, for the fields that are there. -/
def entries (fs : List (String × Option Item)) : List (Item × Item) :=
  fs.flatMap fun f => f.2.toList.map fun i => (ofText (LineMachine.text f.1), i)

/-- A map from field names, in the order given. -/
def record (fs : List (String × Option Item)) : Item := .map (entries fs)

theorem write_ofWord (n : Int64) : (ofWord n).write = Write.word n := by
  unfold ofWord Write.word Write.int
  split <;> rw [write]

theorem write_ofText (b : Bytes) : (ofText b).write = Write.str b := by
  rw [ofText, write, List.flatten_singleton]

theorem write_ofBool (b : Bool) : (ofBool b).write = Write.bool b := by
  rw [ofBool, write]
  cases b <;> rfl

theorem write_null : null.write = Write.null := by
  rw [null, write]
  rfl

/-- An entry as it is written. -/
def written (e : Item × Item) : Bytes × Bytes := (e.1.write, e.2.write)

theorem write_sorted (es : List (Item × Item)) :
    (sorted es).write = Write.map (es.map written) := by
  have hsort : (es.mergeSort fun a b => Write.keyLe a.1.write b.1.write).map written =
      (es.map written).mergeSort fun a b => Write.keyLe a.1 b.1 :=
    List.map_mergeSort fun _ _ _ _ => rfl
  rw [sorted, write, Write.map, ← hsort, List.flatMap_map, List.length_mergeSort, List.length_map]
  rfl

/-- Entries in the order of their written keys. -/
def keySort {κ α : Type} (key : κ → Item) (l : List (κ × α)) : List (κ × α) :=
  l.mergeSort fun a b => Write.keyLe (key a.1).write (key b.1).write

theorem keySort_perm {κ α : Type} (key : κ → Item) (l : List (κ × α)) : (keySort key l).Perm l :=
  l.mergeSort_perm _

theorem sorted_map {κ α : Type} (key : κ → Item) (f : α → Item) (l : List (κ × α)) :
    sorted (l.map fun e => (key e.1, f e.2)) =
      .map ((keySort key l).map fun e => (key e.1, f e.2)) := by
  have hsort : (keySort key l).map (fun e => (key e.1, f e.2)) =
      (l.map fun e => (key e.1, f e.2)).mergeSort
        fun a b => Write.keyLe a.1.write b.1.write :=
    List.map_mergeSort fun _ _ _ _ => rfl
  rw [sorted, hsort]

theorem write_record {fs : List (String × Option Item)} {es : List (Bytes × Bytes)}
    (hperm : es.Perm ((entries fs).map written))
    (hnames : (fs.map (·.1)).Pairwise fun m n =>
      Write.keyLe (Write.str (LineMachine.text n)) (Write.str (LineMachine.text m)) = false) :
    (record fs).write = Write.map es := by
  have hkeys : ((entries fs).map written).Pairwise fun e e' => Write.keyLe e'.1 e.1 = false := by
    rw [List.pairwise_map] at hnames ⊢
    unfold entries
    rw [List.pairwise_flatMap]
    constructor
    · intro f _
      cases f.2 <;> simp
    · refine hnames.imp fun {f g} hlt x hx y hy => ?_
      obtain ⟨i, -, rfl⟩ := List.mem_map.mp hx
      obtain ⟨j, -, rfl⟩ := List.mem_map.mp hy
      simp only [written, write_ofText]
      exact hlt
  rw [Write.map_eq_of_perm hperm hkeys, record, write, List.flatMap_map, List.length_map]
  rfl

section Within

variable {size room : Nat} {α κ : Type}

theorem within_ofWord (n : Int64) : (ofWord n).Within size room := by
  have hlow := n.le_toInt
  have hhigh := n.toInt_lt
  unfold ofWord
  split
  · exact .unsigned (by omega)
  · exact .negative (by omega)

theorem within_ofBool (b : Bool) : (ofBool b).Within size room := by
  cases b <;> exact .simple (by decide)

theorem within_null : null.Within size room := .simple (by decide)

theorem within_ofText {b : Bytes} : (ofText b).Within size room ↔ b.length < 2 ^ 64 := by
  refine ⟨?_, .text⟩
  rintro ⟨⟩
  assumption

theorem within_ofList {f : α → Item} {as : Option (List α)} :
    (ofList f as).Within size (room + 1) ↔
      (as.getD []).length ≤ size ∧ ∀ a ∈ as.getD [], (f a).Within size room := by
  cases as with
  | none => simpa [ofList] using within_null
  | some as => simp [ofList, within_array_iff]

theorem within_ofMap [Ord κ] [Std.TransOrd κ] {f : κ → Item} {g : α → Item}
    {m : Option (Std.ExtTreeMap κ α)} : (ofMap f g m).Within size (room + 1) ↔
      ((m.map (·.toList)).getD []).length ≤ size ∧
        ∀ e ∈ (m.map (·.toList)).getD [], (f e.1).Within size room ∧ (g e.2).Within size room := by
  cases m with
  | none => simpa [ofMap] using within_null
  | some m =>
    simp only [ofMap, sorted, within_map_iff, List.length_mergeSort, List.length_map,
      List.mem_mergeSort, List.forall_mem_map, Option.map_some, Option.getD_some]

theorem length_entries_le (fs : List (String × Option Item)) :
    (entries fs).length ≤ fs.length := by
  induction fs with
  | nil => exact Nat.le_refl 0
  | cons f fs ih =>
    have hone : f.2.toList.length ≤ 1 := by cases f.2 <;> simp
    have hcons : entries (f :: fs) =
        f.2.toList.map (fun i => (ofText (LineMachine.text f.1), i)) ++ entries fs := rfl
    rw [hcons, List.length_append, List.length_map, List.length_cons]
    omega

/-- The names of fields are short, and so are records. -/
theorem within_record {fs : List (String × Option Item)} (hlen : fs.length ≤ size)
    (hnames : ∀ n ∈ fs.map (·.1), (LineMachine.text n).length < 2 ^ 64) :
    (record fs).Within size (room + 1) ↔ ∀ f ∈ fs, ∀ i ∈ f.2, i.Within size room := by
  rw [record, within_map_iff, and_iff_right (Nat.le_trans (length_entries_le fs) hlen)]
  simp only [entries, List.forall_mem_flatMap, List.forall_mem_map, Option.mem_toList,
    within_ofText]
  refine forall₂_congr fun f hf => forall₂_congr fun i _ => ?_
  exact and_iff_right (hnames f.1 (List.mem_map_of_mem hf))

theorem within_optional {isDefault : Bool} {j : Item} :
    (∀ i ∈ optional isDefault j, i.Within size room) ↔
      (isDefault = false → j.Within size room) := by
  cases isDefault <;> simp [optional]

end Within
end Item

theorem text_inj {m n : String} : text m = text n ↔ m = n := by
  refine ⟨fun h => ?_, congrArg text⟩
  exact String.toByteArray_inj.mp (ByteArray.ext (Array.toList_inj.mp h))

section Maps

variable {κ α : Type} [Ord κ] [Std.TransOrd κ] [Std.LawfulEqOrd κ] {l : List (κ × α)}

theorem getElem?_ofList_eq_some (h : l.Pairwise fun e e' => ¬ compare e.1 e'.1 = .eq) {k : κ}
    {a : α} : (Std.ExtTreeMap.ofList l)[k]? = some a ↔ (k, a) ∈ l := by
  classical
  have hget {b : α} (hmem : (k, b) ∈ l) : (Std.ExtTreeMap.ofList l)[k]? = some b :=
    Std.ExtTreeMap.getElem?_ofList_of_mem Std.ReflCmp.compare_self h hmem
  refine ⟨fun hk => ?_, hget⟩
  have hin : k ∈ Std.ExtTreeMap.ofList l := by
    rw [Std.ExtTreeMap.mem_iff_isSome_getElem?, hk]
    rfl
  rw [Std.ExtTreeMap.mem_ofList, List.contains_iff_mem] at hin
  obtain ⟨⟨_, b⟩, hmem, rfl⟩ := List.mem_map.mp hin
  rw [hget hmem, Option.some.injEq] at hk
  exact hk ▸ hmem

/-- A map is determined by the entries of its list, in any order. -/
theorem ofList_of_perm {m : Std.ExtTreeMap κ α} (h : l.Perm m.toList) :
    Std.ExtTreeMap.ofList l = m := by
  have hdistinct : l.Pairwise fun e e' => ¬ compare e.1 e'.1 = .eq :=
    (h.pairwise_iff fun hne heq => hne (Std.OrientedCmp.eq_comm.mp heq)).mpr
      Std.ExtTreeMap.distinct_keys_toList
  refine Std.ExtTreeMap.ext_getElem? fun k => Option.ext fun a => ?_
  rw [getElem?_ofList_eq_some hdistinct, h.mem_iff, Std.ExtTreeMap.mem_toList_iff_getElem?_eq_some]

theorem toList_ofList_perm (h : l.Pairwise fun e e' => ¬ compare e.1 e'.1 = .eq) :
    (Std.ExtTreeMap.ofList l).toList.Perm l := by
  have hnodup {l : List (κ × α)} (h : l.Pairwise fun e e' => ¬ compare e.1 e'.1 = .eq) :
      l.Nodup := by
    refine h.imp ?_
    rintro e _ hne rfl
    exact hne Std.ReflCmp.compare_self
  rw [List.perm_ext_iff_of_nodup (hnodup Std.ExtTreeMap.distinct_keys_toList) (hnodup h)]
  rintro ⟨k, a⟩
  rw [Std.ExtTreeMap.mem_toList_iff_getElem?_eq_some, getElem?_ofList_eq_some h]

variable {κ' : Type} {f : κ → κ'}

theorem nodup_map (hf : ∀ j k, f j = f k → j = k) (m : Std.ExtTreeMap κ α) :
    (m.toList.map fun e => f e.1).Nodup := by
  refine List.pairwise_map.mpr (Std.ExtTreeMap.distinct_keys_toList.imp ?_)
  intro e e' hne heq
  rw [hf _ _ heq] at hne
  exact hne Std.ReflCmp.compare_self

variable [Ord κ'] [Std.LawfulEqOrd κ']

theorem distinct_map (hf : ∀ j k, f j = f k → j = k) (m : Std.ExtTreeMap κ α) :
    (m.toList.map fun e => (f e.1, e.2)).Pairwise fun e e' => ¬ compare e.1 e'.1 = .eq := by
  refine List.pairwise_map.mpr ((List.pairwise_map.mp (nodup_map hf m)).imp ?_)
  intro e e' hne heq
  exact hne (Std.LawfulEqCmp.eq_of_compare heq)

theorem getElem?_ofList_map [Std.TransOrd κ'] (hf : ∀ j k, f j = f k → j = k)
    (m : Std.ExtTreeMap κ α) (k : κ) : (Std.ExtTreeMap.ofList (m.toList.map fun e => (f e.1, e.2)))[f k]? = m[k]? := by
  refine Option.ext fun a => ?_
  rw [getElem?_ofList_eq_some (distinct_map hf m), ← Std.ExtTreeMap.mem_toList_iff_getElem?_eq_some,
    List.mem_map]
  constructor
  · rintro ⟨⟨k', b⟩, hmem, heq⟩
    cases hf _ _ (congrArg Prod.fst heq)
    cases heq
    exact hmem
  · exact fun hmem => ⟨_, hmem, rfl⟩

end Maps

namespace Reader

theorem word_ofWord (old n : Int64) : SomeIf (word old (.ofWord n)) True n := by
  have hrange := And.intro n.minValue_le_toInt n.toInt_le
  have hfrom : Decimal.toInt64? n.toInt = some n := by
    rw [Decimal.toInt64?, if_pos hrange, Int64.ofInt_toInt]
  suffices hword : word old (.ofWord n) = some n by
    rw [hword]
    exact .of_some trivial
  unfold Item.ofWord
  split
  · rename_i hpos
    change Decimal.toInt64? n.toInt.toNat = some n
    rw [Int.toNat_of_nonneg hpos, hfrom]
  · rename_i hneg
    have hfits : (-1 - n.toInt).toNat < 1 <<< 63 := by
      have hlow := n.le_toInt
      change _ < 2 ^ 63
      omega
    have hback : -1 - ((-1 - n.toInt).toNat : Int) = n.toInt := by omega
    simp only [word, Item.plain?, if_pos hfits, hback, hfrom]

theorem bool_ofBool (old b : Bool) : SomeIf (bool old (.ofBool b)) True b := by
  cases b <;> exact .of_some trivial

theorem str_ofText (old b : Bytes) : SomeIf (str old (.ofText b)) (Utf8.valid b) b := by
  change SomeIf (if [b].all Utf8.valid then some [b].flatten else none) _ _
  rw [List.flatten_singleton, List.all_cons, List.all_nil, Bool.and_true]
  split
  · exact .of_some ‹_›
  · exact .of_none ‹_›

section Collections

variable {α β : Type} {zero : α} {read : Reader α} {f : β → Item} {g : β → α} {P : β → Prop}

theorem mapM_map (h : ∀ b, SomeIf (read zero (f b)) (P b) (g b)) (bs : List β) :
    SomeIf ((bs.map f).mapM (read zero)) (∀ b ∈ bs, P b) (bs.map g) := by
  induction bs with
  | nil => exact .of_some (by simp)
  | cons b bs ih =>
    rw [List.map_cons, List.mapM_cons, List.forall_mem_cons, ← and_true (∀ b ∈ bs, P b)]
    exact (h b).bind (ih.bind (.of_some trivial))

theorem list_ofList (h : ∀ b, SomeIf (read zero (f b)) (P b) (g b)) (old : Option (List α))
    (bs : Option (List β)) : SomeIf (list zero read old (.ofList f bs)) (∀ b ∈ bs.getD [], P b)
      (bs.map (List.map g)) := by
  cases bs with
  | none => exact .of_some (by simp)
  | some bs => exact (mapM_map h bs).map some

/-- One entry of a map, put into the map read so far. -/
def insertEntry {κ : Type} [Ord κ] [Std.TransOrd κ] (shared : Bool) (zero : α)
    (readKey : Reader κ) (read : Reader α) (s : Std.ExtTreeMap κ α × κ × α) (e : Item × Item) :
    Option (Std.ExtTreeMap κ α × κ × α) := do
  let k ← readKey s.2.1 e.1
  let a ← read (if shared then s.2.2 else zero) e.2
  some (s.1.insert k a, k, a)

variable {κ : Type} [Ord κ] [Std.TransOrd κ] {readKey : Reader κ}
  {key : κ → Item} {K : κ → Prop} {shared : Bool}

/-- The places that the entries share do not matter. -/
theorem foldlM_insertEntry (hkey : ∀ old k, SomeIf (readKey old (key k)) (K k) k)
    (h : ∀ old b, SomeIf (read (if shared then old else zero) (f b)) (P b) (g b))
    (es : List (κ × β)) (s : Std.ExtTreeMap κ α × κ × α) : ∃ k a,
      SomeIf ((es.map fun e => (key e.1, f e.2)).foldlM (insertEntry shared zero readKey read) s)
        (∀ e ∈ es, K e.1 ∧ P e.2) (s.1.insertMany (es.map fun e => (e.1, g e.2)), k, a) := by
  induction es generalizing s with
  | nil =>
    refine ⟨s.2.1, s.2.2, ?_⟩
    rw [List.map_nil, List.map_nil, Std.ExtTreeMap.insertMany_nil]
    exact .of_some (by simp)
  | cons e es ih =>
    obtain ⟨k, a, hrest⟩ := ih (s.1.insert e.1 (g e.2), e.1, g e.2)
    have hentry : SomeIf (insertEntry shared zero readKey read s (key e.1, f e.2))
        (K e.1 ∧ P e.2 ∧ True) (s.1.insert e.1 (g e.2), e.1, g e.2) :=
      (hkey _ e.1).bind ((h _ e.2).bind (.of_some trivial))
    rw [and_true] at hentry
    refine ⟨k, a, ?_⟩
    rw [List.map_cons, List.map_cons, Std.ExtTreeMap.insertMany_cons, List.foldlM_cons,
      List.forall_mem_cons]
    exact hentry.bind hrest

theorem map_ofMap [Std.LawfulEqOrd κ] {noKey : κ}
    (hkey : ∀ old k, SomeIf (readKey old (key k)) (K k) k)
    (h : ∀ old b, SomeIf (read (if shared then old else zero) (f b)) (P b) (g b))
    (old : Option (Std.ExtTreeMap κ α)) (m : Option (Std.ExtTreeMap κ β)) :
    SomeIf (map noKey zero shared readKey read old (.ofMap key f m))
      (∀ e ∈ (m.map (·.toList)).getD [], K e.1 ∧ P e.2) (m.map fun m => m.map fun _ => g) := by
  cases m with
  | none => exact .of_some (by simp)
  | some m =>
    have hperm := Item.keySort_perm key m.toList
    obtain ⟨k, a, hfold⟩ := foldlM_insertEntry hkey h (Item.keySort key m.toList) (∅, noKey, zero)
    have hm : (∅ : Std.ExtTreeMap κ α).insertMany
        ((Item.keySort key m.toList).map fun e => (e.1, g e.2)) = m.map fun _ => g := by
      rw [← Std.ExtTreeMap.ofList_eq_insertMany_empty]
      refine ofList_of_perm ?_
      rw [Std.ExtTreeMap.toList_map]
      exact hperm.map _
    have hall : (∀ e ∈ Item.keySort key m.toList, K e.1 ∧ P e.2) ↔
        ∀ e ∈ m.toList, K e.1 ∧ P e.2 := by
      simp only [hperm.mem_iff]
    rw [hm, hall] at hfold
    rw [Item.ofMap, Item.sorted_map]
    exact hfold.map fun r => some r.1

end Collections

section Records

variable {ρ : Type} {fields : Fields ρ} {m n : String} {fs : List (String × Option Item)}

/-- What an entry for a field does to a record. -/
def setter (fields : Fields ρ) (name : String) : ρ → Item → Option ρ :=
  ((fields.find? fun f => text f.1 = text name).map (·.2)).getD fun r _ => some r

/-- What a field does to a record, whether it is there or not. -/
def assign (fields : Fields ρ) (r : ρ) (f : String × Option Item) : Option ρ :=
  match f.2 with
  | none => some r
  | some i => setter fields f.1 r i

theorem find?_known (h : n ∈ fields.map (·.1)) :
    fields.find? (fun f => text f.1 = text n) = some (n, setter fields n) := by
  obtain ⟨f, hf, hname⟩ := List.mem_map.mp h
  unfold setter
  cases hfind : fields.find? fun f => text f.1 = text n with
  | none => exact absurd (List.find?_eq_none.mp hfind f hf) (by simp [hname])
  | some g =>
    obtain rfl := text_inj.mp (by simpa using List.find?_some hfind)
    rfl

theorem setter_filter_ne (h : m ≠ n) :
    setter (fields.filter fun f => f.1 ≠ n) m = setter fields m := by
  have hsame : (fun f : String × (ρ → Item → Option ρ) =>
      decide (decide (f.1 ≠ n) = true ∧ decide (text f.1 = text m) = true)) =
      fun f => decide (text f.1 = text m) := by
    funext f
    by_cases hf : f.1 = m <;> simp [text_inj, hf, h]
  rw [setter, setter, List.find?_filter, hsame]

theorem entry_ofText (hvalid : Utf8.valid (text n)) (h : n ∈ fields.map (·.1)) (r : ρ) (i : Item) :
    entry (fields, r) (.ofText (text n), i) =
      (setter fields n r i).bind fun r => some (fields.filter fun f => f.1 ≠ n, r) := by
  have hkey : chunks? [text n] = some (text n) := by simp [chunks?, hvalid]
  have hfind : find? fields (text n) = some (n, setter fields n) := by
    rw [find?, find?_known h]
  rw [Item.ofText, entry, hkey]
  simp only [Option.bind_eq_bind, Option.bind_some, hfind]

/-- The fields that are left know the rest of the names, and do with them what all fields do. -/
theorem foldlM_entry {rest : Fields ρ} (hvalid : ∀ n ∈ fs.map (·.1), Utf8.valid (text n))
    (hknown : ∀ n ∈ fs.map (·.1), n ∈ rest.map (·.1) ∧ setter rest n = setter fields n)
    (hnodup : (fs.map (·.1)).Nodup) (r : ρ) :
    ((Item.entries fs).foldlM entry (rest, r)).map (·.2) = fs.foldlM (assign fields) r := by
  induction fs generalizing rest r with
  | nil => rfl
  | cons f fs ih =>
    obtain ⟨n, o⟩ := f
    rw [List.map_cons, List.forall_mem_cons] at hvalid hknown
    obtain ⟨hne, hrest⟩ := List.nodup_cons.mp hnodup
    cases o with
    | none => exact ih hvalid.2 hknown.2 hrest r
    | some i =>
      have hleft (m : String) (hm : m ∈ fs.map (·.1)) :
          m ∈ (rest.filter fun f => f.1 ≠ n).map (·.1) ∧
            setter (rest.filter fun f => f.1 ≠ n) m = setter fields m := by
        have hmn : m ≠ n := fun h => hne (h ▸ hm)
        obtain ⟨hmem, hset⟩ := hknown.2 m hm
        obtain ⟨f, hf, rfl⟩ := List.mem_map.mp hmem
        rw [setter_filter_ne hmn]
        exact ⟨List.mem_map.mpr ⟨f, List.mem_filter.mpr ⟨hf, by simpa using hmn⟩, rfl⟩, hset⟩
      change (((Item.ofText (text n), i) :: Item.entries fs).foldlM entry (rest, r)).map (·.2) =
        (setter fields n r i).bind fun r => fs.foldlM (assign fields) r
      rw [List.foldlM_cons, entry_ofText hvalid.1 hknown.1.1, hknown.1.2]
      cases setter fields n r i with
      | none => rfl
      | some r => exact ih hvalid.2 hleft hrest r

/-- A record whose fields are known is read field by field. -/
theorem record_record (hvalid : ∀ n ∈ fs.map (·.1), Utf8.valid (text n))
    (hknown : ∀ n ∈ fs.map (·.1), n ∈ fields.map (·.1)) (hnodup : (fs.map (·.1)).Nodup) (old : ρ) :
    record fields old (.record fs) = fs.foldlM (assign fields) old :=
  foldlM_entry hvalid (fun n hn => ⟨hknown n hn, rfl⟩) hnodup old

variable {isDefault : Bool} {i : Item} {P : Prop} {r r' : ρ}

theorem assign_some (h : SomeIf (setter fields n r i) P r') :
    SomeIf (assign fields r (n, some i)) P r' := h

theorem assign_optional (h : SomeIf (setter fields n r i) P r') :
    SomeIf (assign fields r (n, Item.optional isDefault i)) (isDefault = false → P)
      (if isDefault then r else r') := by
  cases isDefault with
  | false => simpa [assign, Item.optional] using h
  | true => exact .of_some nofun

end Records
end Reader
end LineMachine.Cbor
