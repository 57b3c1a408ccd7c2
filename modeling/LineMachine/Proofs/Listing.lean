import LineMachine.Proofs.IntegerTexts

/-! The listing of a program: one line for each instruction, marked with the label that is bound to it. No
line is bound to two labels, and the order in which the labels are visited does not show. -/
namespace LineMachine.Program

/-- The names among some labels that are bound to the `j`-th line, in the order of the labels. -/
def namesAt (labels : List (Bytes × Nat)) (j : Nat) : List Bytes :=
  (labels.filter fun (_, k) => k = j).map (·.1)

/-- The names of the lines, gathered label by label. -/
def targets (labels : List (Bytes × Nat)) : Std.ExtTreeMap Nat (List Bytes) :=
  labels.foldl (fun ts (name, j) => ts.insert j (ts.getD j [] ++ [name])) ∅

/-- A line of a listing, with the names that were gathered for it in byte order. -/
def lineFrom (ts : Std.ExtTreeMap Nat (List Bytes)) (j : Nat) (i : Instruction) : Bytes :=
  Bytes.padLeft 4 48 (Decimal.ofNat j) ++ text "  " ++ Bytes.padRight 8 Bytes.space i.op.name ++
    [Bytes.space] ++ i.text ++
    (match ts[j]? with
      | none => []
      | some names =>
        text "    ; label " ++ Bytes.join (text ",") (names.mergeSort fun s t => !Bytes.less t s)) ++
    [Bytes.newline]

/-- The listing that is made by visiting the labels of a program in a given order. -/
def listingFrom (p : Program) (labels : List (Bytes × Nat)) : Bytes :=
  (p.lines.toList.zipIdx).flatMap fun (i, j) => lineFrom (targets labels) j i

/-- A line of a listing without its end: the index, with zeros in front up to four digits, the name of the
operation, with blanks behind it up to eight characters, the text, and a label if the line has a mark. -/
def listed (j : Nat) (i : Instruction) (mark : Option Bytes) : Bytes :=
  List.replicate (4 - (Decimal.ofNat j).length) 48 ++ Decimal.ofNat j ++ text "  " ++
    i.op.name ++ List.replicate (8 - i.op.name.length) Bytes.space ++ [Bytes.space] ++ i.text ++
    mark.elim [] (text "    ; label " ++ ·)

variable {p : Program} {i : Instruction} {j : Nat} {x y name source : Bytes}
  {labels : List (Bytes × Nat)}

/-! Visiting the labels in any order. -/

theorem namesAt_concat (labels : List (Bytes × Nat)) (x : Bytes) (k j : Nat) :
    namesAt (labels ++ [(x, k)]) j = namesAt labels j ++ if k = j then [x] else [] := by
  unfold namesAt
  rw [List.filter_append, List.map_append]
  by_cases hk : k = j <;> simp [hk]

theorem getElem?_targets (labels : List (Bytes × Nat)) (j : Nat) :
    (targets labels)[j]? = if namesAt labels j = [] then none else some (namesAt labels j) := by
  induction labels using List.reverseRecOn with
  | nil => simp [targets, namesAt]
  | append_singleton labels l ih =>
    obtain ⟨x, k⟩ := l
    have hgetD : (targets labels).getD j [] = namesAt labels j := by
      rw [Std.ExtTreeMap.getD_eq_getD_getElem?, ih]
      split
      · rename_i hnil
        exact hnil.symm
      · rfl
    have hconcat : targets (labels ++ [(x, k)]) =
        (targets labels).insert k ((targets labels).getD k [] ++ [x]) := by
      unfold targets
      rw [List.foldl_append]
      rfl
    rw [hconcat, Std.ExtTreeMap.getElem?_insert, namesAt_concat]
    by_cases hk : k = j
    · subst hk
      simp [hgetD]
    · simp [hk, ih]

theorem not_less_iff {s t : Bytes} : (!Bytes.less t s) = true ↔ s ≤ t := by
  rw [Bool.not_eq_true', ← Bool.not_eq_true, Bytes.less_iff, List.not_lt]

theorem labelsAt_sorted (p : Program) (j : Nat) : (p.labelsAt j).Pairwise (· < ·) := by
  refine List.Pairwise.map _ (fun _ _ h => h) (List.Pairwise.filter _ ?_)
  refine Std.ExtTreeMap.ordered_keys_toList.imp ?_
  intro e e' h
  rw [← Bytes.less_iff, Bytes.less_eq, h]
  rfl

/-- Sorting undoes what the order of the labels did to the names. -/
theorem mergeSort_namesAt (h : labels.Perm p.labels.toList) (j : Nat) :
    (namesAt labels j).mergeSort (fun s t => !Bytes.less t s) = p.labelsAt j := by
  have hperm : (namesAt labels j).Perm (p.labelsAt j) := (h.filter _).map _
  have hsorted : ((namesAt labels j).mergeSort fun s t => !Bytes.less t s).Pairwise
      fun s t => (!Bytes.less t s) = true := by
    refine List.pairwise_mergeSort ?_ ?_ _
    · intro s t u hst htu
      exact not_less_iff.mpr (List.le_trans (not_less_iff.mp hst) (not_less_iff.mp htu))
    · intro s t
      rw [Bool.or_eq_true, not_less_iff, not_less_iff]
      exact List.le_total s t
  refine List.Perm.eq_of_pairwise ?_ hsorted ?_ ((List.mergeSort_perm _ _).trans hperm)
  · intro s t _ _ hst hts
    exact List.le_antisymm (not_less_iff.mp hst) (not_less_iff.mp hts)
  · refine (labelsAt_sorted p j).imp ?_
    intro s t hlt
    exact not_less_iff.mpr (List.le_of_lt hlt)

theorem lineFrom_eq (h : labels.Perm p.labels.toList) (j : Nat) (i : Instruction) :
    lineFrom (targets labels) j i = p.listLine j i := by
  have hnames := mergeSort_namesAt h j
  have hnil : namesAt labels j = [] ↔ p.labelsAt j = [] := by
    rw [← hnames, ← List.length_eq_zero_iff, ← List.length_eq_zero_iff, List.length_mergeSort]
  unfold lineFrom listLine
  rw [getElem?_targets]
  by_cases hnone : namesAt labels j = []
  · rw [if_pos hnone, hnil.mp hnone]
  · obtain ⟨x, xs, hcons⟩ := List.exists_cons_of_ne_nil (mt hnil.mpr hnone)
    simp only [if_neg hnone, hnames, hcons]

theorem listingFrom_eq (h : labels.Perm p.labels.toList) : p.listingFrom labels = p.listing := by
  refine List.flatMap_congr ?_
  rintro ⟨i, j⟩ -
  exact lineFrom_eq h j i

/-! The labels of a loaded program. -/

theorem mem_labelsAt : x ∈ p.labelsAt j ↔ p.label? x = some j := by
  unfold labelsAt label?
  rw [← Std.ExtTreeMap.mem_toList_iff_getElem?_eq_some]
  simp

/-- A label is bound to the last of the lines with its text. -/
theorem label?_eq_some_iff (hp : load name source = .ok p) (hi : p.lines[j]? = some i) :
    p.label? x = some j ↔ i.text = x ++ [58] ∧
      ∀ k i', p.lines[k]? = some i' → j < k → i'.text ≠ i.text := by
  have htexts : ∀ k : Nat, (lineTexts source)[k]? = p.lines[k]?.map Instruction.text := by
    intro k
    rw [← texts_load hp, texts, List.getElem?_map, Array.getElem?_toList]
  rw [label?_load hp, DeclaredLast, htexts, hi, Option.map_some, Option.some_inj]
  refine and_congr_right ?_
  intro htext
  constructor
  · intro hlast k i' hk hlt heq
    have hle := hlast k (by rw [htexts, hk, Option.map_some, heq, htext])
    omega
  · intro hlater k hk
    rw [htexts] at hk
    obtain ⟨i', hi', heq⟩ := Option.map_eq_some_iff.mp hk
    by_contra hle
    exact hlater k i' hi' (by omega) (heq.trans htext.symm)

/-- Names of the same line are the same, so there is at most one. -/
theorem labelsAt_eq (hp : load name source = .ok p) (j : Nat) :
    p.labelsAt j = (p.labelsAt j).head?.toList := by
  have hsorted := labelsAt_sorted p j
  have hmem : ∀ z ∈ p.labelsAt j, (lineTexts source)[j]? = some (z ++ [58]) := by
    intro z hz
    exact ((label?_load hp z j).mp (mem_labelsAt.mp hz)).1
  match hnames : p.labelsAt j with
  | [] | [x] => rfl
  | x :: y :: rest =>
    rw [hnames] at hsorted hmem
    have hx := hmem x List.mem_cons_self
    rw [hmem y (List.mem_cons_of_mem x List.mem_cons_self), Option.some_inj] at hx
    have hlt := List.rel_of_pairwise_cons hsorted List.mem_cons_self
    rw [List.append_cancel_right hx] at hlt
    exact absurd hlt (List.lt_irrefl x)

theorem head?_labelsAt (hp : load name source = .ok p) :
    (p.labelsAt j).head? = some x ↔ p.label? x = some j := by
  rw [← mem_labelsAt, labelsAt_eq hp j]
  cases (p.labelsAt j).head? <;> simp [eq_comm]

theorem listLine_eq (hp : load name source = .ok p) (j : Nat) (i : Instruction) :
    p.listLine j i = listed j i (p.labelsAt j).head? ++ [Bytes.newline] := by
  unfold listLine listed
  rw [labelsAt_eq hp j]
  cases (p.labelsAt j).head? with
  | none => simp [Bytes.padLeft, Bytes.padRight]
  | some x => simp [Bytes.padLeft, Bytes.padRight, Bytes.join]

/-! The lines of the listing. -/

theorem newline_not_mem_name (op : Opcode) : Bytes.newline ∉ op.name := by
  cases op with
  | arith op | bitwise op | compare op => cases op <;> decide
  | declare kind => cases kind <;> decide
  | _ => decide

theorem newline_not_mem_listed (htext : Bytes.newline ∉ i.text)
    (hmark : ∀ x ∈ (p.labelsAt j).head?, i.text = x ++ [58]) :
    Bytes.newline ∉ listed j i (p.labelsAt j).head? := by
  have hindex : Bytes.newline ∉ Decimal.ofNat j := by
    intro hmem
    cases Decimal.isDigit_of_mem_ofNat hmem
  have hname := newline_not_mem_name i.op
  have hgap : Bytes.newline ∉ text "  " := by decide
  have hsign : Bytes.newline ∉ text "    ; label " := by decide
  have hlabel : Bytes.newline ∉ (p.labelsAt j).head?.elim [] (text "    ; label " ++ ·) := by
    cases hx : (p.labelsAt j).head? with
    | none => exact List.not_mem_nil
    | some x =>
      rw [hmark x hx, List.mem_append, not_or] at htext
      simpa [hsign] using htext.1
  unfold listed
  simp only [List.mem_append, List.mem_replicate, List.mem_singleton, not_or]
  refine ⟨⟨⟨⟨⟨⟨⟨?_, hindex⟩, hgap⟩, hname⟩, ?_⟩, by decide⟩, htext⟩, hlabel⟩
  · exact fun h => absurd h.2 (by decide)
  · exact fun h => absurd h.2 (by decide)

/-- The listing of a loaded program has a line for each instruction, in order, and no others. It shows the
index, the operation and the text, and it is marked with a label if the text is the name and a colon and no
later line has the same text. The order in which the labels are visited does not matter. -/
theorem listing_shows_every_line (hp : load name source = .ok p) : ∃ ls : List Bytes,
    p.listing = ls.flatMap (· ++ [Bytes.newline]) ∧ ls.length = p.size ∧
    (∀ l ∈ ls, Bytes.newline ∉ l) ∧
    (∀ j i, p.lines[j]? = some i → ∃ mark : Option Bytes, ls[j]? = some (listed j i mark) ∧
      ∀ x, mark = some x ↔ i.text = x ++ [58] ∧
        ∀ k i', p.lines[k]? = some i' → j < k → i'.text ≠ i.text) ∧
    ∀ labels : List (Bytes × Nat), labels.Perm p.labels.toList →
      p.listingFrom labels = p.listing := by
  let line : Instruction × Nat → Bytes := fun (i, j) => listed j i (p.labelsAt j).head?
  have hmark : ∀ j i, p.lines[j]? = some i → ∀ x, (p.labelsAt j).head? = some x ↔
      i.text = x ++ [58] ∧ ∀ k i', p.lines[k]? = some i' → j < k → i'.text ≠ i.text := by
    intro j i hi x
    rw [head?_labelsAt hp, label?_eq_some_iff hp hi]
  refine ⟨p.lines.toList.zipIdx.map line, ?_, ?_, ?_, ?_, fun labels => listingFrom_eq⟩
  · rw [listing, List.flatMap_map]
    refine List.flatMap_congr ?_
    rintro ⟨i, j⟩ -
    exact listLine_eq hp j i
  · simp [size]
  · intro l hl
    obtain ⟨⟨i, j⟩, hmem, rfl⟩ := List.mem_map.mp hl
    have hi : p.lines[j]? = some i := by
      rw [← Array.getElem?_toList]
      exact List.mem_zipIdx_iff_getElem?.mp hmem
    have hspaced := spaced_load hp (Array.mem_of_getElem? hi)
    exact newline_not_mem_listed hspaced.newline_not_mem fun x hx => ((hmark j i hi x).mp hx).1
  · intro j i hi
    refine ⟨(p.labelsAt j).head?, ?_, hmark j i hi⟩
    rw [List.getElem?_map, List.getElem?_zipIdx, Array.getElem?_toList, hi]
    simp [line]

/-- Of two lines that declare the same label, the last one has the mark, and so has an empty name. -/
theorem listing_shows_every_line_twice :
    ∃ p i k, load (text "p") (text "end:\n:\nend:") = .ok p ∧ p.lines[0]? = some i ∧
      p.lines[2]? = some k ∧
      p.listing = text "0000  label    end:\n0001  label    :    ; label \n" ++
        text "0002  label    end:    ; label end\n" ∧
      p.listingFrom p.labels.toList.reverse = p.listing ∧
      ∃ ls : List Bytes, p.listing = ls.flatMap (· ++ [Bytes.newline]) ∧ ls.length = 3 ∧
        ls[0]? = some (listed 0 i none) ∧ ls[2]? = some (listed 2 k (some (text "end"))) := by
  obtain ⟨p, hp, hfirst, hlast, hsize, hlisting⟩ := exists_of_loads
    (P := fun p => p.lines[0]?.map Instruction.text = some (text "end:") ∧
      p.lines[2]?.map Instruction.text = some (text "end:") ∧ p.size = 3 ∧
      p.listing = text "0000  label    end:\n0001  label    :    ; label \n" ++
        text "0002  label    end:    ; label end\n")
    (text "p") (text "end:\n:\nend:") (by decide +kernel)
  obtain ⟨i, hi, hitext⟩ := Option.map_eq_some_iff.mp hfirst
  obtain ⟨k, hk, hktext⟩ := Option.map_eq_some_iff.mp hlast
  obtain ⟨ls, hls, hlength, -, hmarks, horder⟩ := listing_shows_every_line hp
  obtain ⟨mark, hline, hmark⟩ := hmarks 0 i hi
  obtain ⟨mark', hline', hmark'⟩ := hmarks 2 k hk
  have hnone : mark = none := by
    rw [Option.eq_none_iff_forall_ne_some]
    intro x hx
    exact ((hmark x).mp hx).2 2 k hk (by decide) (hktext.trans hitext.symm)
  have hsome : mark' = some (text "end") := by
    refine (hmark' (text "end")).mpr ⟨hktext.trans (by decide), ?_⟩
    intro n i' hn hlt
    have hbound : n < p.size := (Array.getElem?_eq_some_iff.mp hn).choose
    omega
  rw [hnone] at hline
  rw [hsome] at hline'
  exact ⟨p, i, k, hp, hi, hk, hlisting, horder _ (List.reverse_perm _), ls, hls,
    hlength.trans hsize, hline, hline'⟩

end LineMachine.Program
