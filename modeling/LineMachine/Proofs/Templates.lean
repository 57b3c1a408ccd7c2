import LineMachine.Proofs.Execution
import LineMachine.Proofs.Layout
import LineMachine.Proofs.Lexing

/-! How text is split at its references. There is one way to split a text into segments that could not be
joined and leave out no reference, and rendering the segments replaces each reference in the text. -/
namespace LineMachine.Template

/-- Nothing at the start of the text continues a name. -/
def EndsName (s : Bytes) : Prop := ∀ b ∈ s.head?, isNameByte b = false

/-- A segment as it may stand before others. A reference has a name that goes on as long as there are name
bytes. Literal text is not followed by other literal text, and none of its dollar signs stands before a
name. -/
inductive Fits : Segment → Template → Prop
  | ref {name : Bytes} {after : Template} : name ≠ [] → (∀ b ∈ name, isNameByte b = true) →
      EndsName (source after) → Fits (.ref name) after
  | literal {l : Bytes} {after : Template} : l ≠ [] →
      (∀ x y, l = x ++ Operand.dollar :: y → EndsName (y ++ source after)) →
      (∀ l' rest, after ≠ .literal l' :: rest) → Fits (.literal l) after

/-- Every segment fits where it stands. -/
def Canonical (t : Template) : Prop := ∀ before x after, t = before ++ x :: after → Fits x after

/-- A text in which each reference is replaced, from the left to the right. -/
def substitute (value : Bytes → Bytes) : Bytes → Bytes
  | [] => []
  | b :: s =>
    if b = Operand.dollar ∧ s.takeWhile isNameByte ≠ [] then
      value (s.takeWhile isNameByte) ++ substitute value (s.dropWhile isNameByte)
    else b :: substitute value s
termination_by s => s.length
decreasing_by
  · exact Nat.lt_succ_of_le (List.dropWhile_sublist _).length_le
  · exact Nat.lt_succ_self _

variable {m : Machine} {s t name l : Bytes} {u after : Template} {x : Segment} {b : UInt8}

theorem endsName_nil : EndsName [] := nofun

theorem endsName_append (hs : EndsName s) (ht : EndsName t) : EndsName (s ++ t) := by
  cases s with
  | nil => exact ht
  | cons b s => exact hs

theorem EndsName.takeWhile (h : EndsName s) : s.takeWhile isNameByte = [] :=
  Line.takeWhile_append (g := []) (by simp) h

theorem endsName_of_takeWhile (h : s.takeWhile isNameByte = []) : EndsName s := by
  cases s with
  | nil => exact endsName_nil
  | cons b s =>
    rintro c hc
    cases hc
    by_contra hb
    rw [List.takeWhile_cons_of_pos (by simpa using hb)] at h
    cases h

theorem endsName_dropWhile (s : Bytes) : EndsName (s.dropWhile isNameByte) := by
  intro b hb
  have hnot := List.head?_dropWhile_not isNameByte s
  rw [Option.mem_def] at hb
  rw [hb] at hnot
  simpa using hnot

theorem takeWhile_name (hname : ∀ b ∈ name, isNameByte b = true) (hs : EndsName s) :
    (name ++ s).takeWhile isNameByte = name ∧ (name ++ s).dropWhile isNameByte = s := by
  refine ⟨Line.takeWhile_append hname hs, ?_⟩
  have hwhole := List.takeWhile_append_dropWhile (p := isNameByte) (l := name ++ s)
  rw [Line.takeWhile_append hname hs] at hwhole
  exact List.append_cancel_left hwhole

/-- A text goes on with a reference or with a byte that is none. -/
theorem refs_induction {P : Bytes → Prop} (nil : P [])
    (ref : ∀ name s, name ≠ [] → (∀ b ∈ name, isNameByte b = true) → EndsName s → P s →
      P (Operand.dollar :: (name ++ s)))
    (verbatim : ∀ b s, (b = Operand.dollar → EndsName s) → P s → P (b :: s)) (s : Bytes) : P s := by
  induction hn : s.length using Nat.strongRecOn generalizing s with
  | ind n ih =>
    subst hn
    cases s with
    | nil => exact nil
    | cons b s =>
      by_cases href : b = Operand.dollar ∧ s.takeWhile isNameByte ≠ []
      · obtain ⟨rfl, hname⟩ := href
        have hlt : (s.dropWhile isNameByte).length < (Operand.dollar :: s).length :=
          Nat.lt_succ_of_le (List.dropWhile_sublist _).length_le
        have h := ref _ _ hname (fun b => List.mem_takeWhile_imp) (endsName_dropWhile s)
          (ih _ hlt _ rfl)
        rwa [List.takeWhile_append_dropWhile] at h
      · refine verbatim b s (fun hb => ?_) (ih _ (Nat.lt_succ_self _) s rfl)
        exact endsName_of_takeWhile (by_contra fun hname => href ⟨hb, hname⟩)

theorem split_name (hne : name ≠ []) (hname : ∀ b ∈ name, isNameByte b = true) (hs : EndsName s) :
    split (Operand.dollar :: (name ++ s)) = .ref name :: split s := by
  obtain ⟨htake, hdrop⟩ := takeWhile_name hname hs
  have h := split_ref (s := name ++ s) (by rwa [htake])
  rwa [htake, hdrop] at h

theorem split_verbatim (hb : b = Operand.dollar → EndsName s) :
    split (b :: s) = prepend [b] (split s) := by
  by_cases h : b = Operand.dollar
  · subst h
    exact split_lone_dollar (hb rfl).takeWhile
  · exact split_cons h s

/-- Literal text is split off as it is. -/
theorem split_literal (hl : ∀ x y, l = x ++ Operand.dollar :: y → EndsName (y ++ s)) :
    split (l ++ s) = prepend l (split s) := by
  induction l with
  | nil => rfl
  | cons b l ih =>
    have hb : b = Operand.dollar → EndsName (l ++ s) := fun h => hl [] l (by rw [h]; rfl)
    have hrest := ih fun x y h => hl (b :: x) y (by rw [h]; rfl)
    rw [List.cons_append, split_verbatim hb, hrest, ← prepend_append]
    rfl

theorem source_prepend (s : Bytes) (u : Template) : source (prepend s u) = s ++ source u := by
  cases s with
  | nil => rfl
  | cons b s =>
    cases u with
    | nil => rfl
    | cons x u => cases x <;> simp [prepend, source, Segment.source]

theorem source_split (s : Bytes) : source (split s) = s := by
  induction s using refs_induction with
  | nil => rfl
  | ref name s hne hname hs ih =>
    rw [split_name hne hname hs]
    exact congrArg (fun r => Operand.dollar :: (name ++ r)) ih
  | verbatim b s hb ih => rw [split_verbatim hb, source_prepend, ih, List.singleton_append]

theorem canonical_cons : Canonical (x :: u) ↔ Fits x u ∧ Canonical u := by
  constructor
  · intro h
    exact ⟨h [] x u rfl, fun before y after heq => h (x :: before) y after (by rw [heq]; rfl)⟩
  · rintro ⟨hx, hu⟩ before y after heq
    cases before with
    | nil => cases heq; exact hx
    | cons z before => cases heq; exact hu before y after rfl

/-- A dollar sign in the longer text is the new byte or stands where it stood before. -/
theorem canonical_prepend (hb : b = Operand.dollar → EndsName (source u)) (hu : Canonical u) :
    Canonical (prepend [b] u) := by
  have hdollar : ∀ l after, (b = Operand.dollar → EndsName (l ++ source after)) →
      (∀ x y, l = x ++ Operand.dollar :: y → EndsName (y ++ source after)) →
      ∀ x y, b :: l = x ++ Operand.dollar :: y → EndsName (y ++ source after) := by
    intro l after hfirst hrest x y heq
    cases x with
    | nil => cases heq; exact hfirst rfl
    | cons c x => cases heq; exact hrest x y rfl
  have hnone : ∀ after x y, ([] : Bytes) = x ++ Operand.dollar :: y → EndsName (y ++ source after) := by
    intro after x y heq
    cases x <;> cases heq
  cases u with
  | nil =>
    refine canonical_cons.mpr ⟨.literal (List.cons_ne_nil _ _) ?_ nofun, hu⟩
    exact hdollar [] [] hb (hnone [])
  | cons x u =>
    cases x with
    | ref name =>
      refine canonical_cons.mpr ⟨.literal (List.cons_ne_nil _ _) ?_ nofun, hu⟩
      exact hdollar [] (.ref name :: u) hb (hnone _)
    | literal l =>
      obtain ⟨hfits, hu⟩ := canonical_cons.mp hu
      cases hfits with
      | literal hne hl hnext =>
        refine canonical_cons.mpr ⟨.literal (List.cons_ne_nil _ _) ?_ hnext, hu⟩
        exact hdollar l u hb hl

theorem canonical_split (s : Bytes) : Canonical (split s) := by
  induction s using refs_induction with
  | nil => exact fun before x after h => by cases before <;> cases h
  | ref name s hne hname hs ih =>
    rw [split_name hne hname hs]
    exact canonical_cons.mpr ⟨.ref hne hname (by rwa [source_split]), ih⟩
  | verbatim b s hb ih =>
    rw [split_verbatim hb]
    exact canonical_prepend (by rwa [source_split]) ih

/-- Segments that fit are found again in the text they make up. -/
theorem split_source (h : Canonical u) : split (source u) = u := by
  induction u with
  | nil => rfl
  | cons x u ih =>
    obtain ⟨hfits, hu⟩ := canonical_cons.mp h
    cases hfits with
    | ref hne hname hs => exact (split_name hne hname hs).trans (by rw [ih hu])
    | @literal l _ hne hl hnext =>
      have hsplit : split (source (.literal l :: u)) = prepend l (split (source u)) := split_literal hl
      rw [hsplit, ih hu]
      cases l with
      | nil => exact absurd rfl hne
      | cons b l =>
        cases u with
        | nil => rfl
        | cons y u =>
          cases y with
          | ref name => rfl
          | literal l' => exact absurd rfl (hnext l' u)

theorem canonical_iff : source u = s ∧ Canonical u ↔ u = split s := by
  constructor
  · rintro ⟨rfl, hu⟩
    exact (split_source hu).symm
  · rintro rfl
    exact ⟨source_split s, canonical_split s⟩

theorem substitute_name (value : Bytes → Bytes) (hne : name ≠ [])
    (hname : ∀ b ∈ name, isNameByte b = true) (hs : EndsName s) :
    substitute value (Operand.dollar :: (name ++ s)) = value name ++ substitute value s := by
  obtain ⟨htake, hdrop⟩ := takeWhile_name hname hs
  rw [substitute, htake, hdrop, if_pos ⟨rfl, hne⟩]

theorem substitute_verbatim (value : Bytes → Bytes) (hb : b = Operand.dollar → EndsName s) :
    substitute value (b :: s) = b :: substitute value s := by
  rw [substitute, if_neg fun h => h.2 (hb h.1).takeWhile]

/-- What is put in for a reference has no part in how the text around it is read. -/
theorem substitute_append (value : Bytes → Bytes) (s : Bytes) (ht : EndsName t) :
    substitute value (s ++ t) = substitute value s ++ substitute value t := by
  induction s using refs_induction with
  | nil => rw [List.nil_append, substitute, List.nil_append]
  | ref name s hne hname hs ih =>
    rw [substitute_name value hne hname hs, List.cons_append, List.append_assoc,
      substitute_name value hne hname (endsName_append hs ht), ih, List.append_assoc]
  | verbatim b s hb ih =>
    rw [substitute_verbatim value hb, List.cons_append,
      substitute_verbatim value fun h => endsName_append (hb h) ht, ih, List.cons_append]

theorem render_prepend (m : Machine) (s : Bytes) (u : Template) :
    m.render (prepend s u) = s ++ m.render u := by
  cases s with
  | nil => rfl
  | cons b s =>
    cases u with
    | nil => rfl
    | cons x u => cases x <;> simp [prepend, Machine.render]

theorem render_split (m : Machine) (s : Bytes) :
    m.render (split s) = substitute (fun name => (m.getVar name).print) s := by
  induction s using refs_induction with
  | nil => rw [substitute]; rfl
  | ref name s hne hname hs ih =>
    rw [split_name hne hname hs, substitute_name _ hne hname hs, ← ih]
    rfl
  | verbatim b s hb ih =>
    rw [split_verbatim hb, render_prepend, substitute_verbatim _ hb, ih, List.singleton_append]

/-- Every text is read, and its segments are the only ones that make up the text and all fit. In any state
the text that is printed is the text with the variables' values in place of the references; a value has
no part in what else is replaced, and nothing in it is replaced. -/
theorem splits_in_one_way (s : Bytes) :
    lexed s = .ok (split s) ∧ (∀ u, source u = s ∧ Canonical u ↔ u = split s) ∧
    ∀ m : Machine, m.render (split s) = substitute (fun name => (m.getVar name).print) s ∧
      ∀ x name y, s = x ++ Operand.dollar :: (name ++ y) → name ≠ [] →
        (∀ b ∈ name, isNameByte b = true) → EndsName y →
        m.render (split s) =
          m.render (split x) ++ ((m.getVar name).print ++ m.render (split y)) := by
  refine ⟨lexed_eq s, fun u => canonical_iff, fun m => ⟨render_split m s, ?_⟩⟩
  rintro x name y rfl hne hname hy
  have hdollar : EndsName (Operand.dollar :: (name ++ y)) := by
    rintro b hb
    cases hb
    rfl
  rw [render_split, render_split, render_split, substitute_append _ _ hdollar,
    substitute_name _ hne hname hy]

/-- The value of the first reference looks like the second one. -/
theorem splits_in_one_way_lookalike :
    let s := text "a$$x_1-$ $b$"
    let m := (Machine.new ⟨[], #[], ∅⟩ ⟨⟨[], none⟩, .scripted [], text "> ", false⟩).setVar
      (text "x_1") (.str (text "$b"))
    (∃ u, u = [.literal (text "a$"), .ref (text "x_1"), .literal (text "-$ "), .ref (text "b"),
        .literal (text "$")] ∧ source u = s ∧ Canonical u) ∧
      m.render (split s) =
        m.render (split (text "a$")) ++ (text "$b" ++ m.render (split (text "-$ $b$"))) := by
  intro s m
  obtain ⟨-, hunique, hrender⟩ := splits_in_one_way s
  refine ⟨⟨_, rfl, (hunique _).mpr (by decide +kernel)⟩, ?_⟩
  have hvalue : (m.getVar (text "x_1")).print = text "$b" := by decide +kernel
  rw [← hvalue]
  exact (hrender m).2 (text "a$") (text "x_1") (text "-$ $b$") (by decide +kernel) (by decide +kernel)
    (by decide +kernel) (by unfold EndsName; decide +kernel)

end LineMachine.Template
