import LineMachine.Cbor.Read
import LineMachine.Cbor.Write
import LineMachine.Proofs.FloatFormats

/-! Written items. What is written of an item, with anything behind it, is read back as that item
and nothing more; and no two items are written alike, also beyond the limits of the reader. -/
namespace LineMachine

/-- The option holds `a` if `P` holds, and nothing if it does not. -/
def SomeIf {α : Type} (o : Option α) (P : Prop) (a : α) : Prop := ∀ b, o = some b ↔ P ∧ b = a

namespace SomeIf

variable {α β : Type} {o : Option α} {f : α → Option β} {P Q : Prop} {a : α} {b : β}

theorem of_some (hP : P) : SomeIf (some a) P a := by
  intro b
  rw [Option.some.injEq, and_iff_right hP]
  exact eq_comm

theorem of_none (hP : ¬ P) : SomeIf none P a := fun _ => ⟨nofun, fun h => absurd h.1 hP⟩

theorem eq_some (h : SomeIf o P a) (hP : P) : o = some a := (h a).mpr ⟨hP, rfl⟩

theorem congr {c : α} (h : SomeIf o P a) (hPQ : P ↔ Q) (hac : a = c) : SomeIf o Q c :=
  hac ▸ fun b => (h b).trans (and_congr_left' hPQ)

theorem bind (h : SomeIf o P a) (hf : SomeIf (f a) Q b) : SomeIf (o.bind f) (P ∧ Q) b := by
  intro c
  rw [Option.bind_eq_some_iff]
  constructor
  · rintro ⟨d, ho, hc⟩
    obtain ⟨hP, rfl⟩ := (h d).mp ho
    obtain ⟨hQ, hcb⟩ := (hf c).mp hc
    exact ⟨⟨hP, hQ⟩, hcb⟩
  · rintro ⟨⟨hP, hQ⟩, hcb⟩
    exact ⟨a, h.eq_some hP, (hf c).mpr ⟨hQ, hcb⟩⟩

theorem map (h : SomeIf o P a) (f : α → β) : SomeIf (o.map f) P (f a) := by
  have hbind : SomeIf (o.bind (some ∘ f)) (P ∧ True) (f a) := h.bind (.of_some trivial)
  rwa [and_true, ← Option.map_eq_bind] at hbind

end SomeIf

namespace Cbor

/-- An item in the fewest bytes, with the entries of maps in the order they have. -/
def Item.write : Item → Bytes
  | .unsigned n => Write.head .unsigned n
  | .negative n => Write.head .negative n
  | .bytes b => Write.head .bytes b.length ++ b
  | .text cs => Write.str cs.flatten
  | .array is => Write.array (is.map write)
  | .map es => Write.head .map es.length ++ es.flatMap fun e => e.1.write ++ e.2.write
  | .tag n i => Write.head .tag n ++ i.write
  | .simple n => Write.head .other n
  | .float x => Write.float x
decreasing_by
  all_goals try have := List.sizeOf_lt_of_mem ‹_›
  all_goals try cases ‹Item × Item›
  all_goals simp_all
  all_goals omega

/-- Items of the kinds that are written, with numbers and lengths that fit a word, at most `size`
elements in an array or a map, and at most `room` levels of these. -/
inductive Item.Within (size : Nat) : (room : Nat) → Item → Prop
  | unsigned {room n : Nat} : n < 2 ^ 64 → Within size room (.unsigned n)
  | negative {room n : Nat} : n < 2 ^ 64 → Within size room (.negative n)
  | text {room : Nat} {b : Bytes} : b.length < 2 ^ 64 → Within size room (.text [b])
  | simple {room n : Nat} : n < 24 → Within size room (.simple n)
  | float {room : Nat} (x : Float) : Within size room (.float x)
  | array {room : Nat} {is : List Item} : is.length ≤ size →
      (∀ i ∈ is, Within size room i) → Within size (room + 1) (.array is)
  | map {room : Nat} {es : List (Item × Item)} : es.length ≤ size →
      (∀ e ∈ es, Within size room e.1) → (∀ e ∈ es, Within size room e.2) →
      Within size (room + 1) (.map es)

namespace Read

variable {r : Bytes} {n info fuel room size : Nat} {major : Major} {x : Float}

theorem length_bigEndian (w n : Nat) : (Write.bigEndian w n).length = w := by
  induction w generalizing n with
  | zero => rfl
  | succ w ih => simp [Write.bigEndian, ih]

theorem bigEndian_bigEndian (w n : Nat) : bigEndian (Write.bigEndian w n) = n % 256 ^ w := by
  induction w generalizing n with
  | zero => simp [Write.bigEndian, bigEndian, Nat.mod_one]
  | succ w ih =>
    have hlast (b : Bytes) (x : UInt8) : bigEndian (b ++ [x]) = 256 * bigEndian b + x.toNat := by
      simp [bigEndian]
    have hbyte : (UInt8.ofNat (n % 256)).toNat = n % 256 :=
      UInt8.toNat_ofNat_of_lt (Nat.mod_lt n (by decide))
    rw [Write.bigEndian, hlast, ih, hbyte, Nat.pow_succ', Nat.mod_mul]
    exact Nat.add_comm ..

theorem split?_append (b r : Bytes) : split? b.length (b ++ r) = some (b, r) := by
  simp [split?]

theorem ofByte_code (hinfo : info < 32) :
    Major.ofByte (UInt8.ofNat (32 * major.code + info)) = major ∧
      (UInt8.ofNat (32 * major.code + info)).toNat % 32 = info := by
  have hcode : major.code < 8 := by cases major <;> decide
  have hnat : (UInt8.ofNat (32 * major.code + info)).toNat = 32 * major.code + info :=
    UInt8.toNat_ofNat_of_lt (by change _ < 256; omega)
  have hdiv : (32 * major.code + info) / 32 = major.code := by omega
  unfold Major.ofByte
  rw [hnat, hdiv]
  constructor
  · cases major <;> rfl
  · omega

theorem head?_short (hinfo : info < 24) :
    head? (UInt8.ofNat (32 * major.code + info) :: r) = some (⟨major, info, .number info⟩, r) := by
  obtain ⟨hmajor, hmod⟩ := @ofByte_code info major (by omega)
  simp only [head?, hmajor, hmod, if_pos hinfo]

theorem head?_wide (hlow : 24 ≤ info) (hhigh : info < 28) (hn : n < 256 ^ (1 <<< (info - 24))) :
    head? (UInt8.ofNat (32 * major.code + info) :: (Write.bigEndian (1 <<< (info - 24)) n ++ r)) =
      some (⟨major, info, .number n⟩, r) := by
  obtain ⟨hmajor, hmod⟩ := @ofByte_code info major (by omega)
  have hsplit := split?_append (Write.bigEndian (1 <<< (info - 24)) n) r
  rw [length_bigEndian] at hsplit
  have hshort : ¬ info < 24 := by omega
  simp only [head?, hmajor, hmod, if_neg hshort, if_pos hhigh, hsplit]
  change some _ = _
  rw [bigEndian_bigEndian, Nat.mod_eq_of_lt hn]

/-- A head is read back with its argument, however many bytes that takes. -/
theorem head?_head (major : Major) (hn : n < 2 ^ 64) (r : Bytes) : ∃ info, (n < 24 → info = n) ∧
    head? (Write.head major n ++ r) = some (⟨major, info, .number n⟩, r) := by
  unfold Write.head
  dsimp only
  split
  · rename_i hshort
    exact ⟨n, fun _ => rfl, head?_short hshort⟩
  · rename_i hlong
    have hwide (info : Nat) (hlow : 24 ≤ info) (hhigh : info < 28)
        (hlt : n < 256 ^ (1 <<< (info - 24))) : ∃ info', (n < 24 → info' = n) ∧
        head? (UInt8.ofNat (32 * major.code + info) :: Write.bigEndian (1 <<< (info - 24)) n ++ r) =
          some (⟨major, info', .number n⟩, r) :=
      ⟨info, fun h => absurd h hlong, head?_wide hlow hhigh hlt⟩
    split
    · exact hwide 24 (by decide) (by decide) ‹_›
    · split
      · exact hwide 25 (by decide) (by decide) ‹_›
      · split
        · exact hwide 26 (by decide) (by decide) ‹_›
        · exact hwide 27 (by decide) (by decide) hn

theorem item?_wide_float {bits : Nat} (hlow : 24 ≤ info) (hhigh : info < 28)
    (hbits : bits < 256 ^ (1 <<< (info - 24)))
    (hx : other? ⟨.other, info, .number bits⟩ = some (.float x)) :
    item? (fuel + 1) room (UInt8.ofNat (32 * Major.other.code + info) ::
      (Write.bigEndian (1 <<< (info - 24)) bits ++ r)) = some (.float x, r) := by
  rw [item?, head?_wide hlow hhigh hbits]
  change (other? ⟨.other, info, .number bits⟩).map _ = _
  rw [hx]
  rfl

/-- Floats are read back exactly, whichever format they are written in. -/
theorem item?_float (x : Float) (r : Bytes) :
    item? (fuel + 1) room (Write.float x ++ r) = some (.float x, r) := by
  unfold Write.float
  split
  · rename_i hx
    obtain rfl := Binary64.eq_nan hx
    exact @item?_wide_float r 25 _ _ _ 0x7E00 (by decide) (by decide) (by decide) rfl
  · rename_i negative hx
    obtain rfl := Binary64.eq_infinity hx
    refine @item?_wide_float r 25 _ _ _ _ (by decide) (by decide) ?_ ?_
    · have hsign : half.sign negative ≤ 32768 := by cases negative <;> decide
      have htop : half.topField <<< 10 = 31744 := by decide
      change _ < 65536
      omega
    · have hwiden : half.widen (half.sign negative + (half.topField <<< 10)) =
          Binary64.infinity negative := by cases negative <;> decide
      exact congrArg (fun y => some (Item.float y)) hwiden
  · rename_i negative m e hx
    cases hhalf : half.bitsOf? negative m e with
    | some bits =>
      obtain ⟨hwiden, hlt⟩ := FloatFormat.widen_bitsOf? (by decide) (by decide) hx hhalf
      exact @item?_wide_float r 25 _ _ _ bits (by decide) (by decide) hlt
        (congrArg (fun y => some (Item.float y)) hwiden)
    | none =>
      cases hsingle : single.bitsOf? negative m e with
      | some bits =>
        obtain ⟨hwiden, hlt⟩ := FloatFormat.widen_bitsOf? (by decide) (by decide) hx hsingle
        exact @item?_wide_float r 26 _ _ _ bits (by decide) (by decide) hlt
          (congrArg (fun y => some (Item.float y)) hwiden)
      | none =>
        have hbits : other? ⟨.other, 27, .number x.toBits.toNat⟩ = some (.float x) := by
          change some (Item.float (Float.ofBits (UInt64.ofNat x.toBits.toNat))) = _
          rw [UInt64.ofNat_toNat, Binary64.ofBits_toBits]
        exact @item?_wide_float r 27 _ _ _ _ (by decide) (by decide) x.toBits.toNat_lt hbits

theorem item?_unsigned (hn : n < 2 ^ 64) (r : Bytes) :
    item? (fuel + 1) room (Write.head .unsigned n ++ r) = some (.unsigned n, r) := by
  obtain ⟨info, -, hhead⟩ := head?_head .unsigned hn r
  rw [item?, hhead]
  rfl

theorem item?_negative (hn : n < 2 ^ 64) (r : Bytes) :
    item? (fuel + 1) room (Write.head .negative n ++ r) = some (.negative n, r) := by
  obtain ⟨info, -, hhead⟩ := head?_head .negative hn r
  rw [item?, hhead]
  rfl

/-- A simple value below 24 has no bytes behind its head that could be those of a float. -/
theorem item?_simple (hn : n < 24) (r : Bytes) :
    item? (fuel + 1) room (Write.head .other n ++ r) = some (.simple n, r) := by
  obtain ⟨info, hinfo, hhead⟩ := @head?_head n .other (by omega) r
  obtain rfl := hinfo hn
  rw [item?, hhead]
  change (other? ⟨.other, info, .number info⟩).map _ = _
  simp only [other?]
  repeat rw [if_neg (by omega)]
  rfl

theorem item?_text {b : Bytes} (hb : b.length < 2 ^ 64) (r : Bytes) :
    item? (fuel + 1) room (Write.str b ++ r) = some (.text [b], r) := by
  obtain ⟨info, -, hhead⟩ := head?_head .text hb (b ++ r)
  rw [Write.str, List.append_assoc, item?, hhead]
  change ((split? b.length (b ++ r)).map _).map _ = _
  rw [split?_append]
  rfl

/-- The bytes `b`, with anything behind them, are read as `a` if `P` holds, and not at all if it
does not. -/
def ReadsIf {α : Type} (read? : Bytes → Option (α × Bytes)) (b : Bytes) (P : Prop) (a : α) : Prop :=
  ∀ r, SomeIf (read? (b ++ r)) P (a, r)

section ReadsIf

variable {α : Type} {read? : Bytes → Option (α × Bytes)} {f : α → Bytes} {as : List α}
  {P : α → Prop}

theorem ReadsIf.of_always {b : Bytes} {a : α} {Q : Prop} (hQ : Q)
    (h : ∀ r, read? (b ++ r) = some (a, r)) : ReadsIf read? b Q a := by
  intro r
  rw [h]
  exact .of_some hQ

/-- One thing after the other; one that cannot be read is enough to give up. -/
theorem readsIf_times (h : ∀ a ∈ as, ReadsIf read? (f a) (P a) a) (acc : Array α) (r : Bytes) :
    SomeIf (times read? as.length acc (as.flatMap f ++ r)) (∀ a ∈ as, P a)
      (acc.toList ++ as, r) := by
  induction as generalizing acc with
  | nil =>
    rw [List.append_nil]
    exact .of_some (by simp)
  | cons a as ih =>
    have hrest := ih (fun b hb => h b (List.mem_cons_of_mem a hb)) (acc.push a)
    rw [Array.toList_push, List.append_assoc, List.singleton_append] at hrest
    rw [List.flatMap_cons, List.append_assoc, List.forall_mem_cons]
    exact (h a List.mem_cons_self _).bind hrest

/-- As many things as a head says, within the limit. -/
def counted (read? : Bytes → Option (α × Bytes)) (n : Nat) (s : Bytes) : Option (List α × Bytes) :=
  if n ≤ maxSize then times read? n #[] s else none

theorem readsIf_counted (h : ∀ a ∈ as, ReadsIf read? (f a) (P a) a) :
    ReadsIf (counted read? as.length) (as.flatMap f) (as.length ≤ maxSize ∧ ∀ a ∈ as, P a) as := by
  intro r
  rw [counted]
  split
  · rename_i hlen
    rw [and_iff_right hlen]
    exact readsIf_times h #[] r
  · rename_i hlen
    exact .of_none fun hin => hlen hin.1

end ReadsIf

/-- A key and a value. -/
def pair? (read? : Bytes → Option (Item × Bytes)) (s : Bytes) : Option ((Item × Item) × Bytes) := do
  let (k, s) ← read? s
  let (v, s) ← read? s
  some ((k, v), s)

theorem readsIf_pair {read? : Bytes → Option (Item × Bytes)} {b b' : Bytes} {e : Item × Item}
    {P Q : Prop} (hk : ReadsIf read? b P e.1) (hv : ReadsIf read? b' Q e.2) :
    ReadsIf (pair? read?) (b ++ b') (P ∧ Q) e := by
  intro r
  have hpair : SomeIf (pair? read? (b ++ (b' ++ r))) (P ∧ Q ∧ True) (e, r) :=
    (hk _).bind ((hv r).bind (.of_some trivial))
  rwa [and_true, ← List.append_assoc] at hpair

theorem item?_array (hn : n < 2 ^ 64) (s : Bytes) :
    item? (fuel + 1) (room + 1) (Write.head .array n ++ s) =
      (counted (item? fuel room) n s).map fun (is, s) => (.array is, s) := by
  obtain ⟨info, -, hhead⟩ := head?_head .array hn s
  rw [item?, hhead]
  rfl

theorem item?_map (hn : n < 2 ^ 64) (s : Bytes) :
    item? (fuel + 1) (room + 1) (Write.head .map n ++ s) =
      (counted (pair? (item? fuel room)) n s).map fun (es, s) => (.map es, s) := by
  obtain ⟨info, -, hhead⟩ := head?_head .map hn s
  rw [item?, hhead]
  rfl

/-- Nothing that holds other items is read without room for a level. -/
theorem item?_no_room (hmajor : major = .array ∨ major = .map) (hn : n < 2 ^ 64) (fuel : Nat)
    (s : Bytes) : item? fuel 0 (Write.head major n ++ s) = none := by
  cases fuel with
  | zero => rfl
  | succ fuel =>
    obtain ⟨info, -, hhead⟩ := head?_head major hn s
    rw [item?, hhead]
    rcases hmajor with rfl | rfl <;> rfl

end Read

variable {i j : Item} {r r' : Bytes} {n room size : Nat}

theorem Item.write_array (is : List Item) :
    (Item.array is).write = Write.head .array is.length ++ is.flatMap Item.write := by
  rw [write, Write.array, List.length_map, List.flatMap_def]

theorem length_le_flatMap {α : Type} {f : α → Bytes} {as : List α} {a : α} (h : a ∈ as) :
    (f a).length ≤ (as.flatMap f).length := by
  obtain ⟨before, behind, rfl⟩ := List.append_of_mem h
  simp only [List.flatMap_append, List.flatMap_cons, List.length_append]
  omega

theorem length_head_pos (major : Major) (n : Nat) : 0 < (Write.head major n).length := by
  unfold Write.head
  dsimp only
  repeat' split
  all_goals simp

theorem length_float_pos (x : Float) : 0 < (Write.float x).length := by
  unfold Write.float
  repeat' split
  all_goals simp

theorem length_write_pos (i : Item) : 0 < i.write.length := by
  have hhead {major : Major} {n : Nat} (b : Bytes) : 0 < (Write.head major n ++ b).length :=
    List.length_append ▸ Nat.add_pos_left (length_head_pos major n) b.length
  cases i with
  | unsigned n => simpa only [Item.write] using length_head_pos .unsigned n
  | negative n => simpa only [Item.write] using length_head_pos .negative n
  | bytes b => simpa only [Item.write] using hhead b
  | text cs => simpa only [Item.write, Write.str] using hhead cs.flatten
  | array is => simpa only [Item.write_array] using hhead _
  | map es => simpa only [Item.write] using hhead _
  | tag n i => simpa only [Item.write] using hhead i.write
  | simple n => simpa only [Item.write] using length_head_pos .other n
  | float x => simpa only [Item.write] using length_float_pos x

/-- Every item uses up a unit of fuel. -/
theorem exists_fuel {fuel : Nat} (h : i.write.length ≤ fuel) : ∃ f, fuel = f + 1 :=
  Nat.exists_eq_add_one.mpr (Nat.lt_of_lt_of_le (length_write_pos i) h)

theorem length_lt_array {is : List Item} (h : i ∈ is) :
    i.write.length < (Item.array is).write.length := by
  have hbody := length_le_flatMap (f := Item.write) h
  have hhead := length_head_pos .array is.length
  rw [Item.write_array, List.length_append]
  omega

theorem length_lt_map {es : List (Item × Item)} {e : Item × Item} (h : e ∈ es) :
    e.1.write.length + e.2.write.length < (Item.map es).write.length := by
  have hbody := length_le_flatMap (f := fun e : Item × Item => e.1.write ++ e.2.write) h
  have hhead := length_head_pos .map es.length
  rw [List.length_append] at hbody
  rw [Item.write, List.length_append]
  omega

theorem within_array_iff {is : List Item} : (Item.array is).Within size (room + 1) ↔
    is.length ≤ size ∧ ∀ i ∈ is, i.Within size room := by
  constructor
  · rintro ⟨⟩
    exact ⟨‹_›, ‹_›⟩
  · rintro ⟨hlen, his⟩
    exact .array hlen his

theorem within_map_iff {es : List (Item × Item)} : (Item.map es).Within size (room + 1) ↔
    es.length ≤ size ∧ ∀ e ∈ es, e.1.Within size room ∧ e.2.Within size room := by
  constructor
  · rintro (_ | _ | _ | _ | _ | _ | ⟨hlen, hks, hvs⟩)
    exact ⟨hlen, fun e he => ⟨hks e he, hvs e he⟩⟩
  · rintro ⟨hlen, hes⟩
    exact .map hlen (fun e he => (hes e he).1) fun e he => (hes e he).2

/-- An array is read if all its elements are with one level less, and there is room for a level. -/
theorem readsIf_array {fuel : Nat} {is : List Item} (hword : is.length < 2 ^ 64)
    (his : ∀ room, ∀ i ∈ is,
      Read.ReadsIf (Read.item? fuel room) i.write (i.Within Read.maxSize room) i) (room : Nat) :
    Read.ReadsIf (Read.item? (fuel + 1) room) (Item.array is).write
      ((Item.array is).Within Read.maxSize room) (.array is) := by
  intro r
  rw [Item.write_array, List.append_assoc]
  cases room with
  | zero =>
    rw [Read.item?_no_room (Or.inl rfl) hword]
    exact .of_none nofun
  | succ room =>
    rw [Read.item?_array hword, within_array_iff]
    exact (Read.readsIf_counted (his room) r).map _

/-- A map is read if all its keys and values are with one level less, and there is room for a
level. -/
theorem readsIf_map {fuel : Nat} {es : List (Item × Item)} (hword : es.length < 2 ^ 64)
    (hks : ∀ room, ∀ e ∈ es,
      Read.ReadsIf (Read.item? fuel room) e.1.write (e.1.Within Read.maxSize room) e.1)
    (hvs : ∀ room, ∀ e ∈ es,
      Read.ReadsIf (Read.item? fuel room) e.2.write (e.2.Within Read.maxSize room) e.2)
    (room : Nat) :
    Read.ReadsIf (Read.item? (fuel + 1) room) (Item.map es).write
      ((Item.map es).Within Read.maxSize room) (.map es) := by
  intro r
  rw [Item.write, List.append_assoc]
  cases room with
  | zero =>
    rw [Read.item?_no_room (Or.inr rfl) hword]
    exact .of_none nofun
  | succ room =>
    have hentries := Read.readsIf_counted fun e he =>
      Read.readsIf_pair (hks room e he) (hvs room e he)
    rw [Read.item?_map hword, within_map_iff]
    exact (hentries r).map _

/-- What is written of an item is read back as that item within the limits of the reader, and not at
all beyond them. -/
theorem readsIf_write {k fuel : Nat} (hsize : size < 2 ^ 64) (h : i.Within size k)
    (hfuel : i.write.length ≤ fuel) (room : Nat) :
    Read.ReadsIf (Read.item? fuel room) i.write (i.Within Read.maxSize room) i := by
  induction h generalizing room fuel with
  | unsigned hn =>
    obtain ⟨f, rfl⟩ := exists_fuel hfuel
    rw [Item.write]
    exact .of_always (.unsigned hn) (Read.item?_unsigned hn)
  | negative hn =>
    obtain ⟨f, rfl⟩ := exists_fuel hfuel
    rw [Item.write]
    exact .of_always (.negative hn) (Read.item?_negative hn)
  | simple hn =>
    obtain ⟨f, rfl⟩ := exists_fuel hfuel
    rw [Item.write]
    exact .of_always (.simple hn) (Read.item?_simple hn)
  | text hb =>
    obtain ⟨f, rfl⟩ := exists_fuel hfuel
    rw [Item.write, List.flatten_singleton]
    exact .of_always (.text hb) (Read.item?_text hb)
  | float x =>
    obtain ⟨f, rfl⟩ := exists_fuel hfuel
    rw [Item.write]
    exact .of_always (.float x) (Read.item?_float x)
  | array hlen _ ih =>
    obtain ⟨f, rfl⟩ := exists_fuel hfuel
    refine readsIf_array (by omega) (fun room i hi => ih i hi ?_ room) room
    have := length_lt_array hi
    omega
  | map hlen _ _ ihk ihv =>
    obtain ⟨f, rfl⟩ := exists_fuel hfuel
    refine readsIf_map (by omega) (fun room e he => ihk e he ?_ room)
      (fun room e he => ihv e he ?_ room) room
    all_goals
      have := length_lt_map he
      omega

/-- The whole of what is written of an item. -/
theorem read?_write {k : Nat} (hsize : size < 2 ^ 64) (h : i.Within size k) :
    SomeIf (read? i.write) (i.Within Read.maxSize Read.maxDepth) i := by
  have hread := readsIf_write hsize h (Nat.le_refl _) Read.maxDepth []
  rw [List.append_nil] at hread
  intro j
  unfold read?
  constructor
  · intro hsome
    split at hsome
    · rename_i hitem
      cases hsome
      obtain ⟨hin, heq⟩ := (hread _).mp hitem
      cases heq
      exact ⟨hin, rfl⟩
    · cases hsome
  · rintro ⟨hin, rfl⟩
    rw [hread.eq_some hin]

theorem head_append_inj {major major' : Major} {n' : Nat} (hn : n < 2 ^ 64) (hn' : n' < 2 ^ 64)
    (h : Write.head major n ++ r = Write.head major' n' ++ r') :
    major = major' ∧ n = n' ∧ r = r' := by
  obtain ⟨info, -, hhead⟩ := Read.head?_head major hn r
  obtain ⟨info', -, hhead'⟩ := Read.head?_head major' hn' r'
  rw [h, hhead'] at hhead
  cases hhead
  exact ⟨rfl, rfl, rfl⟩

/-- Lists of equal length are written alike only if they are equal, if that holds of each element
with anything behind it. -/
theorem flatMap_append_inj {α : Type} {f : α → Bytes} {as bs : List α}
    (hlen : as.length = bs.length)
    (hf : ∀ a ∈ as, ∀ b ∈ bs, ∀ r r', f a ++ r = f b ++ r' → a = b ∧ r = r')
    (h : as.flatMap f ++ r = bs.flatMap f ++ r') : as = bs ∧ r = r' := by
  induction as generalizing bs with
  | nil =>
    cases bs with
    | nil => exact ⟨rfl, h⟩
    | cons b bs => cases hlen
  | cons a as ih =>
    cases bs with
    | nil => cases hlen
    | cons b bs =>
      rw [List.flatMap_cons, List.flatMap_cons, List.append_assoc, List.append_assoc] at h
      obtain ⟨rfl, hrest⟩ := hf a List.mem_cons_self b List.mem_cons_self _ _ h
      obtain ⟨rfl, hr⟩ := ih (Nat.succ.inj hlen)
        (fun c hc d hd => hf c (List.mem_cons_of_mem a hc) d (List.mem_cons_of_mem a hd)) hrest
      exact ⟨rfl, hr⟩

theorem Item.Within.flat (h : i.Within size 0) : i.Within Read.maxSize 0 := by
  cases h with
  | unsigned hn => exact .unsigned hn
  | negative hn => exact .negative hn
  | text hb => exact .text hb
  | simple hn => exact .simple hn
  | float x => exact .float x

theorem Item.Within.flat_or (h : i.Within size room) : i.Within size 0 ∨
    (∃ is k, i = .array is ∧ is.length ≤ size ∧ ∀ j ∈ is, j.Within size k) ∨
    ∃ es k, i = .map es ∧ es.length ≤ size ∧ ∀ e ∈ es, e.1.Within size k ∧ e.2.Within size k := by
  cases h with
  | unsigned hn => exact Or.inl (.unsigned hn)
  | negative hn => exact Or.inl (.negative hn)
  | text hb => exact Or.inl (.text hb)
  | simple hn => exact Or.inl (.simple hn)
  | float x => exact Or.inl (.float x)
  | array hlen his => exact Or.inr (Or.inl ⟨_, _, rfl, hlen, his⟩)
  | map hlen hks hvs =>
    exact Or.inr (Or.inr ⟨_, _, rfl, hlen, fun e he => ⟨hks e he, hvs e he⟩⟩)

section Injective

variable (hsize : size < 2 ^ 64)
include hsize

/-- An item that holds no others is told apart from every other one by reading it. -/
theorem write_inj_of_flat (hi : i.Within size 0) (hj : j.Within size room)
    (h : i.write ++ r = j.write ++ r') : i = j ∧ r = r' := by
  have hread := (readsIf_write hsize hi (Nat.le_add_right _ j.write.length) 0 r).eq_some hi.flat
  rw [h] at hread
  rcases hj.flat_or with hj | ⟨is, k, rfl, hlen, -⟩ | ⟨es, k, rfl, hlen, -⟩
  · obtain ⟨-, heq⟩ := (readsIf_write hsize hj (Nat.le_add_left _ i.write.length) 0 r' _).mp hread
    cases heq
    exact ⟨rfl, rfl⟩
  · rw [Item.write_array, List.append_assoc, Read.item?_no_room (Or.inl rfl) (by omega)] at hread
    cases hread
  · rw [Item.write, List.append_assoc, Read.item?_no_room (Or.inr rfl) (by omega)] at hread
    cases hread

/-- What is written of items is a prefix code. -/
theorem write_append_inj {room' : Nat} (hi : i.Within size room) (hj : j.Within size room')
    (h : i.write ++ r = j.write ++ r') : i = j ∧ r = r' := by
  induction hi generalizing j r r' room' with
  | unsigned hn => exact write_inj_of_flat hsize (.unsigned hn) hj h
  | negative hn => exact write_inj_of_flat hsize (.negative hn) hj h
  | text hb => exact write_inj_of_flat hsize (.text hb) hj h
  | simple hn => exact write_inj_of_flat hsize (.simple hn) hj h
  | float x => exact write_inj_of_flat hsize (.float x) hj h
  | @array _ is hlen his ih =>
    rcases hj.flat_or with hj | ⟨js, k, rfl, hlen', hjs⟩ | ⟨es, k, rfl, hlen', -⟩
    · obtain ⟨heq, hr⟩ := write_inj_of_flat hsize hj (.array hlen his) h.symm
      exact ⟨heq.symm, hr.symm⟩
    · rw [Item.write_array, Item.write_array, List.append_assoc, List.append_assoc] at h
      obtain ⟨-, hcount, hbody⟩ := head_append_inj (by omega) (by omega) h
      obtain ⟨rfl, hr⟩ := flatMap_append_inj hcount
        (fun i hi j hj r r' h => ih i hi (hjs j hj) h) hbody
      exact ⟨rfl, hr⟩
    · rw [Item.write_array, Item.write, List.append_assoc, List.append_assoc] at h
      obtain ⟨hmajor, -⟩ := head_append_inj (by omega) (by omega) h
      cases hmajor
  | @map _ es hlen hks hvs ihk ihv =>
    rcases hj.flat_or with hj | ⟨js, k, rfl, hlen', -⟩ | ⟨es', k, rfl, hlen', hes⟩
    · obtain ⟨heq, hr⟩ := write_inj_of_flat hsize hj (.map hlen hks hvs) h.symm
      exact ⟨heq.symm, hr.symm⟩
    · rw [Item.write_array, Item.write, List.append_assoc, List.append_assoc] at h
      obtain ⟨hmajor, -⟩ := head_append_inj (by omega) (by omega) h
      cases hmajor
    · rw [Item.write, Item.write, List.append_assoc, List.append_assoc] at h
      obtain ⟨-, hcount, hbody⟩ := head_append_inj (by omega) (by omega) h
      obtain ⟨rfl, hr⟩ := flatMap_append_inj hcount (fun e he e' he' r r' h => by
        rw [List.append_assoc, List.append_assoc] at h
        obtain ⟨hkey, hrest⟩ := ihk e he (hes e' he').1 h
        obtain ⟨hvalue, hr⟩ := ihv e he (hes e' he').2 hrest
        exact ⟨Prod.ext hkey hvalue, hr⟩) hbody
      exact ⟨rfl, hr⟩

theorem write_inj {room' : Nat} (hi : i.Within size room) (hj : j.Within size room')
    (h : i.write = j.write) : i = j :=
  (write_append_inj hsize hi hj (congrArg (· ++ []) h)).1

end Injective
end Cbor
end LineMachine
