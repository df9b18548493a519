import Mathlib.Algebra.Order.Field.Rat
import Mathlib.Data.List.TakeWhile
import Mathlib.Data.Nat.Digits.Lemmas
import Mathlib.Tactic.Ring
import Mathlib.Tactic.NormNum

/-! # Decimal texts and their values

The digits of a natural number, and the rational that a text with an optional
sign, fraction and exponent stands for. The reader takes any such text; which
texts a writer produces is the writer's matter.
-/

namespace SwarmCloud.Lib

def digitChar (d : Nat) : Char := Char.ofNat (48 + d)

def digitValue (c : Char) : Nat := c.toNat - 48

theorem digitChar_spec : ∀ d < 10, (digitChar d).isDigit = true ∧ digitValue (digitChar d) = d := by
  decide

def digitsOf (n : Nat) : List Char :=
  if n = 0 then ['0'] else ((Nat.digits 10 n).map digitChar).reverse

def ofDigits (text : List Char) : Nat := text.foldl (fun n c => 10 * n + digitValue c) 0

theorem ofDigits_append (a b : List Char) :
    ofDigits (a ++ b) = ofDigits a * 10 ^ b.length + ofDigits b := by
  induction b using List.reverseRecOn with
  | nil => simp [ofDigits]
  | append_singleton b c ih =>
    rw [← List.append_assoc]
    have hsnoc : ∀ l, ofDigits (l ++ [c]) = 10 * ofDigits l + digitValue c := by
      intro l
      simp [ofDigits]
    rw [hsnoc, hsnoc, ih, List.length_append, List.length_singleton, pow_succ]
    ring

@[simp] theorem ofDigits_zeros (n : Nat) : ofDigits (List.replicate n '0') = 0 := by
  induction n with
  | zero => rfl
  | succ n ih =>
    rw [List.replicate_succ', ofDigits_append, ih]
    decide

theorem ofDigits_digitsOf (n : Nat) : ofDigits (digitsOf n) = n := by
  unfold digitsOf
  split
  · rename_i h
    rw [h]
    decide
  · have hread : ∀ ds : List Nat, (∀ d ∈ ds, d < 10) →
        ofDigits ((ds.map digitChar).reverse) = Nat.ofDigits 10 ds := by
      intro ds hds
      induction ds with
      | nil => rfl
      | cons d ds ih =>
        have hd := (digitChar_spec d (hds d List.mem_cons_self)).2
        rw [List.map_cons, List.reverse_cons, ofDigits_append,
          ih fun d' hd' => hds d' (List.mem_cons_of_mem _ hd'), Nat.ofDigits_cons]
        simp [ofDigits, hd]
        ring
    rw [hread _ fun d hd => Nat.digits_lt_base (by decide) hd, Nat.ofDigits_digits]

theorem isDigit_of_mem_digitsOf {n : Nat} {c : Char} (h : c ∈ digitsOf n) : c.isDigit = true := by
  unfold digitsOf at h
  split at h
  · obtain rfl := List.mem_singleton.mp h
    decide
  · rw [List.mem_reverse, List.mem_map] at h
    obtain ⟨d, hd, rfl⟩ := h
    exact (digitChar_spec d (Nat.digits_lt_base (by decide) hd)).1

theorem digitsOf_ne_nil (n : Nat) : digitsOf n ≠ [] := by
  unfold digitsOf
  split
  · exact List.cons_ne_nil _ _
  · rename_i h
    simpa using Nat.digits_ne_nil_iff_ne_zero.mpr h

/-- The text before the first `c`, and the text after it. -/
def before (c : Char) (text : List Char) : List Char := text.takeWhile (· != c)
def after (c : Char) (text : List Char) : List Char := (text.dropWhile (· != c)).tail

def exponentValue : List Char → Int
  | '-' :: digits => -(ofDigits digits : Int)
  | '+' :: digits => (ofDigits digits : Int)
  | digits => (ofDigits digits : Int)

def mantissaValue (text : List Char) : ℚ :=
  (ofDigits (before '.' text ++ after '.' text) : ℚ) / 10 ^ (after '.' text).length

def unsignedValue (text : List Char) : ℚ :=
  mantissaValue (before 'e' text) * 10 ^ exponentValue (after 'e' text)

def numberValue : List Char → ℚ
  | '-' :: text => -unsignedValue text
  | text => unsignedValue text

section Split

variable {c : Char} {a b : List Char}

theorem before_append (h : c ∉ a) : before c (a ++ c :: b) = a := by
  unfold before
  rw [List.takeWhile_append_of_pos fun x hx => by simpa using ne_of_mem_of_not_mem hx h]
  simp

theorem after_append (h : c ∉ a) : after c (a ++ c :: b) = b := by
  unfold after
  rw [List.dropWhile_append_of_pos fun x hx => by simpa using ne_of_mem_of_not_mem hx h]
  simp

theorem before_of_notMem (h : c ∉ a) : before c a = a :=
  List.takeWhile_eq_self_iff.mpr fun x hx => by simpa using ne_of_mem_of_not_mem hx h

theorem after_of_notMem (h : c ∉ a) : after c a = [] := by
  unfold after
  rw [List.dropWhile_eq_nil_iff.mpr fun x hx => by simpa using ne_of_mem_of_not_mem hx h]
  rfl

end Split

def AllDigits (text : List Char) : Prop := ∀ c ∈ text, c.isDigit = true

theorem AllDigits.notMem {text : List Char} {c : Char} (h : AllDigits text)
    (hc : c.isDigit = false) : c ∉ text := by
  intro hmem
  rw [h c hmem] at hc
  exact absurd hc (by decide)

theorem AllDigits.append {a b : List Char} (ha : AllDigits a) (hb : AllDigits b) :
    AllDigits (a ++ b) := by
  intro c hc
  obtain hc | hc := List.mem_append.mp hc
  · exact ha c hc
  · exact hb c hc

theorem allDigits_zeros (n : Nat) : AllDigits (List.replicate n '0') := by
  intro c hc
  rw [List.eq_of_mem_replicate hc]
  decide

section Values

variable {whole fraction mantissa : List Char}

theorem mantissaValue_whole (h : AllDigits whole) : mantissaValue whole = (ofDigits whole : ℚ) := by
  have hpoint : '.' ∉ whole := h.notMem (by decide)
  rw [mantissaValue, before_of_notMem hpoint, after_of_notMem hpoint]
  simp

theorem mantissaValue_point (hw : AllDigits whole) :
    mantissaValue (whole ++ '.' :: fraction) =
      (ofDigits (whole ++ fraction) : ℚ) / 10 ^ fraction.length := by
  have hpoint : '.' ∉ whole := hw.notMem (by decide)
  rw [mantissaValue, before_append hpoint, after_append hpoint]

theorem unsignedValue_mantissa (h : 'e' ∉ mantissa) :
    unsignedValue mantissa = mantissaValue mantissa := by
  rw [unsignedValue, before_of_notMem h, after_of_notMem h]
  simp [exponentValue, ofDigits]

theorem unsignedValue_exponent (h : 'e' ∉ mantissa) (text : List Char) :
    unsignedValue (mantissa ++ 'e' :: text) = mantissaValue mantissa * 10 ^ exponentValue text := by
  rw [unsignedValue, before_append h, after_append h]

theorem unsignedValue_whole (h : AllDigits whole) : unsignedValue whole = (ofDigits whole : ℚ) := by
  rw [unsignedValue_mantissa (h.notMem (by decide)), mantissaValue_whole h]

theorem unsignedValue_point (hw : AllDigits whole) (hf : AllDigits fraction) :
    unsignedValue (whole ++ '.' :: fraction) =
      (ofDigits (whole ++ fraction) : ℚ) / 10 ^ fraction.length := by
  have hnone : 'e' ∉ whole ++ '.' :: fraction := by
    simp [hw.notMem (c := 'e') (by decide), hf.notMem (c := 'e') (by decide)]
  rw [unsignedValue_mantissa hnone, mantissaValue_point hw]

theorem exponentValue_signed (e : Int) :
    exponentValue ((if 0 ≤ e then '+' else '-') :: digitsOf e.natAbs) = e := by
  split
  · rw [exponentValue, ofDigits_digitsOf]
    omega
  · rw [exponentValue, ofDigits_digitsOf]
    omega

theorem numberValue_of_digit {c : Char} (hc : c.isDigit = true) (text : List Char) :
    numberValue (c :: text) = unsignedValue (c :: text) := by
  unfold numberValue
  split
  · rename_i heq
    obtain ⟨rfl, -⟩ := List.cons.inj heq
    cases hc
  · rfl

theorem div_pow_eq_mul_zpow (x : ℚ) {c : Int} {b : Nat} (h : c = -b) :
    x / 10 ^ b = x * 10 ^ c := by
  rw [h, zpow_neg, zpow_natCast, div_eq_mul_inv]

/-- Moving the point by `b` places and scaling by `10 ^ a`. -/
theorem div_pow_mul_zpow (x : ℚ) {a c : Int} {b : Nat} (h : a = b + c) :
    x / 10 ^ b * 10 ^ a = x * 10 ^ c := by
  have hten : (10 : ℚ) ≠ 0 := by norm_num
  rw [h, zpow_add₀ hten, zpow_natCast, ← mul_assoc, div_mul_cancel₀ x (pow_ne_zero b hten)]

end Values

/-! ## The text of an integer -/

theorem natRepr_injective {m n : Nat} (h : m.repr = n.repr) : m = n := by
  have hdigits : Nat.toDigits 10 m = Nat.toDigits 10 n := by
    rw [← Nat.toList_repr, h, Nat.toList_repr]
  rw [← Nat.ofDigitChars_ten_toDigits (n := m), hdigits, Nat.ofDigitChars_ten_toDigits]

theorem natRepr_ne_minus (m n : Nat) : m.repr ≠ "-" ++ n.repr := by
  intro h
  have hdash : '-' ∈ Nat.toDigits 10 m := by
    rw [← Nat.toList_repr, h, String.toList_append]
    exact List.mem_append_left _ (List.mem_singleton_self _)
  exact absurd (Nat.isDigit_of_mem_toDigits (by decide) (by decide) hdash) (by decide)

theorem intToString_injective {a b : Int} (h : toString a = toString b) : a = b := by
  change a.repr = b.repr at h
  rw [Int.repr_eq_if, Int.repr_eq_if] at h
  split at h
  · split at h
    · have := natRepr_injective h
      omega
    · exact absurd h (natRepr_ne_minus _ _)
  · split at h
    · exact absurd h.symm (natRepr_ne_minus _ _)
    · have := natRepr_injective ((String.append_right_inj _).mp h)
      omega

end SwarmCloud.Lib
