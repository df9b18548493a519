import Mathlib.Tactic.NormNum
import SwarmCloud.SpecSign.Encode

/-! # What the encoder writes has one reading

Every text that `encode` writes reads back as the meaning of the value it was
given. So the bytes of `jcs` determine that meaning, for every layout of
numbers and every order in which the members of a map were inserted.
-/

namespace SwarmCloud.SpecSign

open Lib

/-! ## Numbers -/

section Numbers

variable {digits : List Char} (exponent : Int)

theorem mantissa_spec (hd : AllDigits digits) :
    'e' ∉ mantissa digits ∧
      mantissaValue (mantissa digits) = (ofDigits digits : ℚ) / 10 ^ (digits.length - 1) := by
  have htake : AllDigits (digits.take 1) := fun c hc => hd c (List.mem_of_mem_take hc)
  have hdrop : AllDigits (digits.drop 1) := fun c hc => hd c (List.mem_of_mem_drop hc)
  unfold mantissa
  split
  · rename_i hone
    refine ⟨hd.notMem (by decide), ?_⟩
    rw [mantissaValue_whole hd, hone]
    simp
  · constructor
    · simp [htake.notMem (c := 'e') (by decide), hdrop.notMem (c := 'e') (by decide),
        -List.drop_one]
    · rw [mantissaValue_point htake, List.take_append_drop, List.length_drop]

theorem layout_value (hd : AllDigits digits) (hne : digits ≠ []) :
    unsignedValue (layout digits exponent) = (ofDigits digits : ℚ) * 10 ^ exponent := by
  have hk : 0 < digits.length := List.length_pos_of_ne_nil hne
  have htake : ∀ n, AllDigits (digits.take n) := fun n c hc => hd c (List.mem_of_mem_take hc)
  have hdrop : ∀ n, AllDigits (digits.drop n) := fun n c hc => hd c (List.mem_of_mem_drop hc)
  unfold layout
  dsimp only
  split
  · -- zeros up to the point
    have hscale : exponent = ((exponent + digits.length - digits.length).toNat : Int) := by omega
    rw [unsignedValue_whole (hd.append (allDigits_zeros _)), ofDigits_append, ofDigits_zeros,
      List.length_replicate]
    conv_rhs => rw [hscale, zpow_natCast]
    push_cast
    ring
  split
  · -- the point among the digits
    rw [unsignedValue_point (htake _) (hdrop _), List.take_append_drop, List.length_drop]
    exact div_pow_eq_mul_zpow _ (by omega)
  split
  · -- zeros behind the point
    have hfraction := (allDigits_zeros (-(exponent + digits.length)).toNat).append hd
    have hvalue := unsignedValue_point (allDigits_zeros 1) hfraction
    rw [← List.append_assoc, ← List.replicate_add, ofDigits_append, ofDigits_zeros,
      List.length_append, List.length_replicate, Nat.zero_mul, Nat.zero_add] at hvalue
    exact hvalue.trans (div_pow_eq_mul_zpow _ (by omega))
  · -- an exponent
    obtain ⟨hnone, hvalue⟩ := mantissa_spec hd
    have hsplit := unsignedValue_exponent hnone
      ((if 0 ≤ exponent + digits.length - 1 then '+' else '-') ::
        digitsOf (exponent + digits.length - 1).natAbs)
    rw [exponentValue_signed, hvalue] at hsplit
    exact hsplit.trans (div_pow_mul_zpow _ (by omega))

theorem isNumberChar_of_isDigit {c : Char} (h : c.isDigit = true) : isNumberChar c = true := by
  simp [isNumberChar, h]

theorem layout_chars (hd : AllDigits digits) : ∀ c ∈ layout digits exponent, isNumberChar c = true := by
  have hdigit : ∀ c ∈ digits, isNumberChar c = true := fun c hc => isNumberChar_of_isDigit (hd c hc)
  have htake : ∀ n, ∀ c ∈ digits.take n, isNumberChar c = true :=
    fun n c hc => hdigit c (List.mem_of_mem_take hc)
  have hdrop : ∀ n, ∀ c ∈ digits.drop n, isNumberChar c = true :=
    fun n c hc => hdigit c (List.mem_of_mem_drop hc)
  have hzeros : ∀ n, ∀ c ∈ List.replicate n '0', isNumberChar c = true :=
    fun n c hc => isNumberChar_of_isDigit (allDigits_zeros n c hc)
  have hmantissa : ∀ c ∈ mantissa digits, isNumberChar c = true := by
    unfold mantissa
    split
    · exact hdigit
    · rw [List.forall_mem_append, List.forall_mem_cons]
      exact ⟨htake 1, by decide, hdrop 1⟩
  unfold layout
  dsimp only
  repeat' split
  all_goals
    simp only [List.forall_mem_append, List.forall_mem_cons]
  · exact ⟨hdigit, hzeros _⟩
  · exact ⟨htake _, by decide, hdrop _⟩
  · exact ⟨by decide, by decide, hzeros _, hdigit⟩
  · exact ⟨hmantissa, by decide, by decide,
      fun c hc => isNumberChar_of_isDigit (isDigit_of_mem_digitsOf hc)⟩
  · exact ⟨hmantissa, by decide, by decide,
      fun c hc => isNumberChar_of_isDigit (isDigit_of_mem_digitsOf hc)⟩

theorem layout_head (hd : AllDigits digits) (hne : digits ≠ []) :
    ∃ c text, layout digits exponent = c :: text ∧ c.isDigit = true := by
  cases digits with
  | nil => exact absurd rfl hne
  | cons d digits =>
    have hfirst := hd d List.mem_cons_self
    unfold layout mantissa
    dsimp only
    split
    · exact ⟨d, _, rfl, hfirst⟩
    split
    · rename_i hpoint
      obtain ⟨n, hn⟩ := Nat.exists_eq_succ_of_ne_zero
        (show (exponent + (d :: digits).length).toNat ≠ 0 by omega)
      rw [hn]
      exact ⟨d, _, rfl, hfirst⟩
    split
    · exact ⟨'0', _, rfl, by decide⟩
    · split
      · exact ⟨d, _, rfl, hfirst⟩
      · exact ⟨d, _, rfl, hfirst⟩

theorem layout_reads (hd : AllDigits digits) (hne : digits ≠ []) :
    Reads (layout digits exponent) (.num ((ofDigits digits : ℚ) * 10 ^ exponent)) ∧
      Reads ('-' :: layout digits exponent) (.num (-((ofDigits digits : ℚ) * 10 ^ exponent))) := by
  have hvalue := layout_value exponent hd hne
  have hchars := layout_chars exponent hd
  obtain ⟨c, text, hlayout, hc⟩ := layout_head exponent hd hne
  constructor
  · have hread := reads_number (by rw [hlayout]; exact List.cons_ne_nil _ _) hchars
    rwa [hlayout, numberValue_of_digit hc, ← hlayout, hvalue] at hread
  · have hread := reads_number (List.cons_ne_nil '-' (layout digits exponent))
      (List.forall_mem_cons.mpr ⟨by decide, hchars⟩)
    rwa [numberValue, hvalue] at hread

theorem positiveNumber_reads {coefficient : Nat} (hc : coefficient ≠ 0) :
    Reads (positiveNumber coefficient exponent) (.num ((coefficient : ℚ) * 10 ^ exponent)) ∧
      Reads ('-' :: positiveNumber coefficient exponent)
        (.num (-((coefficient : ℚ) * 10 ^ exponent))) := by
  obtain ⟨stripped, hstripped⟩ :
      ∃ stripped, stripped = (digitsOf coefficient).rdropWhile (· == '0') := ⟨_, rfl⟩
  obtain ⟨m, hm⟩ : ∃ m, digitsOf coefficient = stripped ++ List.replicate m '0' := by
    refine ⟨((digitsOf coefficient).rtakeWhile (· == '0')).length, ?_⟩
    rw [hstripped, ← List.eq_replicate_of_mem (a := '0')
      fun c hc => by simpa using List.mem_rtakeWhile_imp hc]
    exact (List.rdropWhile_append_rtakeWhile).symm
  have hvalue : coefficient = ofDigits stripped * 10 ^ m := by
    rw [← ofDigits_digitsOf coefficient, hm, ofDigits_append, ofDigits_zeros, List.length_replicate]
    rfl
  have hne : stripped ≠ [] := by
    rintro rfl
    exact hc (by simpa [ofDigits] using hvalue)
  have hd : AllDigits stripped := by
    intro c hmem
    exact isDigit_of_mem_digitsOf (n := coefficient) (by rw [hm]; exact List.mem_append_left _ hmem)
  have hscale : (ofDigits stripped : ℚ) * 10 ^ (exponent + m) = (coefficient : ℚ) * 10 ^ exponent := by
    rw [zpow_add₀ (by norm_num), zpow_natCast, hvalue]
    push_cast
    ring
  have hlength : ((digitsOf coefficient).length : Int) - stripped.length = m := by
    rw [hm, List.length_append, List.length_replicate]
    omega
  have hreads := layout_reads (exponent + m) hd hne
  rw [hscale] at hreads
  unfold positiveNumber
  dsimp only
  rwa [← hstripped, hlength]

end Numbers

theorem intText_reads (n : Int) : Reads (intText n) (.num n) := by
  have hd : AllDigits (digitsOf n.natAbs) := fun c hc => isDigit_of_mem_digitsOf hc
  have hchars : ∀ c ∈ digitsOf n.natAbs, isNumberChar c = true :=
    fun c hc => isNumberChar_of_isDigit (hd c hc)
  have hvalue : unsignedValue (digitsOf n.natAbs) = (n.natAbs : ℚ) := by
    rw [unsignedValue_whole hd, ofDigits_digitsOf]
  unfold intText
  split
  · rename_i hneg
    have hread := reads_number (List.cons_ne_nil '-' (digitsOf n.natAbs))
      (List.forall_mem_cons.mpr ⟨by decide, hchars⟩)
    have habs : -(n.natAbs : ℚ) = n := by
      rw [Nat.cast_natAbs, abs_of_neg hneg, Int.cast_neg, neg_neg]
    rwa [numberValue, hvalue, habs] at hread
  · rename_i hpos
    have hread := reads_number (digitsOf_ne_nil n.natAbs) hchars
    obtain ⟨c, text, htext⟩ := List.exists_cons_of_ne_nil (digitsOf_ne_nil n.natAbs)
    have hdigit : c.isDigit = true := hd c (by rw [htext]; exact List.mem_cons_self)
    have habs : (n.natAbs : ℚ) = n := by
      rw [Nat.cast_natAbs, abs_of_nonneg (not_lt.mp hpos)]
    rwa [htext, numberValue_of_digit hdigit, ← htext, hvalue, habs] at hread

theorem number_reads {x : PyFloat} {path : PyStr} {text : List Char} (h : number x path = .ok text) :
    ∃ q, x.value = some q ∧ Reads text (.num q) := by
  cases x with
  | nonFinite => cases h
  | finite negative coefficient exponent =>
    rw [number] at h
    split at h
    · rename_i hzero
      cases h
      refine ⟨0, by simp [PyFloat.value, hzero], ?_⟩
      simpa [intText, digitsOf] using intText_reads 0
    · rename_i hpos
      obtain ⟨hplain, hminus⟩ := positiveNumber_reads exponent hpos
      split at h
      · rename_i hneg
        cases h
        exact ⟨_, rfl, by simpa [hneg] using hminus⟩
      · rename_i hneg
        cases h
        exact ⟨_, rfl, by simpa [hneg] using hplain⟩

/-! ## Strings and members -/

theorem encodable_eq_ok {s path : PyStr} {name : List Char} (h : encodable s path = .ok name) :
    scalars s = some name := by
  unfold encodable at h
  split at h
  · rename_i chars hchars
    cases h
    exact hchars
  · cases h

theorem string_reads {s path : PyStr} {text : List Char} (h : string s path = .ok text) :
    ∃ chars, scalars s = some chars ∧ Reads text (.str chars) := by
  obtain ⟨chars, hchars, rfl⟩ := map_eq_ok h
  exact ⟨chars, encodable_eq_ok hchars, reads_quote chars⟩

/-- A member with its text and its meaning. -/
abbrev ReadMember := List Char × List Char × Json

abbrev ReadMember.encoded (m : ReadMember) : List Char × Except SpecNotCanonical (List Char) :=
  (m.1, .ok m.2.1)

abbrev ReadMember.named (m : ReadMember) : List Char × Json := (m.1, m.2.2)

theorem memberTexts_eq_ok {members : List (List Char × Except SpecNotCanonical (List Char))}
    {texts : List (List Char)} (h : memberTexts members = .ok texts) :
    ∀ m ∈ members, ∃ text, m.2 = .ok text := by
  induction members generalizing texts with
  | nil => simp
  | cons m members ih =>
    obtain ⟨name, encoded⟩ := m
    rw [memberTexts] at h
    obtain ⟨text, htext, h⟩ := bind_eq_ok h
    obtain ⟨rest, hrest, -⟩ := bind_eq_ok h
    rw [List.forall_mem_cons]
    exact ⟨⟨text, htext⟩, ih hrest⟩

theorem memberTexts_encoded (members : List ReadMember) :
    memberTexts (members.map ReadMember.encoded) = .ok (members.map fun m => memberText m.1 m.2.1) := by
  induction members with
  | nil => rfl
  | cons m members ih =>
    rw [List.map_cons, memberTexts, ih]
    rfl

/-- The whole text of a map, once its members have readings. -/
theorem map_reads {named : List (List Char × Except SpecNotCanonical (List Char))}
    {members : List ReadMember} {texts : List (List Char)}
    (hreads : ∀ m ∈ members, Reads m.2.1 m.2.2) (hnamed : named = members.map ReadMember.encoded)
    (htexts : memberTexts (sortBy (fun m => utf16be m.1) named) = .ok texts) :
    Reads ('\x7b' :: ([','].intercalate texts ++ ['\x7d']))
      (.obj (sortBy (fun m => utf16be m.1) (members.map ReadMember.named))) := by
  rw [hnamed, sortBy_map, memberTexts_encoded] at htexts
  cases htexts
  rw [sortBy_map]
  refine reads_obj fun m hm => hreads m ?_
  exact mem_sortBy.mp hm

/-! ## Values -/

mutual

theorem encode_reads (v : PyValue) (path : PyStr) (depth : Nat) (text : List Char)
    (h : encode v path depth = .ok text) : ∃ j, v.meaning = some j ∧ Reads text j := by
  cases v with
  | none =>
    cases h
    exact ⟨.null, rfl, reads_null⟩
  | bool b =>
    cases b with
    | true =>
      cases h
      exact ⟨_, rfl, reads_true⟩
    | false =>
      cases h
      exact ⟨_, rfl, reads_false⟩
  | int n =>
    rw [encode] at h
    split at h
    · cases h
    · cases h
      exact ⟨_, rfl, intText_reads n⟩
  | float x =>
    obtain ⟨q, hq, hreads⟩ := number_reads h
    exact ⟨.num q, by rw [PyValue.meaning, hq]; rfl, hreads⟩
  | str s =>
    obtain ⟨chars, hchars, hreads⟩ := string_reads h
    exact ⟨.str chars, by rw [PyValue.meaning, hchars]; rfl, hreads⟩
  | list items | tuple items =>
    rw [encode] at h
    split at h
    · cases h
    · obtain ⟨texts, htexts, h⟩ := bind_eq_ok h
      cases h
      obtain ⟨read, rfl, hmeaning, hreads⟩ := encodeItems_reads items path 0 (depth + 1) texts htexts
      exact ⟨_, by rw [PyValue.meaning, hmeaning]; rfl, reads_arr hreads⟩
  | map members =>
    rw [encode] at h
    split at h
    · cases h
    · obtain ⟨named, hnamed, h⟩ := bind_eq_ok h
      obtain ⟨texts, htexts, h⟩ := bind_eq_ok h
      cases h
      have hok : ∀ m ∈ named, ∃ text, m.2 = .ok text := fun m hm =>
        memberTexts_eq_ok htexts m (mem_sortBy.mpr hm)
      obtain ⟨read, hencoded, hmeaning, hreads⟩ :=
        encodeMembers_reads members path path (depth + 1) named hnamed hok
      exact ⟨_, by rw [PyValue.meaning, hmeaning]; rfl, map_reads hreads hencoded htexts⟩
  | other typeName => cases h

theorem encodeItems_reads (items : List PyValue) (path : PyStr) (i depth : Nat)
    (texts : List (List Char)) (h : encodeItems items path i depth = .ok texts) :
    ∃ read : List (List Char × Json), texts = read.map Prod.fst ∧
      meaningItems items = some (read.map Prod.snd) ∧ ∀ r ∈ read, Reads r.1 r.2 := by
  cases items with
  | nil =>
    cases h
    exact ⟨[], rfl, rfl, by simp⟩
  | cons v items =>
    rw [encodeItems] at h
    obtain ⟨text, htext, h⟩ := bind_eq_ok h
    obtain ⟨rest, hrest, h⟩ := bind_eq_ok h
    cases h
    obtain ⟨j, hj, hread⟩ := encode_reads v _ depth text htext
    obtain ⟨read, rfl, hmeaning, hreads⟩ := encodeItems_reads items path (i + 1) depth rest hrest
    refine ⟨(text, j) :: read, rfl, ?_, List.forall_mem_cons.mpr ⟨hread, hreads⟩⟩
    rw [meaningItems, hj, hmeaning]
    rfl

theorem encodeMembers_reads (members : List (PyKey × PyValue)) (path path' : PyStr) (depth : Nat)
    (named : List (List Char × Except SpecNotCanonical (List Char)))
    (hnamed : namedMembers path (encodeMembers members path' depth) = .ok named)
    (hok : ∀ m ∈ named, ∃ text, m.2 = .ok text) :
    ∃ read : List ReadMember, named = read.map ReadMember.encoded ∧
      meaningMembers members = some (read.map ReadMember.named) ∧ ∀ m ∈ read, Reads m.2.1 m.2.2 := by
  match members with
  | [] =>
    cases hnamed
    exact ⟨[], rfl, rfl, by simp⟩
  | (.other, v) :: members =>
    rw [encodeMembers, namedMembers] at hnamed
    cases hnamed
  | (.str s, v) :: members =>
    rw [encodeMembers, namedMembers] at hnamed
    obtain ⟨name, hname, hnamed⟩ := bind_eq_ok hnamed
    obtain ⟨rest, hrest, hnamed⟩ := bind_eq_ok hnamed
    cases hnamed
    rw [List.forall_mem_cons] at hok
    obtain ⟨text, htext⟩ := hok.1
    obtain ⟨j, hj, hread⟩ := encode_reads v _ depth text htext
    obtain ⟨read, rfl, hmeaning, hreads⟩ :=
      encodeMembers_reads members path path' depth rest hrest hok.2
    refine ⟨(name, text, j) :: read, ?_, ?_, List.forall_mem_cons.mpr ⟨hread, hreads⟩⟩
    · rw [List.map_cons, ReadMember.encoded, ← htext]
    · rw [meaningMembers, PyKey.name, encodable_eq_ok hname, hj, hmeaning]
      rfl

end

/-- The bytes determine the JSON value. -/
theorem jcs_meaning {v w : PyValue} {bytes : ByteArray} (hv : jcs v = .ok bytes)
    (hw : jcs w = .ok bytes) : ∃ j, v.meaning = some j ∧ w.meaning = some j := by
  obtain ⟨text, hencode, hbytes⟩ := map_eq_ok hv
  obtain ⟨text', hencode', hbytes'⟩ := map_eq_ok hw
  obtain rfl : text = text' := by
    rw [← hbytes', String.toUTF8_eq_toByteArray, String.toUTF8_eq_toByteArray,
      String.toByteArray_inj, String.ofList_inj] at hbytes
    exact hbytes
  obtain ⟨j, hj, hread⟩ := encode_reads v _ _ _ hencode
  obtain ⟨j', hj', hread'⟩ := encode_reads w _ _ _ hencode'
  obtain rfl := hread.unique hread'
  exact ⟨j, hj, hj'⟩

end SwarmCloud.SpecSign
