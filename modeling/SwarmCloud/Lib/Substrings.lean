import Mathlib.Data.List.Infix

/-! # Substrings

The occurrences of a pattern in a text, found from the left and without
overlaps, as `str.count` and `str.replace` find them: the text is cut at each of
them, and what stands between two is a piece. No piece holds the pattern. When
each occurrence is replaced by a text made of one symbol only, whatever does not
use that symbol and stands in the result stood in a piece, so in the text before.
-/

namespace SwarmCloud.Lib

universe u

variable {α : Type u} {q : List α}

/-! ## Texts without a symbol -/

theorem prefix_of_prefix_before {x : α} {before after : List α} (hx : x ∉ q)
    (h : q <+: before ++ x :: after) : q <+: before := by
  have hmark : before ++ [x] <+: before ++ x :: after := ⟨after, by simp⟩
  rcases List.prefix_or_prefix_of_prefix h hmark with hq | hq
  · rcases List.prefix_concat_iff.mp hq with rfl | hq
    · simp at hx
    · exact hq
  · exact absurd (hq.subset (by simp)) hx

/-- A text without `x` stands on one side of any `x`. -/
theorem infix_of_infix_around {x : α} {before after : List α} (hx : x ∉ q)
    (h : q <:+: before ++ x :: after) : q <:+: before ∨ q <:+: after := by
  induction before with
  | nil =>
    rcases List.infix_cons_iff.mp h with hhere | hlater
    · exact .inl (prefix_of_prefix_before hx hhere).isInfix
    · exact .inr hlater
  | cons c before ih =>
    rcases List.infix_cons_iff.mp h with hhere | hlater
    · exact .inl (prefix_of_prefix_before hx hhere).isInfix
    · rcases ih hlater with h | h
      · exact .inl (h.trans (List.suffix_cons c before).isInfix)
      · exact .inr h

theorem infix_of_infix_around_run {x : α} {before after : List α} {n : Nat} (hx : x ∉ q)
    (h : q <:+: before ++ (List.replicate (n + 1) x ++ after)) : q <:+: before ∨ q <:+: after := by
  induction n generalizing before with
  | zero => exact infix_of_infix_around hx h
  | succ n ih =>
    rcases infix_of_infix_around hx h with h | h
    · exact .inl h
    · rcases @ih [] h with h | h
      · exact .inl (List.eq_nil_of_infix_nil h ▸ List.nil_infix)
      · exact .inr h

theorem exists_piece_of_infix {x : α} {n : Nat} {pieces : List (List α)} (hx : x ∉ q) (hpieces : pieces ≠ [])
    (h : q <:+: (List.replicate (n + 1) x).intercalate pieces) : ∃ piece ∈ pieces, q <:+: piece := by
  induction pieces with
  | nil => exact absurd rfl hpieces
  | cons piece more ih =>
    cases more with
    | nil => exact ⟨piece, by simp, by simpa [List.intercalate] using h⟩
    | cons next more =>
      rw [List.intercalate_cons_cons, List.append_assoc] at h
      rcases infix_of_infix_around_run hx h with h | h
      · exact ⟨piece, by simp, h⟩
      · obtain ⟨other, hmem, hother⟩ := ih (by simp) h
        exact ⟨other, List.mem_cons_of_mem piece hmem, hother⟩

theorem infix_intercalate {sep piece : List α} {pieces : List (List α)} (h : piece ∈ pieces) :
    piece <:+: sep.intercalate pieces := by
  induction pieces with
  | nil => exact absurd h List.not_mem_nil
  | cons first more ih =>
    cases more with
    | nil =>
      rw [List.mem_singleton.mp h]
      simp
    | cons next more =>
      rw [List.intercalate_cons_cons, List.append_assoc]
      rcases List.mem_cons.mp h with rfl | h
      · exact (List.prefix_append piece _).isInfix
      · exact (ih h).trans ((List.suffix_append sep _).trans (List.suffix_append first _)).isInfix

/-! ## Occurrences -/

variable [DecidableEq α]

/-- `text.split(pattern)`; `skip` symbols belong to an occurrence already found. -/
def cutAt (pattern : List α) : Nat → List α → List (List α)
  | _, [] => [[]]
  | skip + 1, _ :: rest => cutAt pattern skip rest
  | 0, c :: rest =>
    if pattern.isPrefixOf (c :: rest) then [] :: cutAt pattern (pattern.length - 1) rest
    else match cutAt pattern 0 rest with
      | [] => [[c]]
      | piece :: more => (c :: piece) :: more

/-- `text.replace(pattern, new)`. -/
def replaceAll (pattern new text : List α) : List α := new.intercalate (cutAt pattern 0 text)

variable {pattern new text : List α}

theorem cutAt_ne_nil (skip : Nat) (text : List α) : cutAt pattern skip text ≠ [] := by
  induction text generalizing skip with
  | nil => simp [cutAt]
  | cons c rest ih =>
    cases skip with
    | succ skip => exact ih skip
    | zero =>
      rw [cutAt]
      split
      · simp
      · split <;> simp

/-- The first piece begins the text, the others are in it. -/
theorem cutAt_pieces (text : List α) :
    (∃ piece more, cutAt pattern 0 text = piece :: more ∧ piece <+: text) ∧
      ∀ skip, ∀ piece ∈ cutAt pattern skip text, piece <:+: text := by
  induction text with
  | nil =>
    refine ⟨⟨[], [], rfl, List.prefix_rfl⟩, ?_⟩
    intro skip piece hpiece
    rw [cutAt] at hpiece
    simp_all
  | cons c rest ih =>
    obtain ⟨⟨first, more, hfirst, hbegins⟩, hinside⟩ := ih
    have hlater : ∀ skip, ∀ piece ∈ cutAt pattern skip rest, piece <:+: c :: rest :=
      fun skip piece hpiece => (hinside skip piece hpiece).trans (List.suffix_cons c rest).isInfix
    constructor
    · rw [cutAt, hfirst]
      split
      · exact ⟨[], _, rfl, List.nil_prefix⟩
      · exact ⟨c :: first, more, rfl, List.cons_prefix_cons.mpr ⟨rfl, hbegins⟩⟩
    · intro skip piece hpiece
      cases skip with
      | succ skip => exact hlater skip piece hpiece
      | zero =>
        rw [cutAt] at hpiece
        split at hpiece
        · rcases List.mem_cons.mp hpiece with rfl | hmem
          · exact List.nil_infix
          · exact hlater _ piece hmem
        · rw [hfirst] at hpiece
          rcases List.mem_cons.mp hpiece with rfl | hmem
          · exact (List.cons_prefix_cons.mpr ⟨rfl, hbegins⟩).isInfix
          · exact hlater 0 piece (hfirst ▸ List.mem_cons_of_mem first hmem)

/-- The leftmost occurrence is found first, so a piece holds none. -/
theorem pattern_not_in_pieces (hpattern : pattern ≠ []) (skip : Nat) (text : List α) :
    ∀ piece ∈ cutAt pattern skip text, ¬ pattern <:+: piece := by
  induction text generalizing skip with
  | nil =>
    intro piece hpiece hinside
    rw [cutAt] at hpiece
    rw [List.mem_singleton.mp hpiece] at hinside
    exact hpattern (List.infix_nil.mp hinside)
  | cons c rest ih =>
    intro piece hpiece
    cases skip with
    | succ skip => exact ih skip piece hpiece
    | zero =>
      obtain ⟨first, more, hfirst, hbegins⟩ := (@cutAt_pieces _ _ pattern rest).1
      rw [cutAt] at hpiece
      split at hpiece
      · rcases List.mem_cons.mp hpiece with rfl | hmem
        · exact fun hinside => hpattern (List.infix_nil.mp hinside)
        · exact ih _ piece hmem
      · rename_i hno
        rw [hfirst] at hpiece
        rcases List.mem_cons.mp hpiece with rfl | hmem
        · intro hinside
          rcases List.infix_cons_iff.mp hinside with hhere | hlater
          · exact hno (List.isPrefixOf_iff_prefix.mpr
              (hhere.trans (List.cons_prefix_cons.mpr ⟨rfl, hbegins⟩)))
          · exact ih 0 first (hfirst ▸ List.mem_cons_self) hlater
        · exact ih 0 piece (hfirst ▸ List.mem_cons_of_mem first hmem)

theorem cutAt_eq_singleton (hpattern : pattern ≠ []) (text : List α) :
    cutAt pattern 0 text = [text] ↔ ¬ pattern <:+: text := by
  constructor
  · intro h
    exact pattern_not_in_pieces hpattern 0 text text (h ▸ List.mem_singleton_self text)
  · induction text with
    | nil => exact fun _ => rfl
    | cons c rest ih =>
      intro hnot
      have hhere : ¬ pattern.isPrefixOf (c :: rest) = true :=
        fun h => hnot (List.isPrefixOf_iff_prefix.mp h).isInfix
      rw [cutAt, if_neg hhere, ih fun h => hnot (h.trans (List.suffix_cons c rest).isInfix)]

theorem replaceAll_of_not_infix (hpattern : pattern ≠ []) (h : ¬ pattern <:+: text) :
    replaceAll pattern new text = text := by
  rw [replaceAll, (cutAt_eq_singleton hpattern text).mpr h]
  simp [List.intercalate]

theorem replaceAll_here {c : α} {rest : List α} (h : pattern <+: c :: rest) :
    replaceAll pattern new (c :: rest) = new ++ new.intercalate (cutAt pattern (pattern.length - 1) rest) := by
  rw [replaceAll, cutAt, if_pos (List.isPrefixOf_iff_prefix.mpr h)]
  exact List.intercalate_cons_of_ne_nil (cutAt_ne_nil _ rest)

theorem replaceAll_later {c : α} {rest : List α} (h : ¬ pattern <+: c :: rest) :
    replaceAll pattern new (c :: rest) = c :: replaceAll pattern new rest := by
  obtain ⟨first, more, hfirst, -⟩ := (@cutAt_pieces _ _ pattern rest).1
  rw [replaceAll, replaceAll, cutAt, if_neg fun h' => h (List.isPrefixOf_iff_prefix.mp h'), hfirst]
  cases more with
  | nil => simp
  | cons next more => simp

theorem intercalate_cutAt_around {c : α} {before after : List α} {skip : Nat} (hc : c ∉ pattern)
    (hpattern : pattern ≠ []) (hskip : skip ≤ before.length) :
    new.intercalate (cutAt pattern skip (before ++ c :: after)) =
      new.intercalate (cutAt pattern skip before) ++ c :: replaceAll pattern new after := by
  induction before generalizing skip with
  | nil =>
    have hzero : skip = 0 := Nat.le_zero.mp hskip
    have hnot : ¬ pattern <+: c :: after := fun h =>
      hpattern (List.eq_nil_of_prefix_nil (@prefix_of_prefix_before _ pattern c [] after hc h))
    subst hzero
    exact replaceAll_later hnot
  | cons d before ih =>
    cases skip with
    | succ skip => exact ih (Nat.le_of_succ_le_succ hskip)
    | zero =>
      change replaceAll pattern new (d :: (before ++ c :: after)) =
        replaceAll pattern new (d :: before) ++ c :: replaceAll pattern new after
      by_cases hhere : pattern <+: d :: before
      · have hlength : pattern.length - 1 ≤ before.length := by
          have := hhere.length_le
          rw [List.length_cons] at this
          omega
        have hwhole : pattern <+: d :: (before ++ c :: after) := hhere.trans ⟨c :: after, by simp⟩
        rw [replaceAll_here hwhole, replaceAll_here hhere, ih hlength, List.append_assoc]
      · have hwhole : ¬ pattern <+: d :: (before ++ c :: after) := fun h =>
          hhere (@prefix_of_prefix_before _ pattern c (d :: before) after hc h)
        rw [replaceAll_later hwhole, replaceAll_later hhere, List.cons_append]
        exact congrArg (d :: ·) (ih (Nat.zero_le _))

/-- A symbol that the pattern does not use parts the text for the replacement. -/
theorem replaceAll_around {c : α} {before after : List α} (hc : c ∉ pattern) (hpattern : pattern ≠ []) :
    replaceAll pattern new (before ++ c :: after) =
      replaceAll pattern new before ++ c :: replaceAll pattern new after :=
  intercalate_cutAt_around hc hpattern (Nat.zero_le _)

theorem replaceAll_run {run rest : List α} (h : ∀ c ∈ run, c ∉ pattern) (hpattern : pattern ≠ []) :
    replaceAll pattern new (run ++ rest) = run ++ replaceAll pattern new rest := by
  induction run with
  | nil => rfl
  | cons c run ih =>
    have hhere := @replaceAll_around _ _ pattern new c [] (run ++ rest) (h c List.mem_cons_self) hpattern
    rw [List.cons_append, List.cons_append, ← ih fun c' hc' => h c' (List.mem_cons_of_mem c hc')]
    exact hhere

/-- A run of symbols that the pattern does not use stays. -/
theorem infix_replaceAll {run : List α} (h : ∀ c ∈ run, c ∉ pattern) (hpattern : pattern ≠ [])
    (hrun : run <:+: text) : run <:+: replaceAll pattern new text := by
  obtain ⟨before, after, rfl⟩ := hrun
  cases run with
  | nil => exact List.nil_infix
  | cons c run =>
    rw [List.append_assoc, List.cons_append, replaceAll_around (h c List.mem_cons_self) hpattern,
      replaceAll_run (fun c' hc' => h c' (List.mem_cons_of_mem c hc')) hpattern]
    exact ⟨replaceAll pattern new before, replaceAll pattern new after, by simp⟩

/-- What is cut is the text, with the pattern back in between. -/
theorem intercalate_cutAt (hpattern : pattern ≠ []) (skip : Nat) (text : List α) :
    pattern.intercalate (cutAt pattern skip text) = text.drop skip := by
  induction text generalizing skip with
  | nil => simp [cutAt]
  | cons c rest ih =>
    cases skip with
    | succ skip => exact ih skip
    | zero =>
      rw [cutAt]
      split
      · rename_i hhere
        obtain ⟨after, hafter⟩ := List.isPrefixOf_iff_prefix.mp hhere
        rw [List.intercalate_cons_of_ne_nil (cutAt_ne_nil _ rest), ih, List.nil_append, List.drop_zero]
        cases pattern with
        | nil => exact absurd rfl hpattern
        | cons d more =>
          rw [List.cons_append] at hafter
          obtain ⟨rfl, rfl⟩ := List.cons.inj hafter
          rw [List.length_cons, Nat.add_sub_cancel, List.drop_left, List.cons_append]
      · obtain ⟨first, more, hfirst, -⟩ := (@cutAt_pieces _ _ pattern rest).1
        have hrest := ih 0
        rw [List.drop_zero, hfirst] at hrest
        rw [hfirst, List.drop_zero, ← hrest]
        cases more with
        | nil => simp
        | cons next more => simp

theorem cutAt_eq_drop (skip : Nat) (text : List α) : cutAt pattern skip text = cutAt pattern 0 (text.drop skip) := by
  induction text generalizing skip with
  | nil => simp [cutAt]
  | cons c rest ih =>
    cases skip with
    | succ skip => exact ih skip
    | zero => rfl

theorem replaceAll_pattern_append (hpattern : pattern ≠ []) (rest : List α) :
    replaceAll pattern new (pattern ++ rest) = new ++ replaceAll pattern new rest := by
  cases pattern with
  | nil => exact absurd rfl hpattern
  | cons c more =>
    rw [List.cons_append, replaceAll_here ⟨rest, rfl⟩, cutAt_eq_drop, List.length_cons, Nat.add_sub_cancel, List.drop_left]
    rfl

/-! ## Finding one occurrence -/

/-- `text.find(pattern, start)`. -/
def findFrom (pattern text : List α) (start : Nat) : Option Nat :=
  (List.range' start (text.length + 1 - start)).find? fun p => pattern.isPrefixOf (text.drop p)

theorem findFrom_eq_some {start p : Nat} (h : findFrom pattern text start = some p) :
    start ≤ p ∧ p ≤ text.length ∧ pattern <+: text.drop p := by
  have hmem := List.mem_of_find?_eq_some h
  rw [List.mem_range'_1] at hmem
  have hprefix := List.find?_some h
  rw [List.isPrefixOf_iff_prefix] at hprefix
  exact ⟨hmem.1, by omega, hprefix⟩

/-- The first occurrence is found. -/
theorem exists_findFrom {start q : Nat} (hstart : start ≤ q) (hq : q ≤ text.length) (h : pattern <+: text.drop q) :
    ∃ p, findFrom pattern text start = some p ∧ p ≤ q := by
  have hmem : q ∈ List.range' start (text.length + 1 - start) := by
    rw [List.mem_range'_1]
    omega
  cases hfind : findFrom pattern text start with
  | none =>
    have hnone := List.find?_eq_none.mp hfind q hmem
    exact absurd (List.isPrefixOf_iff_prefix.mpr h) hnone
  | some p =>
    refine ⟨p, rfl, ?_⟩
    by_contra hlt
    rw [findFrom, List.find?_range'_eq_some] at hfind
    have hearlier := hfind.2.2 q hstart (by omega)
    rw [Bool.not_eq_true', Bool.eq_false_iff] at hearlier
    exact hearlier (List.isPrefixOf_iff_prefix.mpr h)

end SwarmCloud.Lib
