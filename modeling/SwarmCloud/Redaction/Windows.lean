import SwarmCloud.Redaction.Literals
import SwarmCloud.Lib.Substrings
import Mathlib.Algebra.Order.Group.Int

/-! # Where a window of stored text may be cut

`_literal_across` and `straddled`. The bytes that were read may hold the middle of
an occurrence only, so the forms are laid over the boundary wherever they hold the
bytes around it. Offsets are into the bytes read, and may lie before or after them.
-/

namespace SwarmCloud.Redaction

open Lib

abbrev Bytes := List UInt8

structure Span where
  start : Int
  stop : Int
deriving DecidableEq, Repr

def Span.hull (s t : Span) : Span := ⟨min s.start t.start, max s.stop t.stop⟩

/-- `bytes[low:high]` of offsets that are not negative. -/
def slice (bytes : Bytes) (low high : Int) : Bytes := (bytes.drop low.toNat).take (high - low).toNat

section Across

variable (data : Bytes) (cut : Nat)

/-- The bytes around the boundary, one at the end of the data. -/
def pairAt : Bytes := (data.drop (cut - 1)).take 2

/-- Where a form lies that has the pair at `found`. -/
def placement (form : Bytes) (found : Nat) : Span := ⟨cut - 1 - found, cut - 1 - found + form.length⟩

/-- The form agrees with the data wherever it lies over them. -/
def agrees (form : Bytes) (begin : Int) : Bool :=
  let low := max begin 0
  let high := min (begin + form.length) data.length
  slice data low high = slice form (low - begin) (high - begin)

def widened (span : Option Span) (t : Span) : Option Span := some ((span.map (Span.hull t)).getD t)

/-- The inner loop of `_literal_across`, from one find to the next. -/
def acrossForm (form : Bytes) : Nat → Option Nat → Option Span → Option Span
  | n + 1, some found, span =>
    if found + 2 ≤ form.length then
      acrossForm form n (findFrom (pairAt data cut) form (found + 1))
        (if agrees data form (placement cut form found).start then widened span (placement cut form found) else span)
    else span
  | _, _, span => span

/-- `_literal_across`. -/
def literalAcross (literals : List Text) : Option Span :=
  (encodedForms literals).foldl
    (fun span form => acrossForm data cut form form.length (findFrom (pairAt data cut) form 0) span) none

/-- `straddled`, given the spans of the assignments that a boundary falls inside. -/
def straddled (assignments : Bytes → Nat → List Span) (literals : List Text) : Option Span :=
  if cut = 0 then none
  else
    match (literalAcross data cut literals).toList ++ assignments data cut with
    | [] => none
    | first :: rest => some (rest.foldl Span.hull first)

end Across

/-! ## Placements across the boundary -/

section Placements

variable {data form : Bytes} {cut : Nat} {s t : Span}

/-- The bytes of the form and of the data are the same at every offset that both have. -/
def Agrees (data form : Bytes) (begin : Int) : Prop :=
  ∀ i k : Nat, i < data.length → k < form.length → begin + k = i → data[i]? = form[k]?

theorem getElem?_slice (bytes : Bytes) (low high : Int) (j : Nat) :
    (slice bytes low high)[j]? = if j < (high - low).toNat then bytes[low.toNat + j]? else none := by
  rw [slice, List.getElem?_take]
  split
  · rw [List.getElem?_drop]
  · rfl

theorem agrees_iff (data form : Bytes) (begin : Int) : agrees data form begin = true ↔ Agrees data form begin := by
  rw [agrees, decide_eq_true_iff]
  constructor
  · intro h i k hi hk heq
    have hat := congrArg (fun bytes => bytes[(i - max begin 0).toNat]?) h
    rw [getElem?_slice, getElem?_slice, if_pos (by omega), if_pos (by omega)] at hat
    convert hat using 2
    · omega
    · omega
  · intro h
    refine List.ext_getElem? fun j => ?_
    rw [getElem?_slice, getElem?_slice]
    split
    · rename_i hj
      rw [if_pos (by omega)]
      exact h _ _ (by omega) (by omega) (by omega)
    · rename_i hj
      rw [if_neg (by omega)]

/-- The span has the byte before the boundary and the byte after it. -/
def Span.Across (s : Span) (cut : Nat) : Prop := s.start ≤ cut - 1 ∧ cut + 1 ≤ s.stop

def Span.Within (s t : Span) : Prop := t.start ≤ s.start ∧ s.stop ≤ t.stop

theorem Span.Within.refl (s : Span) : s.Within s := ⟨le_rfl, le_rfl⟩

theorem Span.Within.trans {u : Span} (hst : s.Within t) (htu : t.Within u) : s.Within u :=
  ⟨htu.1.trans hst.1, hst.2.trans htu.2⟩

theorem within_hull_left (s t : Span) : s.Within (s.hull t) := ⟨min_le_left _ _, le_max_left _ _⟩

theorem within_hull_right (s t : Span) : t.Within (s.hull t) := ⟨min_le_right _ _, le_max_right _ _⟩

/-- Every byte of the span lies under a form that is placed across the boundary and agrees with the data. -/
def Justified (data : Bytes) (cut : Nat) (forms : List Bytes) (s : Span) : Prop :=
  s.Across cut ∧ ∀ i : Int, s.start ≤ i → i < s.stop →
    ∃ form ∈ forms, ∃ t : Span, t.Across cut ∧ t.stop = t.start + form.length ∧ t.start ≤ i ∧ i < t.stop ∧
      Agrees data form t.start

theorem Justified.hull {forms : List Bytes} (hs : Justified data cut forms s) (ht : Justified data cut forms t) :
    Justified data cut forms (s.hull t) := by
  obtain ⟨⟨hsb, hsa⟩, hs⟩ := hs
  obtain ⟨⟨htb, hta⟩, ht⟩ := ht
  refine ⟨⟨(min_le_left _ _).trans hsb, hsa.trans (le_max_left _ _)⟩, fun i hi hi' => ?_⟩
  rw [Span.hull] at hi hi'
  -- Both have the bytes around the boundary, so together they leave no gap.
  rcases le_or_gt i (cut - 1) with hbefore | hafter
  · rcases min_le_iff.mp hi with hi | hi
    · exact hs i hi (by omega)
    · exact ht i hi (by omega)
  · rcases lt_max_iff.mp hi' with hi' | hi'
    · exact hs i (by omega) hi'
    · exact ht i (by omega) hi'

theorem justified_placement {forms : List Bytes} (hform : form ∈ forms) {found : Nat} (hfound : found + 2 ≤ form.length)
    (hagrees : Agrees data form (placement cut form found).start) :
    Justified data cut forms (placement cut form found) := by
  have hacross : (placement cut form found).Across cut := by
    constructor
    · dsimp only [placement]
      omega
    · dsimp only [placement]
      omega
  exact ⟨hacross, fun i hi hi' => ⟨form, hform, _, hacross, rfl, hi, hi', hagrees⟩⟩

end Placements

/-! ## The search -/

section Search

variable {data form : Bytes} {cut : Nat} {forms all : List Bytes}

/-- What has been found so far lies within what is found in the end. -/
theorem within_acrossForm (n : Nat) (found : Option Nat) {span : Option Span} {s t : Span} (hspan : span = some t)
    (h : s.Within t) : ∃ u, acrossForm data cut form n found span = some u ∧ s.Within u := by
  induction n generalizing found span t with
  | zero => exact ⟨t, hspan, h⟩
  | succ n ih =>
    cases found with
    | none => exact ⟨t, hspan, h⟩
    | some found =>
      rw [acrossForm]
      split
      · split
        · refine ih _ rfl ?_
          rw [hspan]
          exact h.trans (within_hull_right _ _)
        · exact ih _ hspan h
      · exact ⟨t, hspan, h⟩

theorem justified_acrossForm (hform : form ∈ forms) (n : Nat) (found : Option Nat) {span : Option Span}
    (hspan : ∀ s ∈ span, Justified data cut forms s) :
    ∀ s ∈ acrossForm data cut form n found span, Justified data cut forms s := by
  induction n generalizing found span with
  | zero => exact hspan
  | succ n ih =>
    cases found with
    | none => exact hspan
    | some found =>
      rw [acrossForm]
      split
      · rename_i hfound
        refine ih _ ?_
        split
        · rename_i hagrees
          have hplaced := justified_placement hform hfound ((agrees_iff _ _ _).mp hagrees)
          intro s hs
          cases span with
          | none =>
            cases hs
            exact hplaced
          | some t =>
            cases hs
            exact hplaced.hull (hspan t rfl)
        · exact hspan
      · exact hspan

/-- Every place where the form has the pair and a byte after its first is come to. -/
theorem acrossForm_covers (n : Nat) {start found : Nat} (span : Option Span) (hfuel : form.length ≤ n + start)
    (hstart : start ≤ found) (hfound : found + 2 ≤ form.length) (hpair : pairAt data cut <+: form.drop found)
    (hagrees : Agrees data form (placement cut form found).start) :
    ∃ u, acrossForm data cut form n (findFrom (pairAt data cut) form start) span = some u ∧
      (placement cut form found).Within u := by
  induction n generalizing start span with
  | zero => omega
  | succ n ih =>
    obtain ⟨first, hfirst, hle⟩ := exists_findFrom hstart (by omega) hpair
    obtain ⟨hge, -, -⟩ := findFrom_eq_some hfirst
    rw [hfirst, acrossForm, if_pos (by omega)]
    rcases Nat.eq_or_lt_of_le hle with rfl | hlt
    · rw [(agrees_iff _ _ _).mpr hagrees, if_pos rfl]
      refine within_acrossForm n _ rfl ?_
      cases span with
      | none => exact Span.Within.refl _
      | some t => exact within_hull_left _ _
    · exact ih _ (by omega) (by omega)

theorem within_foldl (rest : List Bytes) {span : Option Span} {s t : Span} (hspan : span = some t) (h : s.Within t) :
    ∃ u, rest.foldl (fun span form => acrossForm data cut form form.length (findFrom (pairAt data cut) form 0) span)
      span = some u ∧ s.Within u := by
  induction rest generalizing span t with
  | nil => exact ⟨t, hspan, h⟩
  | cons form rest ih =>
    obtain ⟨u, hu, hwithin⟩ : ∃ u,
        acrossForm data cut form form.length (findFrom (pairAt data cut) form 0) span = some u ∧ s.Within u :=
      within_acrossForm _ _ hspan h
    exact ih hu hwithin

theorem foldl_covers {found : Nat} (hform : form ∈ forms) (hfound : found + 2 ≤ form.length)
    (hpair : pairAt data cut <+: form.drop found) (hagrees : Agrees data form (placement cut form found).start)
    (span : Option Span) :
    ∃ u, forms.foldl (fun span form => acrossForm data cut form form.length (findFrom (pairAt data cut) form 0) span)
      span = some u ∧ (placement cut form found).Within u := by
  induction forms generalizing span with
  | nil => cases hform
  | cons first rest ih =>
    rcases List.mem_cons.mp hform with rfl | hform
    · obtain ⟨u, hu, hwithin⟩ :=
        acrossForm_covers form.length span (Nat.le_refl _) (Nat.zero_le found) hfound hpair hagrees
      exact within_foldl rest hu hwithin
    · exact ih hform _

theorem justified_foldl (hforms : ∀ form ∈ forms, form ∈ all) {span : Option Span}
    (hspan : ∀ s ∈ span, Justified data cut all s) :
    ∀ s ∈ forms.foldl
      (fun span form => acrossForm data cut form form.length (findFrom (pairAt data cut) form 0) span) span,
      Justified data cut all s := by
  induction forms generalizing span with
  | nil => exact hspan
  | cons first rest ih =>
    exact ih (fun form hform => hforms form (List.mem_cons_of_mem _ hform))
      (justified_acrossForm (hforms first List.mem_cons_self) _ _ hspan)

end Search

/-! ## No literal is cut unseen -/

section Straddled

variable {data : Bytes} {cut : Nat} {literals : List Text}

theorem literalAcross_justified {span : Span} (h : literalAcross data cut literals = some span) :
    Justified data cut (encodedForms literals) span :=
  justified_foldl (fun _ hform => hform) (by simp) span h

theorem within_foldl_hull (rest : List Span) {s t : Span} (h : s.Within t) : s.Within (rest.foldl Span.hull t) := by
  induction rest generalizing t with
  | nil => exact h
  | cons first rest ih => exact ih (h.trans (within_hull_left _ _))

/-- An occurrence in the whole text lies over the bytes that were read as a placement that agrees with them. -/
theorem placement_of_occurrence {before after front back form : Bytes} (hcut : 0 < cut) (hle : cut ≤ data.length)
    (hoccurs : before ++ data ++ after = front ++ form ++ back) (hbefore : front.length < before.length + cut)
    (hafter : before.length + cut < front.length + form.length) :
    ∃ found : Nat, found + 2 ≤ form.length ∧ (placement cut form found).start = (front.length : Int) - before.length ∧
      pairAt data cut <+: form.drop found ∧ Agrees data form (placement cut form found).start := by
  have hat : ∀ i k : Nat, i < data.length → k < form.length → front.length + k = before.length + i →
      data[i]? = form[k]? := by
    intro i k hi hk heq
    have hwhole := congrArg (fun text => text[before.length + i]?) hoccurs
    rw [List.append_assoc, List.getElem?_append_right (Nat.le_add_right _ _), Nat.add_sub_cancel_left,
      List.getElem?_append_left hi, ← heq, List.append_assoc, List.getElem?_append_right (Nat.le_add_right _ _),
      Nat.add_sub_cancel_left, List.getElem?_append_left hk] at hwhole
    exact hwhole
  refine ⟨before.length + cut - 1 - front.length, by omega, by dsimp only [placement]; omega, ?_, ?_⟩
  · rw [List.prefix_iff_getElem?]
    intro j hj
    have hlength : j < 2 ∧ cut - 1 + j < data.length := by
      rw [pairAt, List.length_take, List.length_drop] at hj
      omega
    rw [← List.getElem?_eq_getElem hj, pairAt, List.getElem?_take, if_pos hlength.1, List.getElem?_drop,
      List.getElem?_drop]
    exact (hat _ _ hlength.2 (by omega) (by omega)).symm
  · intro i k hi hk heq
    dsimp only [placement] at heq
    exact hat i k hi hk (by omega)

/-- A boundary inside an occurrence of a literal is seen, whatever the assignments around it add. -/
theorem straddled_covers (assignments : Bytes → Nat → List Span) (literals : List Text) (data : Bytes) (cut : Nat)
    (hcut : 0 < cut) (hle : cut ≤ data.length) :
    (∀ before after front form back : Bytes, form ∈ encodedForms literals →
      before ++ data ++ after = front ++ form ++ back → front.length < before.length + cut →
      before.length + cut < front.length + form.length →
      ∃ span, straddled data cut assignments literals = some span ∧
        span.start ≤ (front.length : Int) - before.length ∧
        (front.length : Int) - before.length + form.length ≤ span.stop) ∧
    ∀ span, literalAcross data cut literals = some span → ∀ i : Int, span.start ≤ i → i < span.stop →
      ∃ form ∈ encodedForms literals, ∃ start : Int, start ≤ cut - 1 ∧ cut + 1 ≤ start + form.length ∧ start ≤ i ∧
        i < start + form.length ∧ Agrees data form start := by
  constructor
  · intro before after front form back hform hoccurs hbefore hafter
    obtain ⟨found, hfound, hstart, hpair, hagrees⟩ := placement_of_occurrence hcut hle hoccurs hbefore hafter
    obtain ⟨literal, hliteral, hwithin⟩ := foldl_covers hform hfound hpair hagrees none
    have hacross : literalAcross data cut literals = some literal := hliteral
    refine ⟨((assignments data cut).foldl Span.hull literal), ?_, ?_⟩
    · rw [straddled, if_neg (by omega), hacross]
      rfl
    · obtain ⟨hlow, hhigh⟩ := within_foldl_hull (assignments data cut) hwithin
      rw [← hstart]
      exact ⟨hlow, hhigh⟩
  · intro span hspan i hi hi'
    obtain ⟨-, hall⟩ := literalAcross_justified hspan
    obtain ⟨form, hform, t, ⟨hbefore, hafter⟩, hstop, hti, hti', hagrees⟩ := hall i hi hi'
    rw [hstop] at hafter hti'
    exact ⟨form, hform, t.start, hbefore, hafter, hti, hti', hagrees⟩

/-- The last byte of a literal is not read yet. -/
theorem straddled_covers_unread :
    ∃ span, straddled [120, 97, 98] 3 (fun _ _ => []) [textOf "aba"] = some span ∧ span.start ≤ 1 ∧ 4 ≤ span.stop := by
  obtain ⟨span, hspan, hstart, hstop⟩ := (straddled_covers (fun _ _ => []) [textOf "aba"] [120, 97, 98] 3 (by decide)
    (by decide)).1 [] [97] [120] [97, 98, 97] [] (by decide) rfl (by decide) (by decide)
  exact ⟨span, hspan, hstart, hstop⟩

end Straddled

end SwarmCloud.Redaction
