import SwarmCloud.Paging.Page
import Mathlib.Data.List.Perm.Subperm

/-! # What one page serves

The backend orders on the timestamp alone and may cut a run of equal timestamps
where it likes. Against every such answer a page is the first rows, in the order
of (timestamp, id), of all that match past the cursor.
-/

namespace SwarmCloud.Paging

open Common Lib

section Order

variable {ρ : Type} (key : ρ → Instant × String) (q : Listing)

/-- The listing's order of rows, and of instants. -/
def rowLt (a b : ρ) : Prop := dirLt q.descending (rank key a) (rank key b)

def instantLt (s t : Instant) : Prop := dirLt q.descending s t

instance (s t : Instant) : Decidable (instantLt q s t) :=
  inferInstanceAs (Decidable (dirLt q.descending s t))

variable {key q}

theorem rowLt_trans {a b c : ρ} (hab : rowLt key q a b) (hbc : rowLt key q b c) :
    rowLt key q a c := dirLt_trans hab hbc

theorem rowLt_irrefl (a : ρ) : ¬ rowLt key q a a := dirLt_irrefl _

instance : Std.Irrefl (rowLt key q) := ⟨rowLt_irrefl⟩

instance : Std.Antisymm (rowLt key q) :=
  ⟨fun a _ hab hba => absurd (rowLt_trans hab hba) (rowLt_irrefl a)⟩

/-- A row before another is not at a later instant. -/
theorem not_instantLt_of_rowLt {a b : ρ} (h : rowLt key q a b) :
    ¬ instantLt q (key b).1 (key a).1 := by
  unfold rowLt rank at h
  unfold instantLt
  cases hdesc : q.descending with
  | false =>
    rw [hdesc] at h
    obtain hlt | ⟨heq, -⟩ := Prod.Lex.toLex_lt_toLex.mp h
    · exact not_lt.mpr hlt.le
    · exact not_lt.mpr heq.le
  | true =>
    rw [hdesc] at h
    obtain hlt | ⟨heq, -⟩ := Prod.Lex.toLex_lt_toLex.mp h
    · exact not_lt.mpr hlt.le
    · exact not_lt.mpr heq.le

/-- Rows with different ids are ordered. -/
theorem rowLt_or_rowLt {a b : ρ} (h : (key a).2 ≠ (key b).2) :
    rowLt key q a b ∨ rowLt key q b a := by
  obtain hlt | heq | hgt := @dirLt_trichotomy _ _ q.descending (rank key a) (rank key b)
  · exact .inl hlt
  · exact absurd (congrArg Prod.snd (toLex.injective heq)) h
  · exact .inr hgt

theorem sortRows_perm (rows : List ρ) : (sortRows key q rows).Perm rows := by
  unfold sortRows
  split <;> exact sortBy_perm _ _

@[simp] theorem mem_sortRows {rows : List ρ} {a : ρ} : a ∈ sortRows key q rows ↔ a ∈ rows :=
  (sortRows_perm rows).mem_iff

@[simp] theorem length_sortRows {rows : List ρ} : (sortRows key q rows).length = rows.length :=
  (sortRows_perm rows).length_eq

theorem sortRows_pairwise {rows : List ρ} (h : (rows.map fun r => (key r).2).Nodup) :
    (sortRows key q rows).Pairwise (rowLt key q) := by
  have hids : (sortRows key q rows).Pairwise fun a b => (key a).2 ≠ (key b).2 := by
    have hperm : (sortRows key q rows).Perm rows := sortRows_perm rows
    exact List.pairwise_map.mp ((hperm.map fun r => (key r).2).nodup_iff.mpr h)
  have hle : (sortRows key q rows).Pairwise fun a b => ¬ rowLt key q b a := by
    unfold sortRows rowLt
    cases q.descending with
    | true =>
      refine (sortBy_pairwise (fun row => OrderDual.toDual (rank key row)) rows).imp ?_
      intro a b hab
      exact not_dirLt_of_ge (OrderDual.toDual_le_toDual.mp hab)
    | false =>
      refine (sortBy_pairwise (rank key) rows).imp ?_
      intro a b hab
      exact not_dirLt_of_ge hab
  refine (hids.and hle).imp ?_
  rintro a b ⟨hne, hnot⟩
  exact (rowLt_or_rowLt hne).resolve_right hnot

end Order

section Answers

variable {ρ : Type} (key : ρ → Instant × String)

/-- The rows the window query asks for: within the bounds, past the cursor's instant. -/
def inWindow (q : Listing) (after : Option KeysetCursor) (row : ρ) : Bool :=
  q.withinBounds (key row).1 &&
    match after with
    | none => true
    | some after =>
        if q.descending then decide ((key row).1 < after.instant)
        else decide (after.instant < (key row).1)

/-- Answers a backend may give over `docs`: the first `limit + 1` rows by
timestamp, and at most one more row of a run than a page will read, with any
order and any choice among equal timestamps. -/
structure Answers (docs : List ρ) (q : Listing) (after : Option KeysetCursor)
    (backend : Backend ρ) : Prop where
  window_rows : backend.window.Subperm (docs.filter (inWindow key q after))
  window_length : backend.window.length =
    min (q.limit + 1) (docs.filter (inWindow key q after)).length
  window_first : ∀ x ∈ backend.window, ∀ y ∈ docs.filter (inWindow key q after),
    y ∉ backend.window → ¬ instantLt q (key y).1 (key x).1
  run_rows : ∀ t, (backend.sameInstant t).Subperm (docs.filter fun row => (key row).1 = t)
  run_length : ∀ t, (backend.sameInstant t).length =
    min (tieReadLimit + 1) (docs.filter fun row => (key row).1 = t).length

/-- A collection a listing can page through: distinct document ids, none empty,
and no instant within the bounds shared by more rows than one read orders. -/
structure Pageable (docs : List ρ) (q : Listing) : Prop where
  ids : (docs.map fun row => (key row).2).Nodup
  named : ∀ row ∈ docs, (key row).2 ≠ ""
  ties : ∀ t, q.withinBounds t = true →
    (docs.filter fun row => (key row).1 = t).length ≤ tieReadLimit

variable {key} {docs : List ρ} {q : Listing} {after : Option KeysetCursor} {backend : Backend ρ}

theorem inside_iff {row : ρ} : inside key q after row = true ↔
    q.withinBounds (key row).1 = true ∧
      ∀ c ∈ after, dirLt q.descending c.mark (rank key row) := by
  unfold inside dirLt
  cases after with
  | none => simp
  | some c => cases q.descending <;> simp

theorem inWindow_iff {row : ρ} : inWindow key q after row = true ↔
    q.withinBounds (key row).1 = true ∧ ∀ c ∈ after, instantLt q c.instant (key row).1 := by
  unfold inWindow instantLt dirLt
  cases after with
  | none => simp
  | some c => cases q.descending <;> simp

/-- A row past the cursor is at its instant or in the window's range. -/
theorem inside_cases {row : ρ} (h : inside key q after row = true) :
    inWindow key q after row = true ∨ ∃ c ∈ after, (key row).1 = c.instant := by
  obtain ⟨hbounds, hmark⟩ := inside_iff.mp h
  cases after with
  | none => exact .inl (inWindow_iff.mpr ⟨hbounds, by simp⟩)
  | some c =>
    have hrank := hmark c rfl
    obtain hlt | heq | hgt := @dirLt_trichotomy _ _ q.descending c.instant (key row).1
    · refine .inl (inWindow_iff.mpr ⟨hbounds, ?_⟩)
      rintro c' hc'
      obtain rfl := Option.some.inj hc'
      exact hlt
    · exact .inr ⟨c, rfl, heq.symm⟩
    · refine absurd hgt ?_
      have hmark' : rowLt (fun k : Instant × String => k) q (c.instant, c.docId) (key row) := hrank
      exact not_instantLt_of_rowLt hmark'

theorem inside_of_inWindow {row : ρ} (h : inWindow key q after row = true) :
    inside key q after row = true := by
  obtain ⟨hbounds, hpast⟩ := inWindow_iff.mp h
  refine inside_iff.mpr ⟨hbounds, ?_⟩
  intro c hc
  have hlt := hpast c hc
  unfold instantLt at hlt
  unfold rank KeysetCursor.mark
  cases hdesc : q.descending with
  | false =>
    rw [hdesc] at hlt
    exact Prod.Lex.toLex_lt_toLex.mpr (.inl hlt)
  | true =>
    rw [hdesc] at hlt
    exact Prod.Lex.toLex_lt_toLex.mpr (.inl hlt)

/-- Rows of one collection with one id are one row. -/
theorem Pageable.inj (h : Pageable key docs q) {a b : ρ} (ha : a ∈ docs) (hb : b ∈ docs)
    (hid : (key a).2 = (key b).2) : a = b :=
  List.inj_on_of_nodup_map h.ids ha hb hid

theorem keepRow_subset {found : List ρ} {row : ρ} (hrow : row ∈ docs) (hfound : found ⊆ docs) :
    keepRow key q after found row ⊆ docs := by
  unfold keepRow
  split
  · exact List.append_subset.mpr ⟨hfound, by simpa using hrow⟩
  · exact hfound

theorem keep_nodup {found rows : List ρ} (hfound : (found.map fun r => (key r).2).Nodup) :
    ((keep key q after found rows).map fun r => (key r).2).Nodup := by
  induction rows generalizing found with
  | nil => exact hfound
  | cons row rows ih =>
    apply ih
    unfold keepRow
    split
    · rename_i hnew
      rw [List.map_append, List.nodup_append]
      refine ⟨hfound, by simp, ?_⟩
      rintro t ht u hu rfl
      obtain rfl : t = (key row).2 := by simpa using hu
      exact hnew.2 ht
    · exact hfound

theorem mem_keep (h : Pageable key docs q) {found rows : List ρ} (hrows : rows ⊆ docs)
    (hfound : found ⊆ docs) {a : ρ} :
    a ∈ keep key q after found rows ↔
      a ∈ found ∨ (a ∈ rows ∧ inside key q after a = true) := by
  induction rows generalizing found with
  | nil => simp [keep]
  | cons row rows ih =>
    have hrow : row ∈ docs := hrows List.mem_cons_self
    have hrest : rows ⊆ docs := fun r hr => hrows (List.mem_cons_of_mem _ hr)
    have hkept : keepRow key q after found row ⊆ docs := keepRow_subset hrow hfound
    have hone : a ∈ keepRow key q after found row ↔
        a ∈ found ∨ (a = row ∧ inside key q after a = true) := by
      unfold keepRow
      split
      · rename_i hnew
        rw [List.mem_append, List.mem_singleton]
        constructor
        · rintro (ha | rfl)
          · exact .inl ha
          · exact .inr ⟨rfl, hnew.1⟩
        · rintro (ha | ⟨rfl, -⟩)
          · exact .inl ha
          · exact .inr rfl
      · rename_i hold
        refine ⟨.inl, ?_⟩
        rintro (ha | ⟨rfl, hin⟩)
        · exact ha
        · obtain ⟨b, hb, hid⟩ := List.mem_map.mp (not_not.mp fun hnot => hold ⟨hin, hnot⟩)
          exact h.inj (hfound hb) hrow hid ▸ hb
    have hfold : keep key q after found (row :: rows) =
        keep key q after (keepRow key q after found row) rows := rfl
    rw [hfold, ih hrest hkept, hone, List.mem_cons]
    constructor
    · rintro ((ha | ⟨rfl, hin⟩) | ⟨ha, hin⟩)
      · exact .inl ha
      · exact .inr ⟨.inl rfl, hin⟩
      · exact .inr ⟨.inr ha, hin⟩
    · rintro (ha | ⟨rfl | ha, hin⟩)
      · exact .inl (.inl ha)
      · exact .inl (.inr ⟨rfl, hin⟩)
      · exact .inr ⟨ha, hin⟩

theorem Answers.sameInstant_ok (h : Answers key docs q after backend)
    (hdocs : Pageable key docs q) {t : Instant} (ht : q.withinBounds t = true) :
    sameInstant backend t = .ok (backend.sameInstant t) ∧
      ∀ a, a ∈ backend.sameInstant t ↔ a ∈ docs ∧ (key a).1 = t := by
  have hties := hdocs.ties t ht
  have hlength := h.run_length t
  rw [Nat.min_eq_right (by omega)] at hlength
  have hperm := (h.run_rows t).perm_of_length_le hlength.ge
  constructor
  · unfold sameInstant
    rw [if_neg (by omega)]
  · intro a
    rw [hperm.mem_iff, List.mem_filter, decide_eq_true_eq]

theorem Answers.window_subset (h : Answers key docs q after backend) {a : ρ}
    (ha : a ∈ backend.window) : a ∈ docs ∧ inWindow key q after a = true :=
  List.mem_filter.mp (h.window_rows.subset ha)

/-- A window that is not full holds every row in its range. -/
theorem Answers.window_complete (h : Answers key docs q after backend)
    (hshort : ¬ q.limit < backend.window.length) {a : ρ} (ha : a ∈ docs)
    (hin : inWindow key q after a = true) : a ∈ backend.window := by
  have hlength := h.window_length
  have hperm := h.window_rows.perm_of_length_le (by omega)
  exact hperm.mem_iff.mpr (List.mem_filter.mpr ⟨ha, hin⟩)

theorem edgeOf_spec {window : List ρ} (h : window ≠ []) :
    ∃ edge, edgeOf key q window = some edge ∧ (∃ x ∈ window, (key x).1 = edge) ∧
      ∀ x ∈ window, ¬ instantLt q edge (key x).1 := by
  have hne : (window.map fun row => (key row).1) ≠ [] := by simpa using h
  unfold edgeOf instantLt
  cases q.descending with
  | true =>
    obtain ⟨edge, hedge⟩ := Option.isSome_iff_exists.mp (List.isSome_min?_of_ne_nil hne)
    obtain ⟨hmem, hle⟩ := List.min?_eq_some_iff.mp hedge
    refine ⟨edge, hedge, by simpa using hmem, ?_⟩
    intro x hx
    exact not_dirLt_of_ge (hle _ (List.mem_map_of_mem hx))
  | false =>
    obtain ⟨edge, hedge⟩ := Option.isSome_iff_exists.mp (List.isSome_max?_of_ne_nil hne)
    obtain ⟨hmem, hle⟩ := List.max?_eq_some_iff.mp hedge
    refine ⟨edge, hedge, by simpa using hmem, ?_⟩
    intro x hx
    exact not_dirLt_of_ge (hle _ (List.mem_map_of_mem hx))

variable (key docs q after) in
/-- Everything a page should serve from: the matching rows past the cursor, in order. -/
def remaining : List ρ := sortRows key q (docs.filter (inside key q after))

theorem remaining_pairwise (hdocs : Pageable key docs q) :
    (remaining key docs q after).Pairwise (rowLt key q) :=
  sortRows_pairwise (hdocs.ids.sublist (List.filter_sublist.map _))

theorem mem_remaining {a : ρ} :
    a ∈ remaining key docs q after ↔ a ∈ docs ∧ inside key q after a = true := by
  rw [remaining, mem_sortRows, List.mem_filter]

variable (key) in
/-- Rows a page has collected so far. -/
structure Collected (docs : List ρ) (q : Listing) (after : Option KeysetCursor)
    (found : List ρ) : Prop where
  sound : ∀ a ∈ found, a ∈ docs ∧ inside key q after a = true
  ids : (found.map fun row => (key row).2).Nodup

theorem Collected.keep {found rows : List ρ} (hdocs : Pageable key docs q)
    (h : Collected key docs q after found) (hrows : rows ⊆ docs) :
    Collected key docs q after (keep key q after found rows) where
  sound a ha := by
    obtain ha | ⟨ha, hin⟩ := (mem_keep hdocs hrows fun b hb => (h.sound b hb).1).mp ha
    · exact h.sound a ha
    · exact ⟨hrows ha, hin⟩
  ids := keep_nodup h.ids

theorem Collected.pairwise {found : List ρ} (h : Collected key docs q after found) :
    (sortRows key q found).Pairwise (rowLt key q) := sortRows_pairwise h.ids

theorem Collected.length_le {found : List ρ} (h : Collected key docs q after found) :
    found.length ≤ (remaining key docs q after).length := by
  have hnodup : found.Nodup := List.Nodup.of_map _ h.ids
  exact (hnodup.subperm fun a ha => mem_remaining.mpr (h.sound a ha)).length_le

theorem pageOf_congr {rows rows' : List ρ} (htake : rows.take q.limit = rows'.take q.limit)
    (hmore : q.limit < rows.length ↔ q.limit < rows'.length) :
    pageOf key q rows = pageOf key q rows' := by
  unfold pageOf
  rw [htake]
  simp only [hmore]

theorem Collected.page_of_all {found : List ρ} (hdocs : Pageable key docs q)
    (h : Collected key docs q after found)
    (hall : ∀ a ∈ docs, inside key q after a = true → a ∈ found) :
    sortRows key q found = remaining key docs q after := by
  apply h.pairwise.eq_of_mem_iff (remaining_pairwise hdocs)
  intro a
  rw [mem_sortRows, mem_remaining]
  exact ⟨h.sound a, fun ha => hall a ha.1 ha.2⟩

/-- Rows missing only beyond a cut that a whole page reaches do not change it. -/
theorem Collected.page_of_cut {found : List ρ} (hdocs : Pageable key docs q)
    (h : Collected key docs q after found) {c : ρ → Bool}
    (hdown : ∀ a b, rowLt key q a b → c b = true → c a = true)
    (hbefore : ∀ a ∈ docs, inside key q after a = true → c a = true → a ∈ found)
    (hreach : q.limit ≤ ((sortRows key q found).filter c).length)
    (hfull : q.limit < found.length) :
    pageOf key q (sortRows key q found) = pageOf key q (remaining key docs q after) := by
  apply pageOf_congr
  · apply take_eq_of_cut h.pairwise (remaining_pairwise hdocs) hdown ?_ hreach
    intro a hca
    rw [mem_sortRows, mem_remaining]
    exact ⟨h.sound a, fun ha => hbefore a ha.1 ha.2 hca⟩
  · rw [length_sortRows]
    exact ⟨fun hlt => hlt.trans_le h.length_le, fun _ => hfull⟩

variable (key) in
/-- Rows read from a full window with its far edge at `edge`. -/
structure ReadTo (docs : List ρ) (q : Listing) (after : Option KeysetCursor) (found : List ρ)
    (edge : Instant) : Prop where
  complete : ∀ a ∈ docs, inside key q after a = true → instantLt q (key a).1 edge → a ∈ found
  none_past : ∀ a ∈ found, ¬ instantLt q edge (key a).1
  full : q.limit < found.length

/-- The page ends before the edge, up to where every instant was read whole. -/
theorem ReadTo.page_before {found : List ρ} {edge : Instant} {last : ρ} (hlimit : 1 ≤ q.limit)
    (hdocs : Pageable key docs q) (h : Collected key docs q after found)
    (hread : ReadTo key docs q after found edge)
    (hget : (sortRows key q found)[q.limit - 1]? = some last) (hlast : (key last).1 ≠ edge) :
    pageOf key q (sortRows key q found) = pageOf key q (remaining key docs q after) := by
  have hfound : last ∈ found := mem_sortRows.mp (List.mem_of_getElem? hget)
  have hlt : instantLt q (key last).1 edge := by
    obtain hlt | heq | hgt := @dirLt_trichotomy _ _ q.descending (key last).1 edge
    · exact hlt
    · exact absurd heq hlast
    · exact absurd hgt (hread.none_past last hfound)
  have hdown : ∀ a b, rowLt key q a b → decide (instantLt q (key b).1 edge) = true →
      decide (instantLt q (key a).1 edge) = true := by
    intro a b hab hb
    rw [decide_eq_true_eq] at hb ⊢
    obtain hle | heq | hgt := @dirLt_trichotomy _ _ q.descending (key a).1 (key b).1
    · exact dirLt_trans hle hb
    · rwa [heq]
    · exact absurd hgt (not_instantLt_of_rowLt hab)
  apply h.page_of_cut hdocs hdown ?_ ?_ hread.full
  · intro a ha hin hca
    exact hread.complete a ha hin (of_decide_eq_true hca)
  · have := lt_length_filter_of_cut h.pairwise hdown hget (decide_eq_true hlt)
    omega

/-- The page ends inside the edge's run, and the run was read whole. -/
theorem ReadTo.page_in_run {found run : List ρ} {edge : Instant} (hdocs : Pageable key docs q)
    (h : Collected key docs q after found) (hread : ReadTo key docs q after found edge)
    (hrun : ∀ a, a ∈ run ↔ a ∈ docs ∧ (key a).1 = edge) :
    pageOf key q (sortRows key q (keep key q after found run)) =
      pageOf key q (remaining key docs q after) := by
  have hsub : run ⊆ docs := fun a ha => ((hrun a).mp ha).1
  have hmem : ∀ a, a ∈ keep key q after found run ↔
      a ∈ found ∨ (a ∈ run ∧ inside key q after a = true) := fun a =>
    mem_keep hdocs hsub fun b hb => (h.sound b hb).1
  have hreach : found.length ≤ ((sortRows key q (keep key q after found run)).filter
      fun a => !decide (instantLt q edge (key a).1)).length := by
    refine ((List.Nodup.of_map _ h.ids).subperm ?_).length_le
    intro a ha
    rw [List.mem_filter, mem_sortRows, hmem]
    exact ⟨.inl ha, by simpa using hread.none_past a ha⟩
  have hfull := hread.full
  apply (h.keep hdocs hsub).page_of_cut hdocs (c := fun a => !decide (instantLt q edge (key a).1))
  · intro a b hab hb
    rw [Bool.not_eq_true', decide_eq_false_iff_not] at hb ⊢
    intro hlt
    obtain hle | heq | hgt := @dirLt_trichotomy _ _ q.descending (key a).1 (key b).1
    · exact hb (dirLt_trans hlt hle)
    · exact hb (heq ▸ hlt)
    · exact not_instantLt_of_rowLt hab hgt
  · intro a ha hin hca
    rw [Bool.not_eq_true', decide_eq_false_iff_not] at hca
    rw [hmem]
    obtain hlt | heq | hgt := @dirLt_trichotomy _ _ q.descending (key a).1 edge
    · exact .inl (hread.complete a ha hin hlt)
    · exact .inr ⟨(hrun a).mpr ⟨ha, heq⟩, hin⟩
    · exact absurd hgt hca
  · omega
  · have hle : found.length ≤ (keep key q after found run).length := by
      refine ((List.Nodup.of_map _ h.ids).subperm ?_).length_le
      exact fun a ha => (hmem a).mpr (.inl ha)
    omega

variable (key) in
/-- What a page holds once it has read the cursor's run and the window. -/
structure FirstReads (docs : List ρ) (q : Listing) (after : Option KeysetCursor)
    (backend : Backend ρ) (found : List ρ) : Prop where
  collected : Collected key docs q after found
  run : ∀ a ∈ docs, inside key q after a = true → inWindow key q after a = false → a ∈ found
  window : ∀ a ∈ backend.window, a ∈ found
  nothingElse : ∀ a ∈ found, a ∈ backend.window ∨ inWindow key q after a = false

theorem FirstReads.readTo {found : List ρ} {edge : Instant} (hdocs : Pageable key docs q)
    (hanswers : Answers key docs q after backend)
    (h : FirstReads key docs q after backend found)
    (hfull : q.limit < backend.window.length) (hedge : ∃ x ∈ backend.window, (key x).1 = edge)
    (hlast : ∀ x ∈ backend.window, ¬ instantLt q edge (key x).1) :
    ReadTo key docs q after found edge := by
  obtain ⟨x, hx, rfl⟩ := hedge
  refine ⟨?_, ?_, ?_⟩
  · intro a ha hin hlt
    cases hwin : inWindow key q after a with
    | false => exact h.run a ha hin hwin
    | true =>
      by_contra hnot
      have hnotWindow : a ∉ backend.window := fun hmem => hnot (h.window a hmem)
      exact hanswers.window_first x hx a (List.mem_filter.mpr ⟨ha, hwin⟩) hnotWindow hlt
  · intro a ha
    obtain ha' | hrow := h.nothingElse a ha
    · exact hlast a ha'
    · obtain hwin | ⟨c, hc, hat⟩ := inside_cases (h.collected.sound a ha).2
      · exact absurd hwin (by simp [hrow])
      · have hpast := (inWindow_iff.mp (hanswers.window_subset hx).2).2 c hc
        rw [hat]
        exact fun hlt => dirLt_irrefl _ (dirLt_trans hpast hlt)
  · obtain ⟨rows, hperm, hsub⟩ := hanswers.window_rows
    have hnodup : backend.window.Nodup :=
      hperm.nodup_iff.mp (((List.Nodup.of_map _ hdocs.ids).filter _).sublist hsub)
    exact hfull.trans_le (hnodup.subperm h.window).length_le

theorem FirstReads.completeEdge_page {found : List ρ} (hlimit : 1 ≤ q.limit)
    (hdocs : Pageable key docs q) (hanswers : Answers key docs q after backend)
    (h : FirstReads key docs q after backend found) :
    ∃ rows, completeEdge key q after backend found = .ok rows ∧
      pageOf key q (sortRows key q rows) = pageOf key q (remaining key docs q after) := by
  unfold completeEdge
  split
  swap
  · rename_i hshort
    refine ⟨found, rfl, ?_⟩
    rw [h.collected.page_of_all hdocs]
    intro a ha hin
    cases hwin : inWindow key q after a with
    | true => exact h.window a (hanswers.window_complete hshort ha hwin)
    | false => exact h.run a ha hin hwin
  rename_i hfull
  obtain ⟨edge, hedge, hexists, hlast⟩ :=
    @edgeOf_spec ρ key q backend.window (List.ne_nil_of_length_pos (by omega))
  have hread := h.readTo hdocs hanswers hfull hexists hlast
  obtain ⟨last, hget⟩ : ∃ last, (sortRows key q found)[q.limit - 1]? = some last := by
    refine ⟨_, List.getElem?_eq_getElem ?_⟩
    rw [length_sortRows]
    have := hread.full
    omega
  rw [hget, hedge]
  dsimp only
  split
  · obtain ⟨x, hx, hxedge⟩ := hexists
    have hbounds : q.withinBounds edge = true := by
      rw [← hxedge]
      exact (inWindow_iff.mp (hanswers.window_subset hx).2).1
    obtain ⟨hok, hrun⟩ := hanswers.sameInstant_ok hdocs hbounds
    exact ⟨_, by rw [hok]; rfl, hread.page_in_run hdocs h.collected hrun⟩
  · rename_i hat
    exact ⟨found, rfl, hread.page_before hlimit hdocs h.collected hget hat⟩

/-- The cursor's run is what lies past the cursor outside the window's range. -/
theorem Answers.cursorRun_ok (hanswers : Answers key docs q after backend)
    (hdocs : Pageable key docs q) (hafter : ∀ c ∈ after, q.withinBounds c.instant = true) :
    ∃ run, cursorRun backend after = .ok run ∧ run ⊆ docs ∧
      ∀ a ∈ docs, inside key q after a = true → (inWindow key q after a = false ↔ a ∈ run) := by
  cases after with
  | none =>
    refine ⟨[], rfl, by simp, ?_⟩
    intro a ha hin
    have hwin : inWindow key q none a = true :=
      inWindow_iff.mpr ⟨(inside_iff.mp hin).1, by simp⟩
    simp [hwin]
  | some c =>
    obtain ⟨hok, hmem⟩ := hanswers.sameInstant_ok hdocs (hafter c rfl)
    refine ⟨_, hok, fun a ha => ((hmem a).mp ha).1, ?_⟩
    intro a ha hin
    rw [hmem]
    constructor
    · intro hwin
      obtain hwin' | ⟨c', hc', hat⟩ := inside_cases hin
      · exact absurd hwin' (by simp [hwin])
      · obtain rfl := Option.some.inj hc'
        exact ⟨ha, hat⟩
    · rintro ⟨-, hat⟩
      by_contra hwin
      have hpast := (inWindow_iff.mp (Bool.not_eq_false _ ▸ hwin)).2 c rfl
      exact dirLt_irrefl _ (hat ▸ hpast)

/-- A page over any answers is the first rows of all that remain past the cursor. -/
theorem keysetPage_eq (hlimit : 1 ≤ q.limit) (hdocs : Pageable key docs q)
    (hafter : ∀ c ∈ after, q.withinBounds c.instant = true)
    (hanswers : Answers key docs q after backend) :
    keysetPage key q after backend = .ok (pageOf key q (remaining key docs q after)) := by
  have hempty : Collected key docs q after [] := ⟨by simp, by simp⟩
  have hwindow : backend.window ⊆ docs := fun a ha => (hanswers.window_subset ha).1
  obtain ⟨run, hok, hsub, hrun⟩ := hanswers.cursorRun_ok hdocs hafter
  have hfirst := hempty.keep hdocs hsub
  have hmemFirst : ∀ a, a ∈ keep key q after [] run ↔ a ∈ run ∧ inside key q after a = true := by
    intro a
    simpa using @mem_keep ρ key docs q after hdocs [] run hsub (by simp) a
  have hmem : ∀ a, a ∈ keep key q after (keep key q after [] run) backend.window ↔
      (a ∈ run ∧ inside key q after a = true) ∨
        (a ∈ backend.window ∧ inside key q after a = true) := by
    intro a
    rw [mem_keep hdocs hwindow fun b hb => (hfirst.sound b hb).1, hmemFirst]
  have hreads : FirstReads key docs q after backend
      (keep key q after (keep key q after [] run) backend.window) := by
    refine ⟨hfirst.keep hdocs hwindow, ?_, ?_, ?_⟩
    · intro a ha hin hwin
      exact (hmem a).mpr (.inl ⟨(hrun a ha hin).mp hwin, hin⟩)
    · intro a ha
      exact (hmem a).mpr (.inr ⟨ha, inside_of_inWindow (hanswers.window_subset ha).2⟩)
    · intro a ha
      obtain ⟨ha', hin⟩ | ⟨ha', -⟩ := (hmem a).mp ha
      · exact .inr ((hrun a (hsub ha') hin).mpr ha')
      · exact .inl ha'
  obtain ⟨rows, hrows, hpage⟩ := hreads.completeEdge_page hlimit hdocs hanswers
  unfold keysetPage
  rw [hok]
  simp only [bind, Except.bind]
  rw [hrows]
  simp only
  rw [hpage]

end Answers

end SwarmCloud.Paging
