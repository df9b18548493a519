import SwarmCloud.Paging.OnePage

/-! # Following a listing's tokens

A client starts without a cursor and sends back each token it is handed. Every
page is read from the collection as it then is, so a visit names its own rows
and its backend's answers.
-/

namespace SwarmCloud.Paging

open Common Lib

/-- One page's read: the rows the listing's base query matches at the time, and
the answers to whatever cursor is sent. -/
structure Visit (ρ : Type) where
  docs : List ρ
  answer : Option KeysetCursor → Backend ρ

section Model

variable {ρ : Type} (key : ρ → Instant × String) (q : Listing) (visit : Nat → Visit ρ)

/-- At most `fuel` pages from visit `n` on: what they served, and whether the
listing ended. -/
def follow : Nat → Nat → Option KeysetCursor → Except PageError (List (List ρ) × Bool)
  | 0, _, _ => .ok ([], false)
  | fuel + 1, n, after => do
    let page ← keysetPage key q after ((visit n).answer after)
    match page.nextPageToken with
    | none => .ok ([page.items], true)
    | some token =>
      let cursor ← decodeKeyset token q.scope q.order
      let (pages, ended) ← follow fuel (n + 1) (some cursor)
      .ok (page.items :: pages, ended)

/-- Visits a listing can make: pageable rows, and answers a backend may give. -/
def Served : Prop :=
  ∀ n, Pageable key (visit n).docs q ∧
    ∀ after, Answers key (visit n).docs q after ((visit n).answer after)

end Model

section Pages

variable {ρ : Type} {key : ρ → Instant × String} {q : Listing} {docs : List ρ}
  {after : Option KeysetCursor}

def cursorAt (key : ρ → Instant × String) (row : ρ) : KeysetCursor := ⟨(key row).1, (key row).2⟩

/-- A page ends the listing, or hands out the cursor of its last row. -/
theorem pageOf_cases (hlimit : 1 ≤ q.limit) (hdocs : Pageable key docs q) :
    ((pageOf key q (remaining key docs q after)).nextPageToken = none ∧
      (pageOf key q (remaining key docs q after)).items = remaining key docs q after) ∨
    ∃ front last rest token, remaining key docs q after = front ++ last :: rest ∧
      (pageOf key q (remaining key docs q after)).items = front ++ [last] ∧
      (pageOf key q (remaining key docs q after)).nextPageToken = some token ∧
      decodeKeyset token q.scope q.order = .ok (cursorAt key last) ∧ rest ≠ [] := by
  unfold pageOf
  by_cases hmore : q.limit < (remaining key docs q after).length
  · right
    obtain ⟨front, last, hfront⟩ : ∃ front last,
        (remaining key docs q after).take q.limit = front ++ [last] := by
      refine ⟨_, _, (List.dropLast_append_getLast ?_).symm⟩
      apply List.ne_nil_of_length_pos
      rw [List.length_take]
      omega
    have hsplit := List.take_append_drop q.limit (remaining key docs q after)
    have hmem : last ∈ remaining key docs q after := by
      apply List.mem_of_mem_take
      rw [hfront]
      exact List.mem_append_right _ List.mem_cons_self
    refine ⟨front, last, (remaining key docs q after).drop q.limit,
      encodeKeyset q.scope q.order (key last).1 (key last).2, ?_, hfront, ?_, ?_, ?_⟩
    · rw [hfront, List.append_assoc, List.singleton_append] at hsplit
      exact hsplit.symm
    · dsimp only
      rw [if_pos hmore, hfront, List.getLast?_append_of_ne_nil _ (by simp), List.getLast?_singleton]
      rfl
    · have hnamed := hdocs.named last (mem_remaining.mp hmem).1
      simp [decodeKeyset, encodeKeyset, hnamed, cursorAt]
    · apply List.ne_nil_of_length_pos
      rw [List.length_drop]
      omega
  · left
    exact ⟨if_neg hmore, List.take_of_length_le (not_lt.mp hmore)⟩

theorem inside_cursorAt_iff {last a : ρ} : inside key q (some (cursorAt key last)) a = true ↔
    q.withinBounds (key a).1 = true ∧ rowLt key q last a := by
  rw [inside_iff]
  constructor
  · rintro ⟨hbounds, hmark⟩
    exact ⟨hbounds, hmark _ rfl⟩
  · rintro ⟨hbounds, hlt⟩
    refine ⟨hbounds, ?_⟩
    rintro c hc
    obtain rfl := Option.some.inj hc
    exact hlt

/-- A row past a served row is past the cursor that row was served from. -/
theorem inside_of_rowLt {last a : ρ} (hlast : inside key q after last = true)
    (hbounds : q.withinBounds (key a).1 = true) (hlt : rowLt key q last a) :
    inside key q after a = true :=
  inside_iff.mpr ⟨hbounds, fun c hc => dirLt_trans ((inside_iff.mp hlast).2 c hc) hlt⟩

/-- Over unchanged rows the next page starts where this one stopped. -/
theorem remaining_cursorAt {front rest : List ρ} {last : ρ} (hdocs : Pageable key docs q)
    (h : remaining key docs q after = front ++ last :: rest) :
    remaining key docs q (some (cursorAt key last)) = rest := by
  have hsorted := @remaining_pairwise ρ key docs q after hdocs
  rw [h, List.pairwise_append, List.pairwise_cons] at hsorted
  obtain ⟨-, ⟨hlast, hrest⟩, hcross⟩ := hsorted
  have hlastIn : last ∈ docs ∧ inside key q after last = true := by
    rw [← mem_remaining, h]
    exact List.mem_append_right _ List.mem_cons_self
  apply (remaining_pairwise hdocs).eq_of_mem_iff hrest
  intro a
  rw [mem_remaining, inside_cursorAt_iff]
  constructor
  · rintro ⟨ha, hbounds, hlt⟩
    have hmem : a ∈ front ++ last :: rest :=
      h ▸ mem_remaining.mpr ⟨ha, inside_of_rowLt hlastIn.2 hbounds hlt⟩
    rw [List.mem_append, List.mem_cons] at hmem
    obtain hmem | rfl | hmem := hmem
    · exact absurd (rowLt_trans hlt (hcross a hmem last List.mem_cons_self)) (rowLt_irrefl _)
    · exact absurd hlt (rowLt_irrefl _)
    · exact hmem
  · intro ha
    have hmem : a ∈ remaining key docs q after := by
      rw [h]
      exact List.mem_append_right _ (List.mem_cons_of_mem _ ha)
    obtain ⟨hdoc, hin⟩ := mem_remaining.mp hmem
    exact ⟨hdoc, (inside_iff.mp hin).1, hlast a ha⟩

end Pages

section Runs

variable {ρ : Type} {key : ρ → Instant × String} {q : Listing} {visit : Nat → Visit ρ}
  {after : Option KeysetCursor} {n : Nat}

/-- One page of a listing, whatever the backend answers. -/
theorem follow_succ (hlimit : 1 ≤ q.limit) (hserved : Served key q visit)
    (hafter : ∀ c ∈ after, q.withinBounds c.instant = true) (fuel : Nat) :
    follow key q visit (fuel + 1) n after =
        .ok ([remaining key (visit n).docs q after], true) ∨
      ∃ front last rest, remaining key (visit n).docs q after = front ++ last :: rest ∧
        q.withinBounds (key last).1 = true ∧
        ∀ pages ended, follow key q visit fuel (n + 1) (some (cursorAt key last)) =
            .ok (pages, ended) →
          follow key q visit (fuel + 1) n after = .ok ((front ++ [last]) :: pages, ended) := by
  obtain ⟨hdocs, hanswers⟩ := hserved n
  have hpage := keysetPage_eq hlimit hdocs hafter (hanswers after)
  obtain ⟨htoken, hitems⟩ | ⟨front, last, rest, token, hsplit, hitems, htoken, hdecode, -⟩ :=
    @pageOf_cases ρ key q (visit n).docs after hlimit hdocs
  · left
    rw [follow, hpage]
    simp only [bind, Except.bind]
    rw [htoken]
    simp only
    rw [hitems]
  · right
    refine ⟨front, last, rest, hsplit, ?_, ?_⟩
    · have hmem : last ∈ remaining key (visit n).docs q after := by
        rw [hsplit]
        exact List.mem_append_right _ List.mem_cons_self
      exact (inside_iff.mp (mem_remaining.mp hmem).2).1
    · intro pages ended hrest
      rw [follow, hpage]
      simp only [bind, Except.bind]
      rw [htoken]
      simp only
      rw [hdecode]
      simp only
      rw [hrest]
      simp only
      rw [hitems]

/-- Over unchanged rows the pages end and join to all that remains. -/
theorem follow_unchanged (hlimit : 1 ≤ q.limit) (hserved : Served key q visit) {docs : List ρ}
    (hdocs : ∀ m, (visit m).docs = docs) {fuel : Nat}
    (hafter : ∀ c ∈ after, q.withinBounds c.instant = true)
    (hfuel : (remaining key docs q after).length < fuel) :
    ∃ pages, follow key q visit fuel n after = .ok (pages, true) ∧
      pages.flatten = remaining key docs q after := by
  induction fuel generalizing n after with
  | zero => exact absurd hfuel (Nat.not_lt_zero _)
  | succ fuel ih =>
    obtain hend | ⟨front, last, rest, hsplit, hbounds, hnext⟩ :=
      @follow_succ ρ key q visit after n hlimit hserved hafter fuel
    · rw [hdocs] at hend
      exact ⟨_, hend, by simp⟩
    · rw [hdocs] at hsplit
      have hpageable : Pageable key docs q := hdocs n ▸ (hserved n).1
      have hrest := remaining_cursorAt hpageable hsplit
      rw [hsplit, List.length_append, List.length_cons] at hfuel
      obtain ⟨pages, hpages, hflat⟩ := @ih (some (cursorAt key last)) (n + 1)
        (by rintro c hc; obtain rfl := Option.some.inj hc; exact hbounds) (by rw [hrest]; omega)
      refine ⟨_, hnext pages true hpages, ?_⟩
      rw [List.flatten_cons, hflat, hrest, hsplit, List.append_assoc, List.singleton_append]

/-- What the pages from visit `n` on served, over rows that may change between them. -/
structure Outcome (key : ρ → Instant × String) (q : Listing) (visit : Nat → Visit ρ) (n : Nat)
    (after : Option KeysetCursor) (pages : List (List ρ)) (ended : Bool) : Prop where
  sorted : pages.flatten.Pairwise (rowLt key q)
  sound : ∀ a ∈ pages.flatten, inside key q after a = true ∧
    ∃ m, n ≤ m ∧ m < n + pages.length ∧ a ∈ (visit m).docs
  complete : ended = true → ∀ r, inside key q after r = true →
    (∀ m, n ≤ m → m < n + pages.length → r ∈ (visit m).docs) → r ∈ pages.flatten

theorem Outcome.last (hpageable : Pageable key (visit n).docs q) :
    Outcome key q visit n after [remaining key (visit n).docs q after] true := by
  refine ⟨?_, ?_, ?_⟩
  · simpa using remaining_pairwise hpageable
  · intro a ha
    obtain ⟨hdoc, hin⟩ := mem_remaining.mp (by simpa using ha)
    exact ⟨hin, n, le_rfl, by simp, hdoc⟩
  · intro _ r hin hpresent
    simpa using mem_remaining.mpr ⟨hpresent n le_rfl (by simp), hin⟩

/-- A page in front of what the pages from its last row on served. -/
theorem Outcome.cons {front rest : List ρ} {last : ρ} {pages : List (List ρ)} {ended : Bool}
    (hpageable : Pageable key (visit n).docs q)
    (hsplit : remaining key (visit n).docs q after = front ++ last :: rest)
    (hrest : Outcome key q visit (n + 1) (some (cursorAt key last)) pages ended) :
    Outcome key q visit n after ((front ++ [last]) :: pages) ended := by
  have hsorted := @remaining_pairwise ρ key (visit n).docs q after hpageable
  rw [hsplit, ← List.singleton_append, ← List.append_assoc, List.pairwise_append] at hsorted
  have hitem : ∀ a ∈ front ++ [last], a ∈ (visit n).docs ∧ inside key q after a = true := by
    intro a ha
    rw [← mem_remaining, hsplit, ← List.singleton_append, ← List.append_assoc]
    exact List.mem_append_left _ ha
  have hlast := (hitem last (List.mem_append_right _ List.mem_cons_self)).2
  have hupTo : ∀ a ∈ front ++ [last], a = last ∨ rowLt key q a last := by
    intro a ha
    rw [List.mem_append, List.mem_singleton] at ha
    obtain ha | rfl := ha
    · exact .inr ((List.pairwise_append.mp hsorted.1).2.2 a ha last List.mem_cons_self)
    · exact .inl rfl
  have hpast : ∀ a ∈ pages.flatten, q.withinBounds (key a).1 = true ∧ rowLt key q last a :=
    fun a ha => inside_cursorAt_iff.mp (hrest.sound a ha).1
  refine ⟨?_, ?_, ?_⟩
  · rw [List.flatten_cons, List.pairwise_append]
    refine ⟨hsorted.1, hrest.sorted, ?_⟩
    intro a ha b hb
    obtain rfl | hlt := hupTo a ha
    · exact (hpast b hb).2
    · exact rowLt_trans hlt (hpast b hb).2
  · intro a ha
    rw [List.flatten_cons, List.mem_append] at ha
    rw [List.length_cons]
    obtain ha | ha := ha
    · exact ⟨(hitem a ha).2, n, le_rfl, by omega, (hitem a ha).1⟩
    · obtain ⟨hin, m, hm, hm', hdoc⟩ := hrest.sound a ha
      exact ⟨inside_of_rowLt hlast (hpast a ha).1 (hpast a ha).2, m, by omega, by omega, hdoc⟩
  · intro hended r hin hpresent
    rw [List.length_cons] at hpresent
    rw [List.flatten_cons, List.mem_append]
    have hmem : r ∈ remaining key (visit n).docs q after :=
      mem_remaining.mpr ⟨hpresent n le_rfl (by omega), hin⟩
    rw [hsplit, ← List.singleton_append, ← List.append_assoc, List.mem_append] at hmem
    obtain hmem | hmem := hmem
    · exact .inl hmem
    · right
      apply hrest.complete hended r
      · exact inside_cursorAt_iff.mpr ⟨(inside_iff.mp hin).1,
          hsorted.2.2 last (List.mem_append_right _ List.mem_cons_self) r hmem⟩
      · intro m hm hm'
        exact hpresent m (by omega) (by omega)

theorem follow_outcome (hlimit : 1 ≤ q.limit) (hserved : Served key q visit) (fuel : Nat)
    (hafter : ∀ c ∈ after, q.withinBounds c.instant = true) :
    ∃ pages ended, follow key q visit fuel n after = .ok (pages, ended) ∧
      Outcome key q visit n after pages ended := by
  induction fuel generalizing n after with
  | zero => exact ⟨[], false, rfl, ⟨by simp, by simp, by simp⟩⟩
  | succ fuel ih =>
    have hpageable := (hserved n).1
    obtain hend | ⟨front, last, rest, hsplit, hbounds, hnext⟩ :=
      @follow_succ ρ key q visit after n hlimit hserved hafter fuel
    · exact ⟨_, _, hend, Outcome.last hpageable⟩
    · obtain ⟨pages, ended, hpages, hrest⟩ := @ih (some (cursorAt key last)) (n + 1)
        (by rintro c hc; obtain rfl := Option.some.inj hc; exact hbounds)
      exact ⟨_, _, hnext pages ended hpages, hrest.cons hpageable hsplit⟩

end Runs

/-- The rows of some pages that carry a row's id. -/
def servedAs {ρ : Type} (key : ρ → Instant × String) (pages : List (List ρ)) (row : ρ) : List ρ :=
  pages.flatten.filter fun a => (key a).2 = (key row).2

/-- Rows with the id of a row present throughout are that row, served at most once. -/
theorem Outcome.servedAs_cases {ρ : Type} {key : ρ → Instant × String} {q : Listing}
    {visit : Nat → Visit ρ} {pages : List (List ρ)} {ended : Bool}
    (h : Outcome key q visit 0 none pages ended) (hserved : Served key q visit) {r : ρ}
    (hpresent : ∀ m < pages.length, r ∈ (visit m).docs) :
    (servedAs key pages r = [] ∧ r ∉ pages.flatten) ∨ servedAs key pages r = [r] := by
  have hsame : ∀ a ∈ servedAs key pages r, a = r := by
    intro a ha
    obtain ⟨hmem, hid⟩ := List.mem_filter.mp ha
    obtain ⟨-, m, -, hm, hdoc⟩ := h.sound a hmem
    rw [Nat.zero_add] at hm
    exact (hserved m).1.inj hdoc (hpresent m hm) (of_decide_eq_true hid)
  have hnodup : (servedAs key pages r).Nodup := h.sorted.nodup.filter _
  cases hlist : servedAs key pages r with
  | nil =>
    refine .inl ⟨rfl, ?_⟩
    intro hmem
    have hin : r ∈ servedAs key pages r := List.mem_filter.mpr ⟨hmem, decide_eq_true rfl⟩
    exact absurd (hlist ▸ hin) List.not_mem_nil
  | cons a rest =>
    right
    rw [hlist] at hsame hnodup
    obtain rfl := hsame a List.mem_cons_self
    rw [List.nodup_cons] at hnodup
    have hrest : rest = [] := by
      rw [List.eq_nil_iff_forall_not_mem]
      intro b hb
      exact hnodup.1 (hsame b (List.mem_cons_of_mem _ hb) ▸ hb)
    rw [hrest]

/-- Paging neither skips nor repeats, whatever the backend chooses among equal
timestamps and whatever else comes and goes between pages. -/
structure PagesExactly {ρ : Type} (key : ρ → Instant × String) (q : Listing)
    (visit : Nat → Visit ρ) : Prop where
  unchanged : ∀ docs, (∀ n, (visit n).docs = docs) → ∃ pages,
    follow key q visit (docs.length + 1) 0 none = .ok (pages, true) ∧
      pages.flatten = sortRows key q (docs.filter fun row => q.withinBounds (key row).1)
  changing : ∀ fuel, ∃ pages ended, follow key q visit fuel 0 none = .ok (pages, ended) ∧
    ∀ r, q.withinBounds (key r).1 = true → (∀ n < pages.length, r ∈ (visit n).docs) →
      (servedAs key pages r = [] ∨ servedAs key pages r = [r]) ∧
        (ended = true → servedAs key pages r = [r])

theorem keyset_pages_exactly {ρ : Type} {key : ρ → Instant × String} {q : Listing}
    {visit : Nat → Visit ρ} (hlimit : 1 ≤ q.limit) (hserved : Served key q visit) :
    PagesExactly key q visit where
  unchanged docs hdocs := by
    have hall : docs.filter (inside key q none) =
        docs.filter fun row => q.withinBounds (key row).1 := by
      apply List.filter_congr
      intro row _
      simp [inside]
    obtain ⟨pages, hpages, hflat⟩ := @follow_unchanged ρ key q visit none 0 hlimit hserved docs
      hdocs (docs.length + 1) (by simp) (by
        rw [remaining, length_sortRows]
        exact Nat.lt_succ_of_le (List.length_filter_le _ _))
    exact ⟨pages, hpages, by rw [hflat, remaining, hall]⟩
  changing fuel := by
    obtain ⟨pages, ended, hpages, houtcome⟩ :=
      @follow_outcome ρ key q visit none 0 hlimit hserved fuel (by simp)
    refine ⟨pages, ended, hpages, ?_⟩
    intro r hbounds hpresent
    have hcases := houtcome.servedAs_cases hserved hpresent
    refine ⟨hcases.imp_left And.left, ?_⟩
    intro hended
    obtain ⟨-, hmissing⟩ | hone := hcases
    · refine absurd (houtcome.complete hended r (inside_iff.mpr ⟨hbounds, by simp⟩) ?_) hmissing
      intro m _ hm
      exact hpresent m (by omega)
    · exact hone

/-- A backend that breaks ties by id: one of the answers there always are. -/
def backendOver {ρ : Type} (key : ρ → Instant × String) (docs : List ρ) (q : Listing)
    (after : Option KeysetCursor) : Backend ρ where
  window := (sortRows key q (docs.filter (inWindow key q after))).take (q.limit + 1)
  sameInstant t := (docs.filter fun row => (key row).1 = t).take (tieReadLimit + 1)

theorem backendOver_answers {ρ : Type} {key : ρ → Instant × String} {docs : List ρ} {q : Listing}
    (hdocs : Pageable key docs q) (after : Option KeysetCursor) :
    Answers key docs q after (backendOver key docs q after) where
  window_rows := (List.take_sublist _ _).subperm.trans (sortRows_perm _).subperm
  window_length := by
    rw [backendOver, List.length_take, length_sortRows]
  window_first x hx y hy hnot := by
    have hsorted := @sortRows_pairwise ρ key q _
      (hdocs.ids.sublist (List.filter_sublist.map _) :
        ((docs.filter (inWindow key q after)).map fun row => (key row).2).Nodup)
    rw [← List.take_append_drop (q.limit + 1)
      (sortRows key q (docs.filter (inWindow key q after))), List.pairwise_append] at hsorted
    have hmem : y ∈ sortRows key q (docs.filter (inWindow key q after)) := mem_sortRows.mpr hy
    rw [← List.take_append_drop (q.limit + 1)
      (sortRows key q (docs.filter (inWindow key q after))), List.mem_append] at hmem
    exact not_instantLt_of_rowLt (hsorted.2.2 x hx y (hmem.resolve_left hnot))
  run_rows t := (List.take_sublist _ _).subperm
  run_length t := List.length_take

def tiedListing : Listing := ⟨1, true, none, none, "tasks"⟩

/-- Two rows of one instant, unchanged between visits. -/
def tiedVisit (_n : Nat) : Visit (Instant × String) :=
  ⟨[(0, "a"), (0, "b")], backendOver (fun row => row) [(0, "a"), (0, "b")] tiedListing⟩

theorem keyset_pages_exactly_tied :
    Served (fun row => row) tiedListing tiedVisit ∧
      PagesExactly (fun row => row) tiedListing tiedVisit ∧
      (follow (fun row => row) tiedListing tiedVisit 3 0 none).toOption =
        some ([[(0, "b")], [(0, "a")]], true) := by
  have hdocs : Pageable (fun row : Instant × String => row) [(0, "a"), (0, "b")] tiedListing :=
    ⟨by decide, by decide, fun t _ => (List.length_filter_le _ _).trans (by decide)⟩
  have hserved : Served (fun row => row) tiedListing tiedVisit :=
    fun _ => ⟨hdocs, backendOver_answers hdocs⟩
  exact ⟨hserved, keyset_pages_exactly (by decide) hserved, by decide⟩

end SwarmCloud.Paging
