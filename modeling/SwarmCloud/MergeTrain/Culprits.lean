import SwarmCloud.Lib.GroupTesting
import SwarmCloud.MergeTrain.Bisection

/-! # The bisection finds every culprit

A lane is a lot of group testing: its queue is the pool, the halves and the
running train are the groups, a landing passes a group and an ejection fails
one rider. The ticks of a run are steps of that lot.
-/

namespace SwarmCloud.MergeTrain

open Common Lib

namespace Lane

/-- The queued entries of no half. -/
def pool (lane : Lane) : List String :=
  (lane.entries.filter fun e => e.state = .queued ∧ e.entryId ∉ lane.blocks.flatten).map Entry.entryId

/-- The entries woken with an outcome. -/
def outcomes (lane : Lane) (state : EntryState) : List String :=
  (lane.concluded.filter (·.2 = state)).map Prod.fst

/-- The trains that a step from `lane` to `lane'` has judged. -/
def judged (lane lane' : Lane) : List (List String) :=
  if lane'.doc.train = none then (lane.doc.train.map Train.ids).toList else []

end Lane

open Lane

/-- A lane, and the riders of the trains it has judged. -/
structure History where
  lane : Lane
  past : List (List String)

namespace History

def lot (h : History) : Lot String where
  pool := h.lane.pool
  blocks := h.lane.blocks
  past := h.past
  passed := h.lane.outcomes .landed
  failed := h.lane.outcomes .ejected

/-- The trains composed so far. -/
def trains (h : History) : List (List String) := h.past ++ (h.lane.doc.train.map Train.ids).toList

end History

section Simulation

variable {size : Int} {culprit first : String → Prop} {now : Instant} {tick : Tick} {lane lane' : Lane} {t : Train}
  {past : List (List String)}

theorem outcomes_settle {patch : Entry → Entry} {outcome : Option EntryState} {ids : List String}
    (state : EntryState) :
    (lane.settle patch outcome ids).outcomes state =
      lane.outcomes state ++ if outcome = some state then ids else [] := by
  have hnew : ((ids.filterMap fun id => outcome.map (id, ·)).filter (·.2 = state)).map Prod.fst =
      if outcome = some state then ids else [] := by
    cases outcome with
    | none => simp
    | some s =>
      by_cases hs : s = state
      · simp [hs, List.filter_map, Function.comp_def]
      · simp [hs, List.filter_map, Function.comp_def]
  rw [outcomes, settle, List.filter_append, List.map_append, hnew]
  rfl

theorem pool_congr {f : Entry → Entry} (hid : ∀ e, (f e).entryId = e.entryId)
    (hentries : lane'.entries = lane.entries.map f)
    (hsame : ∀ e ∈ lane.entries, ((f e).state = .queued ∧ e.entryId ∉ lane'.blocks.flatten) ↔
      (e.state = .queued ∧ e.entryId ∉ lane.blocks.flatten)) : lane'.pool = lane.pool := by
  rw [pool, pool, hentries, List.filter_map, List.map_map]
  have hfilter : lane.entries.filter ((fun e : Entry => decide (e.state = .queued ∧
      e.entryId ∉ lane'.blocks.flatten)) ∘ f) =
      lane.entries.filter fun e => e.state = .queued ∧ e.entryId ∉ lane.blocks.flatten := by
    apply List.filter_congr
    intro e he
    simp only [Function.comp_apply, hid, hsame e he]
  rw [hfilter]
  apply List.map_congr_left
  intro e _
  exact hid e

/-- The entries of `first` come before the others in the queue. -/
def Ordered (first : String → Prop) (lane : Lane) : Prop :=
  ∀ a ∈ lane.entries, ∀ b ∈ lane.entries, first a.entryId → ¬ first b.entryId →
    ∀ now, order (a.rider now) < order (b.rider now)

theorem mem_pool {id : String} : id ∈ lane.pool ↔
    ∃ e ∈ lane.entries, e.entryId = id ∧ e.state = .queued ∧ id ∉ lane.blocks.flatten := by
  simp only [pool, List.mem_map, List.mem_filter, decide_eq_true_eq]
  constructor
  · rintro ⟨e, ⟨he, hstate, hout⟩, rfl⟩
    exact ⟨e, he, rfl, hstate, hout⟩
  · rintro ⟨e, he, rfl, hstate, hout⟩
    exact ⟨e, ⟨he, hstate, hout⟩, rfl⟩

theorem pool_nodup (h : Tidy size lane) : lane.pool.Nodup :=
  h.ids.sublist (List.filter_sublist.map Entry.entryId)

/-- A judged train leaves the pool as it was. -/
theorem pool_judged (h : Tidy size lane) (ht : lane.doc.train = some t) (patch : Entry → Entry)
    (hid : ∀ e, (patch e).entryId = e.entryId)
    (hentries : lane'.entries = lane.entries.map fun e => if e.entryId ∈ t.ids then patch e else e)
    (hriders : ∀ e, e.entryId ∈ t.ids → ¬ ((patch e).state = .queued ∧ e.entryId ∉ lane'.blocks.flatten))
    (hothers : ∀ id, id ∉ t.ids → (id ∈ lane'.blocks.flatten ↔ id ∈ lane.blocks.flatten)) :
    lane'.pool = lane.pool := by
  refine pool_congr ?_ hentries ?_
  · intro e
    split
    · exact hid e
    · rfl
  · intro e he
    by_cases hin : e.entryId ∈ t.ids
    · have hriding := (h.riding_iff ht he).mpr hin
      simp only [hin, if_true]
      refine ⟨fun hnew => absurd hnew (hriders e hin), fun hold => ?_⟩
      rw [hriding] at hold
      exact absurd hold.1 (by simp)
    · simp only [hin, if_false, hothers e.entryId hin]

theorem lot_retires (h : Tidy size lane) (ht : lane.doc.train = some t) {c : Conclusion}
    (hstate : c.state ≠ .queued) :
    History.lot ⟨lane.retires c t.ids, past ++ judged lane (lane.retires c t.ids)⟩ =
      { History.lot ⟨lane, past⟩ with
        blocks := lane.doc.halves
        past := past ++ [t.ids]
        passed := lane.outcomes .landed ++ if c.state = .landed then t.ids else []
        failed := lane.outcomes .ejected ++ if c.state = .ejected then t.ids else [] } := by
  have hpool : (lane.retires c t.ids).pool = lane.pool := by
    refine pool_judged h ht c.patch (fun _ => rfl) rfl (fun e _ => by simp [hstate, Conclusion.patch]) ?_
    intro id hid
    rw [blocks_idle rfl, blocks_running ht]
    simp [hid]
  have houtcomes : ∀ state, (lane.retires c t.ids).outcomes state =
      lane.outcomes state ++ if c.state = state then t.ids else [] := by
    intro state
    have hsettled := @outcomes_settle lane c.patch (some c.state) t.ids state
    simp only [Option.some.injEq] at hsettled
    exact hsettled
  rw [History.lot, History.lot]
  simp only [Lot.mk.injEq]
  exact ⟨hpool, blocks_idle rfl, by simp [judged, ht], houtcomes .landed, houtcomes .ejected⟩

theorem lot_splits (h : Tidy size lane) (ht : lane.doc.train = some t) :
    History.lot ⟨lane.splits t.ids, past ++ judged lane (lane.splits t.ids)⟩ =
      { History.lot ⟨lane, past⟩ with
        blocks := lane.doc.halves ++ [(bisect t.ids).2, (bisect t.ids).1]
        past := past ++ [(bisect t.ids).1 ++ (bisect t.ids).2] } := by
  have hhalves : ∀ id, id ∈ (bisect t.ids).2 ∨ id ∈ (bisect t.ids).1 ↔ id ∈ t.ids := by
    intro id
    nth_rewrite 3 [← bisect_append t.ids]
    rw [List.mem_append, or_comm]
  have hpool : (lane.splits t.ids).pool = lane.pool := by
    refine pool_judged h ht requeuePatch (fun _ => rfl) rfl ?_ ?_
    · intro e he hnew
      apply hnew.2
      rw [blocks_idle rfl]
      simp [hhalves, he]
    · intro id hid
      rw [blocks_idle rfl, blocks_running ht]
      simp [hhalves]
  have houtcomes : ∀ state, (lane.splits t.ids).outcomes state = lane.outcomes state := by
    intro state
    have hsettled := @outcomes_settle lane requeuePatch none t.ids state
    simp only [reduceCtorEq, if_false, List.append_nil] at hsettled
    exact hsettled
  rw [History.lot, History.lot, bisect_append]
  simp only [Lot.mk.injEq]
  exact ⟨hpool, blocks_idle rfl, by simp [judged, ht], houtcomes .landed, houtcomes .ejected⟩

theorem lot_boards (blocks' : List (List String)) (hblocks : lane.doc.halves.dropLast ++ [t.ids] = blocks') :
    History.lot ⟨lane.boards t, past ++ judged lane (lane.boards t)⟩ =
      { History.lot ⟨lane, past⟩ with pool := (lane.boards t).pool, blocks := blocks' } := by
  have houtcomes : ∀ state, (lane.boards t).outcomes state = lane.outcomes state := by
    intro state
    have hsettled := @outcomes_settle lane (boardPatch t.id) none t.ids state
    simp only [reduceCtorEq, if_false, List.append_nil] at hsettled
    exact hsettled
  rw [History.lot, History.lot]
  simp only [Lot.mk.injEq]
  refine ⟨trivial, ?_, by simp [judged], houtcomes .landed, houtcomes .ejected⟩
  rw [blocks_running rfl]
  exact hblocks

/-- A half that boards leaves the pool as it was. -/
theorem pool_boards (hidle : lane.doc.train = none)
    (htop : lane.doc.halves = lane.doc.halves.dropLast ++ [t.ids]) : (lane.boards t).pool = lane.pool := by
  have hblocks : (lane.boards t).blocks = lane.blocks := by
    rw [blocks_running rfl, blocks_idle hidle]
    exact htop.symm
  refine @pool_congr _ _ (fun e => if e.entryId ∈ t.ids then boardPatch t.id e else e) ?_ rfl ?_
  · intro e
    split
    · rfl
    · rfl
  · intro e _
    rw [hblocks]
    by_cases hin : e.entryId ∈ t.ids
    · have hflat : e.entryId ∈ lane.blocks.flatten := by
        rw [blocks_idle hidle, htop]
        exact List.mem_flatten.mpr ⟨t.ids, by simp, hin⟩
      simp [hflat]
    · simp [hin]

theorem mem_pool_of_nextBatch (hidle : lane.doc.train = none) (hnone : lane.doc.halves = []) {ids : List String}
    (hids : NextBatch size now lane ids) {id : String} (hid : id ∈ ids) : id ∈ lane.pool := by
  rw [NextBatch, hnone] at hids
  dsimp only [List.getLast?_nil] at hids
  rw [hids] at hid
  obtain ⟨r, hr, rfl⟩ := List.mem_map.mp hid
  obtain ⟨e, he, rfl⟩ := List.mem_map.mp (mem_sortBy.mp (List.mem_of_mem_take hr))
  rw [mem_pool, blocks_idle hidle, hnone]
  obtain ⟨hmem, hstate⟩ := mem_waiting.mp he
  exact ⟨e, hmem, rfl, hstate, by simp⟩

/-- The oldest entry rides in a batch drawn from the queue. -/
theorem nextBatch_first (hordered : Ordered first lane) (hnone : lane.doc.halves = [])
    {ids : List String} (hids : NextBatch size now lane ids) (hsome : ∃ id ∈ lane.pool, first id) :
    ∃ id ∈ ids, first id := by
  rw [NextBatch, hnone] at hids
  dsimp only [List.getLast?_nil] at hids
  obtain ⟨id, hid, hfirst⟩ := hsome
  obtain ⟨a, ha, rfl, hstate, -⟩ := mem_pool.mp hid
  have harider : a.rider now ∈ lane.waiting.map (Entry.rider now) :=
    List.mem_map_of_mem (mem_waiting.mpr ⟨ha, hstate⟩)
  cases hsorted : sortBy order (lane.waiting.map (Entry.rider now)) with
  | nil =>
    rw [← @mem_sortBy _ _ _ order, hsorted] at harider
    cases harider
  | cons r rs =>
    obtain ⟨b, hb, rfl⟩ : ∃ b ∈ lane.waiting, b.rider now = r := by
      rw [← List.mem_map, ← @mem_sortBy _ _ _ order, hsorted]
      exact List.mem_cons_self
    refine ⟨b.entryId, ?_, ?_⟩
    · obtain ⟨k, hk⟩ : ∃ k, (max 1 size).toNat = k + 1 := ⟨(max 1 size).toNat - 1, by omega⟩
      rw [hids]
      refine List.mem_map.mpr ⟨b.rider now, ?_, rfl⟩
      rw [show lane.entries.filter (·.state = .queued) = lane.waiting from rfl, hsorted, hk,
        List.take_succ_cons]
      exact List.mem_cons_self
    · by_contra hlater
      have hlt := hordered a ha b (mem_waiting.mp hb).1 hfirst hlater now
      exact absurd (sortBy_head_least hsorted harider) (not_le.mpr hlt)

theorem draw_perm (h : Tidy size lane) (hidle : lane.doc.train = none) (hnone : lane.doc.halves = [])
    (hids : NextBatch size now lane t.ids) (hnodup : t.ids.Nodup) :
    lane.pool.Perm (t.ids ++ (lane.boards t).pool) := by
  have hblocks : (lane.boards t).blocks = [t.ids] := by
    rw [blocks_running rfl, boards_doc, hnone]
    rfl
  have hrest : (lane.boards t).pool = lane.pool.filter (· ∉ t.ids) := by
    rw [pool, hblocks, pool, blocks_idle hidle, hnone]
    simp only [boards, settle, List.filter_map, List.map_map, List.filter_filter]
    have hfilter : lane.entries.filter ((fun e : Entry => decide (e.state = .queued ∧
        e.entryId ∉ [t.ids].flatten)) ∘ fun e => if e.entryId ∈ t.ids then boardPatch t.id e else e) =
        lane.entries.filter fun e => ((fun id => decide (id ∉ t.ids)) ∘ Entry.entryId) e &&
          decide (e.state = .queued ∧ e.entryId ∉ ([] : List (List String)).flatten) := by
      apply List.filter_congr
      intro e _
      by_cases hin : e.entryId ∈ t.ids
      · simp [hin, boardPatch]
      · simp [hin]
    rw [hfilter]
    apply List.map_congr_left
    intro e _
    simp only [Function.comp_apply]
    split
    · rfl
    · rfl
  rw [hrest]
  have hsub : ∀ id ∈ t.ids, id ∈ lane.pool := fun id hid => mem_pool_of_nextBatch hidle hnone hids hid
  refine (List.perm_ext_iff_of_nodup (pool_nodup h) ?_).mpr ?_
  · refine List.nodup_append.mpr ⟨hnodup, (pool_nodup h).filter _, ?_⟩
    intro a ha b hb hab
    have hout := (List.mem_filter.mp hb).2
    rw [← hab] at hout
    exact absurd ha (by simpa using hout)
  · intro id
    rw [List.mem_append, List.mem_filter, decide_eq_true_eq]
    constructor
    · intro hid
      by_cases hin : id ∈ t.ids
      · exact .inl hin
      · exact .inr ⟨hid, hin⟩
    · rintro (hin | ⟨hid, -⟩)
      · exact hsub id hin
      · exact hid

/-- An ideal tick is a step of the lot, or none. -/
theorem ticked_simulates (h : Tidy size lane) (hordered : Ordered first lane)
    (hticked : Ticked size culprit tick lane lane') :
    History.lot ⟨lane', past ++ judged lane lane'⟩ = History.lot ⟨lane, past⟩ ∨
      Lot.Step culprit first (max 1 size).toNat (History.lot ⟨lane, past⟩)
        (History.lot ⟨lane', past ++ judged lane lane'⟩) := by
  cases hticked with
  | quiet hidle hnone => exact .inl (by simp [judged, hidle])
  | waits hrunning hpending => exact .inl (by simp [judged, hrunning])
  | @composed t hidle hstate hids hnodup hne hriders =>
    obtain htop | ⟨hnone, hlength⟩ := hids.stack
    · refine .inl ?_
      rw [lot_boards lane.blocks (by rw [blocks_idle hidle]; exact htop.symm), pool_boards hidle htop]
      rfl
    · refine .inr ?_
      rw [lot_boards [t.ids] (by rw [hnone]; rfl)]
      refine .draw ?_ (by simpa [Train.ids] using hne) (draw_perm h hidle hnone hids hnodup) hlength
        (nextBatch_first hordered hnone hids)
      rw [History.lot, blocks_idle hidle, hnone]
  | @landed t hrunning hclean =>
    refine .inr ?_
    rw [lot_retires h hrunning (by simp [landing])]
    simp only [landing, if_true, reduceCtorEq, if_false, List.append_nil]
    exact .pass (blocks_running hrunning) hclean
  | @ejected t id c hrunning hlone hculprit hstate =>
    refine .inr ?_
    rw [← hlone, lot_retires h hrunning (by simp [hstate])]
    simp only [hstate, hlone, if_true, reduceCtorEq, if_false, List.append_nil]
    exact .fail (hlone ▸ blocks_running hrunning) hculprit
  | @split t hrunning hmany =>
    refine .inr ?_
    obtain ⟨-, -, hfirst, hrest⟩ := bisect_shorter hmany
    rw [lot_splits h hrunning]
    refine .split ?_ hfirst hrest
    rw [bisect_append]
    exact blocks_running hrunning

end Simulation

/-! ## Runs -/

inductive Event
  | arrive (e : Entry)
  | tick (tick : Tick)

def Event.isTick : Event → Bool
  | .arrive _ => false
  | .tick _ => true

/-- An arrival, or an ideal tick. -/
inductive Goes (key : LaneKey) (size : Int) (culprit : String → Prop) (h : History) :
    Event → History → Prop
  | arrive {e : Entry} (hstate : e.state = .queued) (hid : e.entryId ∉ h.lane.entries.map Entry.entryId)
      (hnumber : e.number ∉ h.lane.entries.map Entry.number) :
    Goes key size culprit h (.arrive e) ⟨h.lane.arrive e, h.past⟩
  | tick {tick : Tick} (hideal : Ideal key size culprit tick h.lane) :
    Goes key size culprit h (.tick tick)
      ⟨h.lane.step key tick, h.past ++ judged h.lane (h.lane.step key tick)⟩

/-- A lane whose entries all wait. -/
def History.opening (seq : Int) (entries : List Entry) : History := ⟨⟨entries, ⟨seq, none, []⟩, []⟩, []⟩

section Runs

variable {key : LaneKey} {size : Int} {culprit first : String → Prop} {tick : Tick} {lane lane' : Lane}
  {h h' : History} {event : Event}

/-- A tick patches the entries; what it sorts them by stays. -/
theorem ticked_entries (hticked : Ticked size culprit tick lane lane') :
    ∃ f : Entry → Entry, (∀ e now, (f e).rider now = e.rider now) ∧ lane'.entries = lane.entries.map f := by
  have hsettled : ∀ (patch : Entry → Entry) (ids : List String), (∀ e now, (patch e).rider now = e.rider now) →
      ∀ e now, (if e.entryId ∈ ids then patch e else e).rider now = e.rider now := by
    intro patch ids hpatch e now
    split
    · exact hpatch e now
    · rfl
  cases hticked with
  | quiet hidle hnone => exact ⟨id, fun _ _ => rfl, (List.map_id _).symm⟩
  | waits hrunning hpending => exact ⟨id, fun _ _ => rfl, (List.map_id _).symm⟩
  | @composed t => exact ⟨_, hsettled (boardPatch t.id) t.ids (fun _ _ => rfl), rfl⟩
  | @landed t => exact ⟨_, hsettled (landing t.id).patch t.ids (fun _ _ => rfl), rfl⟩
  | @ejected t id c => exact ⟨_, hsettled c.patch [id] (fun _ _ => rfl), rfl⟩
  | @split t => exact ⟨_, hsettled requeuePatch t.ids (fun _ _ => rfl), rfl⟩

theorem ticked_ids (hticked : Ticked size culprit tick lane lane') :
    lane'.entries.map Entry.entryId = lane.entries.map Entry.entryId := by
  obtain ⟨f, hf, hentries⟩ := ticked_entries hticked
  rw [hentries, List.map_map]
  apply List.map_congr_left
  intro e _
  exact congrArg Rider.entryId (hf e tick.now)

theorem ordered_ticked (hordered : Ordered first lane) (hticked : Ticked size culprit tick lane lane') :
    Ordered first lane' := by
  obtain ⟨f, hf, hentries⟩ := ticked_entries hticked
  have hid : ∀ e, (f e).entryId = e.entryId := fun e => congrArg Rider.entryId (hf e tick.now)
  intro a' ha' b' hb'
  rw [hentries] at ha' hb'
  obtain ⟨a, ha, rfl⟩ := List.mem_map.mp ha'
  obtain ⟨b, hb, rfl⟩ := List.mem_map.mp hb'
  rw [hid, hid]
  intro hfirst hlater now
  rw [hf, hf]
  exact hordered a ha b hb hfirst hlater now

/-- The states of the entries, and the outcomes, as a run leaves them. -/
def Settled (lane : Lane) : Prop :=
  (∀ e ∈ lane.entries, e.state = .queued ∨ e.state = .riding ∨
    (e.state = .landed ∨ e.state = .ejected) ∧ (e.entryId, e.state) ∈ lane.concluded) ∧
  ∀ p ∈ lane.concluded, p.2 = .landed ∨ p.2 = .ejected

theorem Settled.settle (hsettled : Settled lane) {patch : Entry → Entry} {outcome : Option EntryState}
    {ids : List String} (hid : ∀ e, (patch e).entryId = e.entryId)
    (hnone : outcome = none → ∀ e, (patch e).state = .queued ∨ (patch e).state = .riding)
    (hsome : ∀ s, outcome = some s → (s = .landed ∨ s = .ejected) ∧ ∀ e, (patch e).state = s) :
    Settled (lane.settle patch outcome ids) := by
  constructor
  · intro e' he'
    obtain ⟨e, he, rfl⟩ := List.mem_map.mp he'
    by_cases hin : e.entryId ∈ ids
    · rw [if_pos hin]
      cases houtcome : outcome with
      | none =>
        obtain hstate | hstate := hnone houtcome e
        · exact .inl hstate
        · exact .inr (.inl hstate)
      | some s =>
        obtain ⟨hs, hpatch⟩ := hsome s houtcome
        rw [hpatch, hid]
        refine .inr (.inr ⟨hs, List.mem_append_right _ ?_⟩)
        exact List.mem_filterMap.mpr ⟨e.entryId, hin, rfl⟩
    · rw [if_neg hin]
      obtain hstate | hstate | ⟨hstate, hmem⟩ := hsettled.1 e he
      · exact .inl hstate
      · exact .inr (.inl hstate)
      · exact .inr (.inr ⟨hstate, List.mem_append_left _ hmem⟩)
  · intro p hp
    obtain hp | hp := List.mem_append.mp hp
    · exact hsettled.2 p hp
    · obtain ⟨id, -, hp⟩ := List.mem_filterMap.mp hp
      obtain ⟨s, houtcome, rfl⟩ := Option.map_eq_some_iff.mp hp
      exact (hsome s houtcome).1

theorem Settled.ticked (hsettled : Settled lane) (hticked : Ticked size culprit tick lane lane') :
    Settled lane' := by
  cases hticked with
  | quiet hidle hnone => exact hsettled
  | waits hrunning hpending => exact hsettled
  | @composed t =>
    exact @Settled.settle lane hsettled (boardPatch t.id) none t.ids (fun _ => rfl)
      (fun _ _ => .inr rfl) (by simp)
  | @landed t =>
    refine @Settled.settle lane hsettled (landing t.id).patch (some .landed) t.ids (fun _ => rfl)
      (by simp) ?_
    rintro s ⟨⟩
    exact ⟨.inl rfl, fun _ => rfl⟩
  | @ejected t id c hrunning hlone hculprit hstate =>
    refine @Settled.settle lane hsettled c.patch (some c.state) [id] (fun _ => rfl) (by simp) ?_
    rintro s ⟨⟩
    exact ⟨.inr hstate, fun _ => rfl⟩
  | @split t =>
    exact @Settled.settle lane hsettled requeuePatch none t.ids (fun _ => rfl)
      (fun _ _ => .inl rfl) (by simp)

/-- What holds along a run. -/
structure Kept (size : Int) (culprit : String → Prop) (h : History) : Prop where
  tidy : Tidy size h.lane
  sound : h.lot.Sound culprit
  items : h.lot.items.Perm (h.lane.entries.map Entry.entryId)
  settled : Settled h.lane

theorem Kept.ticked (hkept : Kept size culprit h) {tick : Tick} (hideal : Ideal key size culprit tick h.lane) :
    Kept size culprit ⟨h.lane.step key tick, h.past ++ judged h.lane (h.lane.step key tick)⟩ := by
  have hticked := step_ticked hkept.tidy hideal
  have hsim := @ticked_simulates size culprit (fun _ => False) tick h.lane _ h.past hkept.tidy
    (fun _ _ _ _ hfirst => hfirst.elim) hticked
  refine ⟨hticked.tidy hkept.tidy, ?_, ?_, hkept.settled.ticked hticked⟩
  · obtain hsame | hstep := hsim
    · rw [hsame]
      exact hkept.sound
    · exact hkept.sound.step hstep
  · rw [ticked_ids hticked]
    obtain hsame | hstep := hsim
    · rw [hsame]
      exact hkept.items
    · exact hstep.items_perm.trans hkept.items

theorem lot_arrive {e : Entry} (hkept : Kept size culprit h) (hstate : e.state = .queued)
    (hid : e.entryId ∉ h.lane.entries.map Entry.entryId) :
    History.lot ⟨h.lane.arrive e, h.past⟩ = h.lot.arrive e.entryId := by
  have hblocks : e.entryId ∉ h.lane.blocks.flatten := by
    intro hflat
    apply hid
    rw [← hkept.items.mem_iff]
    exact List.mem_append_right _ (List.mem_append_left _ hflat)
  have hpool : (h.lane.arrive e).pool = h.lane.pool ++ [e.entryId] := by
    rw [pool, pool, Lane.arrive, List.filter_append, List.map_append]
    congr 1
    have hsame : Lane.blocks { h.lane with entries := h.lane.entries ++ [e] } = h.lane.blocks := rfl
    rw [hsame, List.filter_cons_of_pos (by simp only [hstate, hblocks, not_false_eq_true, and_self, decide_true])]
    rfl
  rw [History.lot, hpool]
  rfl

theorem Kept.step (hkept : Kept size culprit h) (hgoes : Goes key size culprit h event h') :
    Kept size culprit h' := by
  cases hgoes with
  | @arrive e hstate hid hnumber =>
    have hlot := lot_arrive hkept hstate hid
    have hfresh : e.entryId ∉ h.lot.items := by
      rw [hkept.items.mem_iff]
      exact hid
    refine ⟨hkept.tidy.arrive hstate hid hnumber, ?_, ?_, ?_, hkept.settled.2⟩
    · rw [hlot]
      exact hkept.sound.arrive hfresh
    · rw [hlot, Lane.arrive, List.map_append, List.map_singleton]
      refine (Lot.items_arrive _ _).trans ?_
      exact (hkept.items.cons _).trans (List.perm_append_singleton _ _).symm
    · intro e' he'
      obtain he' | he' := List.mem_append.mp he'
      · exact hkept.settled.1 e' he'
      · rw [List.mem_singleton.mp he']
        exact .inl hstate
  | tick hideal => exact hkept.ticked hideal

theorem Kept.opening {entries : List Entry} (seq : Int) (hids : (entries.map Entry.entryId).Nodup)
    (hnumbers : (entries.map Entry.number).Nodup) (hqueued : ∀ e ∈ entries, e.state = .queued) :
    Kept size culprit (History.opening seq entries) := by
  have hpool : (History.opening seq entries).lane.pool = entries.map Entry.entryId := by
    rw [pool]
    congr 1
    refine List.filter_eq_self.mpr ?_
    intro e he
    simp [History.opening, blocks, hqueued e he]
  have hlot : (History.opening seq entries).lot = ⟨entries.map Entry.entryId, [], [], [], []⟩ := by
    rw [History.lot, hpool]
    rfl
  have hitems : (History.opening seq entries).lot.items = entries.map Entry.entryId := by
    rw [hlot]
    simp [Lot.items]
  refine ⟨⟨hids, hnumbers, ?_, ?_, ?_, ?_, ?_⟩, ?_, ?_, ?_, ?_⟩
  · intro e he
    rw [hqueued e he]
    simp [History.opening]
  · simp [History.opening]
  · simp [History.opening]
  · simp [History.opening, blocks]
  · simp [History.opening, blocks]
  · rw [hlot]
    refine ⟨by simpa [Lot.items] using hids, ?_, ?_, ?_, ?_, ?_, ?_, ?_⟩
    all_goals simp [Lot.weight, Lot.items]
  · rw [hitems]
    exact List.Perm.refl _
  · intro e he
    exact .inl (hqueued e he)
  · simp [History.opening]

end Runs

/-! ## Every entry is concluded once -/

/-- A culprit was ejected or another entry landed, and its step heard of it once. -/
def Concluded (culprit : String → Prop) (lane : Lane) (e : Entry) : Prop :=
  (culprit e.entryId ∧ e.state = .ejected ∨ ¬ culprit e.entryId ∧ e.state = .landed) ∧
    lane.concluded.filter (·.1 = e.entryId) = [(e.entryId, e.state)]

/-- The entry is still in the lane, and its step has heard of nothing. -/
def Open (lane : Lane) (e : Entry) : Prop :=
  (e.state = .queued ∨ e.state = .riding) ∧ lane.concluded.filter (·.1 = e.entryId) = []

theorem Concluded.not_open {culprit : String → Prop} {lane : Lane} {e : Entry}
    (hconcluded : Concluded culprit lane e) : ¬ Open lane e := by
  rintro ⟨hlive, -⟩
  obtain ⟨⟨-, hstate⟩ | ⟨-, hstate⟩, -⟩ := hconcluded
  · simp [hstate] at hlive
  · simp [hstate] at hlive

section Concluded

variable {key : LaneKey} {size : Int} {culprit first : String → Prop} {h h' : History} {event : Event}

theorem concluded_perm (hkept : Kept size culprit h) :
    (h.lane.concluded.map Prod.fst).Perm (h.lot.passed ++ h.lot.failed) := by
  have hejected : h.lane.concluded.filter (fun p => !decide (p.2 = .landed)) =
      h.lane.concluded.filter (·.2 = .ejected) := by
    apply List.filter_congr
    intro p hp
    obtain hstate | hstate := hkept.settled.2 p hp
    · simp [hstate]
    · simp [hstate]
  have hsplit := (List.filter_append_perm (fun p => decide (p.2 = .landed)) h.lane.concluded).map Prod.fst
  rw [hejected, List.map_append] at hsplit
  exact hsplit.symm

theorem mem_outcomes {lane : Lane} {id : String} {state : EntryState} :
    id ∈ lane.outcomes state ↔ (id, state) ∈ lane.concluded := by
  simp [outcomes]

/-- The entries still open are those of the lot that wait or ride. -/
theorem Kept.live_iff (hkept : Kept size culprit h) {e : Entry} (he : e ∈ h.lane.entries) :
    e.entryId ∈ h.lot.pool ++ h.lot.blocks.flatten ↔ e.state = .queued ∨ e.state = .riding := by
  have hnodup := hkept.sound.nodup
  rw [Lot.items, ← List.append_assoc] at hnodup
  have happart := List.disjoint_of_nodup_append hnodup
  constructor
  · intro hlive
    obtain hstate | hstate | ⟨hstate, hmem⟩ := hkept.settled.1 e he
    · exact .inl hstate
    · exact .inr hstate
    · refine (happart hlive ?_).elim
      rw [List.mem_append, History.lot, mem_outcomes, mem_outcomes]
      obtain hlanded | hejected := hstate
      · exact .inl (hlanded ▸ hmem)
      · exact .inr (hejected ▸ hmem)
  · rintro (hstate | hstate)
    · rw [List.mem_append]
      by_cases hflat : e.entryId ∈ h.lane.blocks.flatten
      · exact .inr hflat
      · exact .inl (mem_pool.mpr ⟨e, he, rfl, hstate, hflat⟩)
    · obtain ⟨t, ht, hin⟩ := (hkept.tidy.riding e he).mp hstate
      refine List.mem_append_right _ (List.mem_flatten.mpr ⟨t.ids, ?_, hin⟩)
      rw [History.lot, blocks_running ht]
      simp

theorem Kept.open_or_concluded (hkept : Kept size culprit h) {e : Entry} (he : e ∈ h.lane.entries) :
    Open h.lane e ∨ Concluded culprit h.lane e := by
  have hnodup := hkept.sound.nodup
  rw [Lot.items, ← List.append_assoc] at hnodup
  have happart := List.disjoint_of_nodup_append hnodup
  have hkeys := concluded_perm hkept
  by_cases hlive : e.state = .queued ∨ e.state = .riding
  · refine .inl ⟨hlive, ?_⟩
    rw [List.filter_eq_nil_iff]
    intro p hp hid
    have hout : e.entryId ∈ h.lot.passed ++ h.lot.failed := by
      rw [← hkeys.mem_iff]
      exact List.mem_map.mpr ⟨p, hp, by simpa using hid⟩
    exact happart ((hkept.live_iff he).mpr hlive) hout
  · obtain hstate | hstate | ⟨hstate, hmem⟩ := hkept.settled.1 e he
    · exact absurd (.inl hstate) hlive
    · exact absurd (.inr hstate) hlive
    · refine .inr ⟨?_, ?_⟩
      · obtain hlanded | hejected := hstate
        · rw [hlanded] at hmem
          exact .inr ⟨hkept.sound.passed _ (mem_outcomes.mpr hmem), hlanded⟩
        · rw [hejected] at hmem
          exact .inl ⟨hkept.sound.failed _ (mem_outcomes.mpr hmem), hejected⟩
      · have hdistinct : (h.lane.concluded.map Prod.fst).Nodup :=
          hkeys.nodup_iff.mpr (List.nodup_append.mp hnodup).2.1
        exact filter_key hdistinct hmem

theorem Kept.trains_distinct (hkept : Kept size culprit h) :
    h.trains.Pairwise fun t t' => ¬ ∀ id, id ∈ t ↔ id ∈ t' := by
  rw [History.trains]
  cases ht : h.lane.doc.train with
  | none =>
    have hdistinct : h.past.Pairwise fun t t' => ¬ ∀ id, id ∈ t ↔ id ∈ t' := hkept.sound.distinct
    simpa using hdistinct
  | some t =>
    refine hkept.sound.distinct_judged ?_
    rw [History.lot, blocks_running ht]
    simp

theorem Kept.trains_le (hkept : Kept size culprit h) : h.trains.length ≤ 2 * h.lane.entries.length := by
  have hbound := hkept.sound.bound
  have hlength := hkept.items.length_eq
  rw [List.length_map] at hlength
  rw [History.trains, List.length_append]
  rw [show h.lot.past = h.past from rfl] at hbound
  cases ht : h.lane.doc.train with
  | none =>
    simp only [Option.map_none, Option.toList_none, List.length_nil]
    omega
  | some t =>
    have hblock : t.ids ∈ h.lot.blocks := by
      rw [History.lot, blocks_running ht]
      simp
    have hpos := Lot.weight_pos hblock (hkept.sound.nonempty t.ids hblock)
    simp only [Option.map_some, Option.toList_some, List.length_singleton]
    omega

/-- A lane with no open entry has neither a train nor a half left. -/
theorem Kept.at_rest (hkept : Kept size culprit h) (hclosed : ∀ e ∈ h.lane.entries, ¬ Open h.lane e) :
    h.lane.doc.train = none ∧ h.lane.doc.halves = [] := by
  have hblocks : h.lane.blocks = [] := by
    rw [List.eq_nil_iff_forall_not_mem]
    intro b hb
    obtain ⟨id, hid⟩ := List.exists_mem_of_ne_nil b (hkept.sound.nonempty b hb)
    have hflat : id ∈ h.lot.pool ++ h.lot.blocks.flatten :=
      List.mem_append_right _ (List.mem_flatten.mpr ⟨b, hb, hid⟩)
    obtain ⟨e, he, rfl⟩ : ∃ e ∈ h.lane.entries, e.entryId = id := by
      rw [← List.mem_map, ← hkept.items.mem_iff, Lot.items, ← List.append_assoc]
      exact List.mem_append_left _ hflat
    obtain hopen | hconcluded := hkept.open_or_concluded he
    · exact hclosed e he hopen
    · have hlive := (hkept.live_iff he).mp hflat
      obtain ⟨⟨-, hstate⟩ | ⟨-, hstate⟩, -⟩ := hconcluded
      · simp [hstate] at hlive
      · simp [hstate] at hlive
  rw [blocks, List.append_eq_nil_iff] at hblocks
  refine ⟨?_, hblocks.1⟩
  simpa using hblocks.2

end Concluded

/-! ## A lane is worked off -/

/-- An entry was queued before another one. -/
def Before (a b : Entry) : Prop :=
  ∃ x y, a.enqueuedAt = some x ∧ b.enqueuedAt = some y ∧ (x < y ∨ x = y ∧ a.number < b.number)

/-- The tests of the running train have a verdict. -/
def Decided (tick : Tick) (lane : Lane) : Prop :=
  ∀ t ∈ lane.doc.train,
    judge (tick.reading t.headSha).state t.startedAt tick.now tick.maxTrainAgeMinutes ≠ .pending

/-- A tick with a verdict, or an arrival behind the entries of `known`. -/
def Works (key : LaneKey) (size : Int) (culprit : String → Prop) (known : List Entry) (h : History)
    (event : Event) (h' : History) : Prop :=
  Goes key size culprit h event h' ∧
    match event with
    | .arrive e => ∀ a ∈ known, Before a e
    | .tick tick => Decided tick h.lane

section Works

variable {key : LaneKey} {size : Int} {culprit : String → Prop} {known : List Entry} {h h' : History}
  {event : Event}

theorem Before.order_lt {a b : Entry} (hbefore : Before a b) (now : Instant) :
    order (a.rider now) < order (b.rider now) := by
  obtain ⟨x, y, hx, hy, hlt⟩ := hbefore
  rw [order, order, Prod.Lex.toLex_lt_toLex]
  simp only [Entry.rider, hx, hy, Option.getD_some]
  obtain hlt | ⟨rfl, hnumber⟩ := hlt
  · exact .inl hlt
  · exact .inr ⟨rfl, Prod.Lex.toLex_lt_toLex.mpr (.inl hnumber)⟩

/-- A decided tick ends the train or composes one, unless nothing is queued. -/
theorem step_progress (hkept : Kept size culprit h) {tick : Tick}
    (hideal : Ideal key size culprit tick h.lane) (hdecided : Decided tick h.lane) :
    (h.lane.doc.train.isSome ∧ (h.lane.step key tick).doc.train = none) ∨
      (h.lane.doc.train = none ∧ (h.lane.step key tick).doc.train.isSome) ∨
      (h.lane.doc.train = none ∧ ∀ e ∈ h.lane.entries, e.state ≠ .queued) := by
  have hticked := step_ticked hkept.tidy hideal
  revert hticked
  generalize h.lane.step key tick = lane'
  intro hticked
  cases hticked with
  | quiet hidle hnone => exact .inr (.inr ⟨hidle, hnone⟩)
  | waits hrunning hpending => exact absurd hpending (hdecided _ hrunning)
  | composed hidle => exact .inr (.inl ⟨hidle, rfl⟩)
  | landed hrunning => exact .inl ⟨by rw [hrunning]; rfl, rfl⟩
  | ejected hrunning => exact .inl ⟨by rw [hrunning]; rfl, rfl⟩
  | split hrunning => exact .inl ⟨by rw [hrunning]; rfl, rfl⟩

/-- What holds `n` ticks after `h₀`, as long as one of its entries is open. -/
structure Worked (size : Int) (culprit : String → Prop) (h₀ : History) (n : Nat) (h : History) : Prop where
  kept : Kept size culprit h
  present : ∀ id ∈ h₀.lane.entries.map Entry.entryId, id ∈ h.lane.entries.map Entry.entryId
  known : ∀ e ∈ h.lane.entries, e.entryId ∈ h₀.lane.entries.map Entry.entryId →
    ∃ a ∈ h₀.lane.entries, ∀ now, e.rider now = a.rider now
  ordered : Ordered (· ∈ h₀.lane.entries.map Entry.entryId) h.lane
  prompt : h.lot.Prompt (· ∈ h₀.lane.entries.map Entry.entryId) (max 1 size).toNat
    (h₀.past.length + 2 * (max 1 size).toNat * h₀.lane.entries.length)
  ticks : (∃ id ∈ h.lot.pool ++ h.lot.blocks.flatten, id ∈ h₀.lane.entries.map Entry.entryId) →
    n + 2 * h₀.past.length ≤ 2 * h.past.length + h.lane.doc.train.toList.length

theorem Worked.start (hkept : Kept size culprit h) : Worked size culprit h 0 h where
  kept := hkept
  present := fun _ hid => hid
  known := fun e he _ => ⟨e, he, fun _ => rfl⟩
  ordered := fun _ _ b hb _ hlater => absurd (List.mem_map_of_mem hb) hlater
  prompt := by
    have hlength := hkept.items.length_eq
    rw [List.length_map] at hlength
    rw [← hlength]
    exact Lot.Prompt.start (by omega) h.lot
  ticks := fun _ => by omega

theorem Worked.arrive {h₀ : History} {n : Nat} (hworked : Worked size culprit h₀ n h) {e : Entry}
    (hstate : e.state = .queued) (hid : e.entryId ∉ h.lane.entries.map Entry.entryId)
    (hnumber : e.number ∉ h.lane.entries.map Entry.number) (hbehind : ∀ a ∈ h₀.lane.entries, Before a e) :
    Worked size culprit h₀ n ⟨h.lane.arrive e, h.past⟩ := by
  have hlot := lot_arrive hworked.kept hstate hid
  have hlater : e.entryId ∉ h₀.lane.entries.map Entry.entryId := fun hin => hid (hworked.present _ hin)
  refine ⟨hworked.kept.step (@Goes.arrive ⟨"", "", "", ""⟩ _ _ _ _ hstate hid hnumber), ?_, ?_, ?_, ?_, ?_⟩
  · intro id hin
    rw [Lane.arrive, List.map_append]
    exact List.mem_append_left _ (hworked.present id hin)
  · intro e' he' hin
    obtain he' | he' := List.mem_append.mp he'
    · exact hworked.known e' he' hin
    · rw [List.mem_singleton.mp he'] at hin
      exact absurd hin hlater
  · intro a ha b hb hfirst hlate now
    obtain ha | ha := List.mem_append.mp ha
    · obtain hb | hb := List.mem_append.mp hb
      · exact hworked.ordered a ha b hb hfirst hlate now
      · obtain ⟨a₀, ha₀, hsame⟩ := hworked.known a ha hfirst
        rw [List.mem_singleton.mp hb, hsame]
        exact (hbehind a₀ ha₀).order_lt now
    · rw [List.mem_singleton.mp ha] at hfirst
      exact absurd hfirst hlater
  · rw [hlot]
    exact hworked.prompt.arrive hlater
  · rw [hlot]
    rintro ⟨id, hin, hfirst⟩
    apply hworked.ticks
    simp only [Lot.arrive, List.mem_append, List.mem_singleton] at hin
    obtain (hin | rfl) | hin := hin
    · exact ⟨id, List.mem_append_left _ hin, hfirst⟩
    · exact absurd hfirst hlater
    · exact ⟨id, List.mem_append_right _ hin, hfirst⟩

theorem Worked.ticked {h₀ : History} {n : Nat} (hworked : Worked size culprit h₀ n h) {tick : Tick}
    (hideal : Ideal key size culprit tick h.lane) (hdecided : Decided tick h.lane) :
    Worked size culprit h₀ (n + 1)
      ⟨h.lane.step key tick, h.past ++ judged h.lane (h.lane.step key tick)⟩ := by
  have hticked := step_ticked hworked.kept.tidy hideal
  have hkept := hworked.kept.ticked hideal
  have hsim := @ticked_simulates size culprit _ tick h.lane _ h.past hworked.kept.tidy hworked.ordered hticked
  refine ⟨hkept, ?_, ?_, ordered_ticked hworked.ordered hticked, ?_, ?_⟩
  · rw [ticked_ids hticked]
    exact hworked.present
  · obtain ⟨f, hf, hentries⟩ := ticked_entries hticked
    intro e' he' hin
    rw [hentries] at he'
    obtain ⟨e, he, rfl⟩ := List.mem_map.mp he'
    have hid : (f e).entryId = e.entryId := congrArg Rider.entryId (hf e tick.now)
    obtain ⟨a, ha, hsame⟩ := hworked.known e he (hid ▸ hin)
    exact ⟨a, ha, fun now => (hf e now).trans (hsame now)⟩
  · obtain hsame | hstep := hsim
    · rw [hsame]
      exact hworked.prompt
    · exact hworked.prompt.step hworked.kept.sound hstep
  · rintro ⟨id, hafter, hfirst⟩
    have hlive : id ∈ h.lot.pool ++ h.lot.blocks.flatten := by
      obtain hsame | hstep := hsim
      · rw [hsame] at hafter
        exact hafter
      · exact hstep.live hafter
    have hticks := hworked.ticks ⟨id, hlive, hfirst⟩
    obtain ⟨hrunning, hended⟩ | ⟨hidle, hstarted⟩ | ⟨hidle, hnone⟩ :=
      step_progress hworked.kept hideal hdecided
    · obtain ⟨t, ht⟩ := Option.isSome_iff_exists.mp hrunning
      simp only [judged, hended, ht, if_true, Option.map_some, Option.toList_some, Option.toList_none,
        List.length_append, List.length_singleton, List.length_nil] at hticks ⊢
      omega
    · obtain ⟨t, ht⟩ := Option.isSome_iff_exists.mp hstarted
      simp only [judged, hidle, ht, reduceCtorEq, if_false, Option.toList_some, Option.toList_none,
        List.append_nil, List.length_singleton, List.length_nil] at hticks ⊢
      omega
    · obtain ⟨e, he, rfl⟩ := List.mem_map.mp (hworked.present id hfirst)
      obtain hqueued | hriding := (hworked.kept.live_iff he).mp hlive
      · exact absurd hqueued (hnone e he)
      · exact absurd hriding (hworked.kept.tidy.not_riding hidle he)

theorem Worked.run {h₀ : History} {events : List Event} (hkept : Kept size culprit h₀)
    (hrun : Run (Works key size culprit h₀.lane.entries) h₀ events h) :
    Worked size culprit h₀ (events.countP Event.isTick) h := by
  induction hrun with
  | nil => exact .start hkept
  | @snoc events s s' event hrun hworks ih =>
    obtain ⟨hgoes, hmore⟩ := hworks
    rw [List.countP_append]
    cases hgoes with
    | arrive hstate hid hnumber => exact ih.arrive hstate hid hnumber hmore
    | tick hideal => exact ih.ticked hideal hmore

/-- Twice as many ticks as there can be trains leave none of the first entries open. -/
theorem Worked.concluded {h₀ : History} {n : Nat} (hworked : Worked size culprit h₀ n h)
    (hlong : 4 * (max 1 size).toNat * h₀.lane.entries.length ≤ n) {e : Entry} (he : e ∈ h.lane.entries)
    (hfirst : e.entryId ∈ h₀.lane.entries.map Entry.entryId) : Concluded culprit h.lane e := by
  obtain hopen | hconcluded := hworked.kept.open_or_concluded he
  · have hlive := (hworked.kept.live_iff he).mpr hopen.1
    have hticks := hworked.ticks ⟨e.entryId, hlive, hfirst⟩
    have hpast : h.past.length < h₀.past.length + 2 * (max 1 size).toNat * h₀.lane.entries.length :=
      hworked.prompt.past_lt (by omega) hlive hfirst hworked.kept.sound.nonempty
    have htrain : h.lane.doc.train.toList.length ≤ 1 := by
      cases h.lane.doc.train with
      | none => simp
      | some t => simp
    rw [Nat.mul_assoc] at hlong hpast
    omega
  · exact hconcluded

/-- The bisection is sound and complete: every entry hears of one outcome, the
right one, the trains are few and never the same twice, and the entries of any
moment are all concluded after a bounded number of decided ticks, whatever
arrives behind them. -/
theorem bisection_finds_every_culprit (key : LaneKey) (size : Int) (culprit : String → Prop) (seq : Int)
    {entries : List Entry} (hids : (entries.map Entry.entryId).Nodup)
    (hnumbers : (entries.map Entry.number).Nodup) (hqueued : ∀ e ∈ entries, e.state = .queued)
    {events : List Event} {h : History}
    (hrun : Run (Goes key size culprit) (History.opening seq entries) events h) :
    (∀ e ∈ h.lane.entries, Open h.lane e ∨ Concluded culprit h.lane e) ∧
    ((∀ e ∈ h.lane.entries, ¬ Open h.lane e) → h.lane.doc.train = none ∧ h.lane.doc.halves = []) ∧
    h.trains.length ≤ 2 * h.lane.entries.length ∧
    (h.trains.Pairwise fun t t' => ¬ ∀ id, id ∈ t ↔ id ∈ t') ∧
    ∀ (more : List Event) (h' : History), Run (Works key size culprit h.lane.entries) h more h' →
      4 * (max 1 size).toNat * h.lane.entries.length ≤ more.countP Event.isTick →
      (∀ e ∈ h'.lane.entries, e.entryId ∈ h.lane.entries.map Entry.entryId →
        Concluded culprit h'.lane e) ∧
      ((∀ e ∈ h'.lane.entries, e.entryId ∈ h.lane.entries.map Entry.entryId) →
        h'.lane.doc.train = none ∧ h'.lane.doc.halves = []) := by
  have hstep : ∀ s event s', Kept size culprit s → Goes key size culprit s event s' → Kept size culprit s' :=
    fun _ _ _ hkept hgoes => hkept.step hgoes
  have hkept : Kept size culprit h := Run.invariant hstep (.opening seq hids hnumbers hqueued) hrun
  refine ⟨fun e he => hkept.open_or_concluded he, hkept.at_rest, hkept.trains_le, hkept.trains_distinct, ?_⟩
  intro more h' hworks hlong
  have hworked := Worked.run hkept hworks
  refine ⟨fun e he hfirst => hworked.concluded hlong he hfirst, fun hall => ?_⟩
  apply hworked.kept.at_rest
  intro e he hopen
  exact (hworked.concluded hlong he (hall e he)).not_open hopen

end Works

section Sample

def sampleKey : LaneKey := ⟨"mtl-0123456789abcdef", "acme", "acme/site", "main"⟩

def sampleEntry (n : Nat) : Entry where
  entryId := "entry-" ++ toString n
  taskId := "task-" ++ toString n
  number := n
  head := "head-" ++ toString n
  enqueuedAt := some n
  state := .queued
  trainId := none
  returns := 0
  reason := none
  detail := ""

/-- A tick that reads two parked steps and their open pull requests. -/
def sampleTick (reading : Reading) : Tick where
  now := 10
  trainSize := 2
  maxTrainAgeMinutes := 60
  task := fun id =>
    let n := if id = "task-1" then 1 else 2
    some ⟨"acme", .parked, "merge", some "acme/site", some Lane.ciPending, some Lane.trainWaiting,
      some (sampleEntry n).number, some (sampleEntry n).head⟩
  pull := fun number => ⟨false, "open", if number = 1 then "head-1" else "head-2", "main"⟩
  baseHead := some "base"
  conflict := fun _ => none
  trainHead := some "merged"
  reading := fun _ => ⟨reading, [], []⟩
  refusal := fun _ => none

def sampleStart : History := History.opening 0 [sampleEntry 1, sampleEntry 2]

theorem bisection_finds_every_culprit_of_two : ∃ events h,
    Run (Goes sampleKey 2 (· = "entry-1")) sampleStart events h ∧
      h.lane.doc.halves = [["entry-2"], ["entry-1"]] ∧ h.trains = [["entry-1", "entry-2"]] ∧
      h.trains.length ≤ 2 * h.lane.entries.length ∧
      ∀ e ∈ h.lane.entries, Open h.lane e ∨ Concluded (· = "entry-1") h.lane e := by
  have hfirst : Ideal sampleKey 2 (· = "entry-1") (sampleTick .green) sampleStart.lane :=
    ⟨rfl, by decide, by decide, by decide, rfl, by decide, by
      intro t ht
      cases ht⟩
  have hsecond : Ideal sampleKey 2 (· = "entry-1") (sampleTick .red)
      (sampleStart.lane.step sampleKey (sampleTick .green)) := by
    refine ⟨rfl, by decide, by decide, by decide, rfl, by decide, ?_⟩
    intro t ht
    have hids : (sampleStart.lane.step sampleKey (sampleTick .green)).doc.train.map Train.ids =
        some ["entry-1", "entry-2"] := by decide
    rw [Option.mem_def.mp ht, Option.map_some, Option.some.injEq] at hids
    exact ⟨"entry-1", by simp [hids], rfl⟩
  have hrun := Run.snoc (Run.snoc Run.nil (Goes.tick hfirst)) (Goes.tick hsecond)
  have hall := bisection_finds_every_culprit sampleKey 2 (· = "entry-1") 0
    (by decide) (by decide) (by decide) hrun
  exact ⟨_, _, hrun, by decide, by decide, hall.2.2.1, hall.1⟩

end Sample

end SwarmCloud.MergeTrain
