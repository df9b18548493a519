import SwarmCloud.Lib.Keyed
import SwarmCloud.Lib.Runs
import SwarmCloud.MergeTrain.Lane

/-! # What a tick does where only culprits fail

Where nothing goes wrong but culprits, a tick of a lane composes a train, waits
for it, lands it, ejects its one rider or splits it (`Ticked`). Between ticks the
untested halves and the running train are disjoint blocks of live entries.
-/

namespace SwarmCloud.MergeTrain

open Common Lib

namespace Lane

/-! ## Writing many entries -/

/-- The entries named by `ids` patched, and their outcomes recorded in that order. -/
def settle (lane : Lane) (patch : Entry → Entry) (outcome : Option EntryState) (ids : List String) : Lane :=
  { lane with
    entries := lane.entries.map fun e => if e.entryId ∈ ids then patch e else e
    concluded := lane.concluded ++ ids.filterMap fun id => outcome.map (id, ·) }

def Present (lane : Lane) (expect : List EntryState) (rider : TrainRider) : Prop :=
  ∃ e ∈ lane.entries, e.entryId = rider.entryId ∧ e.head = rider.head ∧ e.state ∈ expect

def Distinct (lane : Lane) : Prop := (lane.entries.map Entry.entryId).Nodup

section Settle

variable {lane : Lane} {patch : Entry → Entry} {outcome : Option EntryState} {id : String}
  {ids : List String} {expect : List EntryState} {rider : TrainRider}

theorem settle_nil : lane.settle patch outcome [] = lane := by
  simp [settle]

theorem settle_cons (hpatch : ∀ e, (patch e).entryId = e.entryId) (hid : id ∉ ids) :
    lane.settle patch outcome (id :: ids) =
      (lane.settle patch outcome [id]).settle patch outcome ids := by
  simp only [settle, List.map_map, Lane.mk.injEq, true_and]
  constructor
  · apply List.map_congr_left
    intro e _
    by_cases he : e.entryId = id
    · simp [he, hpatch, hid]
    · simp [he]
  · rw [List.append_assoc, ← List.filterMap_append]
    rfl

theorem settle_map {β : Type} {f : Entry → β} (hpatch : ∀ e, f (patch e) = f e) :
    (lane.settle patch outcome ids).entries.map f = lane.entries.map f := by
  simp only [settle, List.map_map]
  apply List.map_congr_left
  intro e _
  simp only [Function.comp_apply]
  split
  · exact hpatch e
  · rfl

theorem settle_distinct (hpatch : ∀ e, (patch e).entryId = e.entryId) (h : lane.Distinct) :
    (lane.settle patch outcome ids).Distinct := by
  rw [Distinct, settle_map hpatch]
  exact h

theorem Present.settle (hid : rider.entryId ∉ ids) (h : lane.Present expect rider) :
    (lane.settle patch outcome ids).Present expect rider := by
  obtain ⟨e, he, heid, hhead, hstate⟩ := h
  refine ⟨e, ?_, heid, hhead, hstate⟩
  rw [← heid] at hid
  exact List.mem_map.mpr ⟨e, he, if_neg hid⟩

theorem setEntry_eq (hdistinct : lane.Distinct) (h : lane.Present expect rider) :
    lane.setEntry rider.entryId expect rider.head patch =
      some (lane.settle patch none [rider.entryId]) := by
  obtain ⟨e, he, hid, hhead, hstate⟩ := h
  have hfind : lane.entries.find? (·.entryId = rider.entryId) = some e := by
    rw [← hid]
    exact find?_key hdistinct he
  rw [setEntry, hfind]
  simp [hstate, hhead, Lane.settle]

/-- A loop that moves one present rider after the other, and keeps what `g`
collects, moves them all. -/
theorem foldl_settle {σ : Type} {f : Lane × σ → TrainRider → Lane × σ} {g : σ → TrainRider → σ}
    {riders : List TrainRider} (hpatch : ∀ e, (patch e).entryId = e.entryId)
    (hf : ∀ (lane : Lane) (found : σ), ∀ rider ∈ riders, lane.Distinct → lane.Present expect rider →
      f (lane, found) rider = (lane.settle patch outcome [rider.entryId], g found rider))
    (hnodup : (riders.map TrainRider.entryId).Nodup) (hdistinct : lane.Distinct)
    (hpresent : ∀ rider ∈ riders, lane.Present expect rider) (found : σ) :
    riders.foldl f (lane, found) =
      (lane.settle patch outcome (riders.map TrainRider.entryId), riders.foldl g found) := by
  induction riders generalizing lane found with
  | nil => rw [List.map_nil, settle_nil, List.foldl_nil, List.foldl_nil]
  | cons rider riders ih =>
    rw [List.map_cons, List.nodup_cons] at hnodup
    have hhere := hf lane found rider List.mem_cons_self hdistinct (hpresent rider List.mem_cons_self)
    rw [List.foldl_cons, hhere, List.map_cons, settle_cons hpatch hnodup.1]
    apply ih
    · intro lane found r hr
      exact hf lane found r (List.mem_cons_of_mem _ hr)
    · exact hnodup.2
    · exact settle_distinct hpatch hdistinct
    · intro r hr
      refine (hpresent r (List.mem_cons_of_mem _ hr)).settle ?_
      rw [List.mem_singleton]
      intro heq
      exact hnodup.1 (heq ▸ List.mem_map_of_mem hr)

/-- The same for a loop that collects nothing. -/
theorem foldl_settle_lane {f : Lane → TrainRider → Lane} {riders : List TrainRider}
    (hpatch : ∀ e, (patch e).entryId = e.entryId)
    (hf : ∀ lane : Lane, ∀ rider ∈ riders, lane.Distinct → lane.Present expect rider →
      f lane rider = lane.settle patch outcome [rider.entryId])
    (hnodup : (riders.map TrainRider.entryId).Nodup) (hdistinct : lane.Distinct)
    (hpresent : ∀ rider ∈ riders, lane.Present expect rider) :
    riders.foldl f lane = lane.settle patch outcome (riders.map TrainRider.entryId) := by
  have hpair : ∀ lane : Lane, riders.foldl (fun (p : Lane × Unit) r => (f p.1 r, p.2)) (lane, ()) =
      (riders.foldl f lane, ()) := by
    intro lane
    clear hf hnodup hpresent
    induction riders generalizing lane with
    | nil => rfl
    | cons rider riders ih => exact ih (f lane rider)
  have hall := @foldl_settle lane patch outcome expect Unit (fun p r => (f p.1 r, p.2)) (fun u _ => u)
    riders hpatch (fun lane _ r hr hd hp => by rw [hf lane r hr hd hp]) hnodup hdistinct hpresent ()
  rw [hpair] at hall
  exact congrArg Prod.fst hall

end Settle

/-- A loop that lets every entry through collects them in order. -/
theorem foldl_collect {σ α β : Type} {f : σ × List β → α → σ × List β} {g : α → β} {s : σ} {l : List α}
    (h : ∀ a ∈ l, ∀ found, f (s, found) a = (s, found ++ [g a])) (found : List β) :
    l.foldl f (s, found) = (s, found ++ l.map g) := by
  induction l generalizing found with
  | nil => simp
  | cons a l ih =>
    rw [List.foldl_cons, h a List.mem_cons_self, ih fun b hb => h b (List.mem_cons_of_mem _ hb)]
    simp

/-! ## Ideal ticks -/

/-- The forge and the steps refuse nothing, and a verdict is red exactly for a culprit aboard. -/
structure Ideal (key : LaneKey) (size : Int) (culprit : String → Prop) (tick : Tick) (lane : Lane) :
    Prop where
  size_eq : tick.trainSize = size
  eligible : ∀ e ∈ lane.entries, e.state = .queued → eligible key tick e = none
  pulls : ∀ e ∈ lane.entries, e.state = .queued → (tick.pull e.number).merged = false ∧
    (tick.pull e.number).state = "open" ∧ (tick.pull e.number).headSha = e.head ∧
    (tick.pull e.number).baseRef = key.base
  conflicts : ∀ e ∈ lane.entries, tick.conflict e.head = none
  base : tick.baseHead.isSome = true
  landings : ∀ e ∈ lane.entries, tick.refusal e.number = none
  verdict : ∀ t ∈ lane.doc.train,
    match judge (tick.reading t.headSha).state t.startedAt tick.now tick.maxTrainAgeMinutes with
    | .pending => True
    | .green => ∀ id ∈ t.ids, ¬ culprit id
    | .red => ∃ id ∈ t.ids, culprit id
    | .timedOut => False

/-- The untested halves and the running train. -/
def blocks (lane : Lane) : List (List String) := lane.doc.halves ++ (lane.doc.train.map Train.ids).toList

/-- What holds between the ticks of a run. -/
structure Tidy (size : Int) (lane : Lane) : Prop where
  ids : lane.Distinct
  numbers : (lane.entries.map Entry.number).Nodup
  riding : ∀ e ∈ lane.entries, e.state = .riding ↔ ∃ t ∈ lane.doc.train, e.entryId ∈ t.ids
  boarded : ∀ t ∈ lane.doc.train, t.state = .testing ∧ ∀ r ∈ t.riders, ∃ e ∈ lane.entries,
    e.entryId = r.entryId ∧ e.head = r.head ∧ e.number = r.number ∧ e.trainId = some t.id
  queued : ∀ half ∈ lane.doc.halves, ∀ id ∈ half, ∃ e ∈ lane.entries, e.entryId = id ∧ e.state = .queued
  block_size : ∀ b ∈ lane.blocks, b ≠ [] ∧ b.length ≤ (max 1 size).toNat
  block_nodup : lane.blocks.flatten.Nodup

def boardPatch (trainId : String) (e : Entry) : Entry := { e with state := .riding, trainId := some trainId }

def requeuePatch (e : Entry) : Entry := { e with state := .queued, trainId := none }

def landing (trainId : String) : Conclusion := { state := .landed, trainId := some trainId }

/-- The lane with `t` on test. -/
def boards (lane : Lane) (t : Train) : Lane :=
  { lane.settle (boardPatch t.id) none t.ids with
    doc := ⟨lane.doc.seq + 1, some t, lane.doc.halves.dropLast⟩ }

/-- The lane whose train ended with one outcome for all its riders. -/
def retires (lane : Lane) (c : Conclusion) (ids : List String) : Lane :=
  { lane.settle c.patch (some c.state) ids with doc := { lane.doc with train := none } }

/-- The lane whose train is to be tested in halves. -/
def splits (lane : Lane) (ids : List String) : Lane :=
  { lane.settle requeuePatch none ids with
    doc := { lane.doc with
      train := none, halves := lane.doc.halves ++ [(bisect ids).2, (bisect ids).1] } }

@[simp] theorem boards_doc (lane : Lane) (t : Train) :
    (lane.boards t).doc = ⟨lane.doc.seq + 1, some t, lane.doc.halves.dropLast⟩ := rfl

@[simp] theorem retires_doc (lane : Lane) (c : Conclusion) (ids : List String) :
    (lane.retires c ids).doc = { lane.doc with train := none } := rfl

@[simp] theorem splits_doc (lane : Lane) (ids : List String) :
    (lane.splits ids).doc = { lane.doc with
      train := none, halves := lane.doc.halves ++ [(bisect ids).2, (bisect ids).1] } := rfl

/-- The riders that a lane with an idle train takes next. -/
def NextBatch (size : Int) (now : Instant) (lane : Lane) (ids : List String) : Prop :=
  match lane.doc.halves.getLast? with
  | some half => ids = half
  | none => ids = ((sortBy order ((lane.entries.filter (·.state = .queued)).map (Entry.rider now))).take
      (max 1 size).toNat).map Rider.entryId

/-- What an ideal tick does. -/
inductive Ticked (size : Int) (culprit : String → Prop) (tick : Tick) (lane : Lane) : Lane → Prop
  | quiet (hidle : lane.doc.train = none) (hnone : ∀ e ∈ lane.entries, e.state ≠ .queued) :
    Ticked size culprit tick lane lane
  | waits {t : Train} (hrunning : lane.doc.train = some t)
      (hpending : judge (tick.reading t.headSha).state t.startedAt tick.now tick.maxTrainAgeMinutes =
        .pending) : Ticked size culprit tick lane lane
  | composed {t : Train} (hidle : lane.doc.train = none) (hstate : t.state = .testing)
      (hids : NextBatch size tick.now lane t.ids) (hnodup : t.ids.Nodup) (hne : t.riders ≠ [])
      (hriders : ∀ r ∈ t.riders, ∃ e ∈ lane.entries, e.ride = r ∧ e.state = .queued) :
    Ticked size culprit tick lane (lane.boards t)
  | landed {t : Train} (hrunning : lane.doc.train = some t) (hclean : ∀ id ∈ t.ids, ¬ culprit id) :
    Ticked size culprit tick lane (lane.retires (landing t.id) t.ids)
  | ejected {t : Train} {id : String} {c : Conclusion} (hrunning : lane.doc.train = some t)
      (hlone : t.ids = [id]) (hculprit : culprit id) (hstate : c.state = .ejected) :
    Ticked size culprit tick lane (lane.retires c [id])
  | split {t : Train} (hrunning : lane.doc.train = some t) (hmany : 2 ≤ t.ids.length) :
    Ticked size culprit tick lane (lane.splits t.ids)

section Tick

variable {key : LaneKey} {size : Int} {culprit : String → Prop} {tick : Tick} {lane : Lane}

theorem storedHalves_eq {halves : List (List String)} (h : ∀ half ∈ halves, half ≠ []) :
    storedHalves halves = halves := by
  rw [storedHalves, List.filter_eq_self]
  intro half hhalf
  simpa using h half hhalf

theorem heal_eq {trainId : Option String}
    (h : ∀ e ∈ lane.entries, e.state = .riding → e.trainId = trainId) : lane.heal trainId = lane := by
  have hfixed : ∀ entries : List Entry, (∀ e ∈ entries, e.state = .riding → e.trainId = trainId) →
      entries.foldl (fun lane e => if e.state = .riding ∧ e.trainId ≠ trainId then lane.requeue e.ride
        else lane) lane = lane := by
    intro entries hentries
    induction entries with
    | nil => rfl
    | cons e entries ih =>
      rw [List.foldl_cons, if_neg fun hrides => hrides.2 (hentries e List.mem_cons_self hrides.1)]
      exact ih fun e he => hentries e (List.mem_cons_of_mem _ he)
  exact hfixed lane.entries h

theorem Tidy.heal_eq (h : Tidy size lane) : lane.heal (lane.doc.train.map Train.id) = lane := by
  apply Lane.heal_eq
  intro e he hriding
  obtain ⟨t, ht, hid⟩ := (h.riding e he).mp hriding
  obtain ⟨r, hr, hrid⟩ := List.mem_map.mp hid
  obtain ⟨e', he', hid', -, -, htrain⟩ := (h.boarded t ht).2 r hr
  obtain rfl : e' = e := List.inj_on_of_nodup_map h.ids he' he (hid'.trans hrid)
  rw [htrain, Option.mem_def.mp ht]
  rfl

theorem foldl_board {trainId : String} {riders : List TrainRider}
    (hnodup : (riders.map TrainRider.entryId).Nodup) (hdistinct : lane.Distinct)
    (hpresent : ∀ r ∈ riders, lane.Present [.queued] r) :
    riders.foldl (board trainId) (lane, []) =
      (lane.settle (boardPatch trainId) none (riders.map TrainRider.entryId), riders) := by
  have hcollect : ∀ found : List TrainRider, riders.foldl (fun found r => found ++ [r]) found =
      found ++ riders := by
    intro found
    clear hnodup hpresent
    induction riders generalizing found with
    | nil => simp
    | cons r riders ih => rw [List.foldl_cons, ih, List.append_assoc, List.singleton_append]
  have hall := @foldl_settle lane (boardPatch trainId) none [.queued] (List TrainRider) (board trainId)
    (fun found r => found ++ [r]) riders (fun _ => rfl)
    (fun lane found r _ hd hp => by rw [board, setEntry_eq hd hp]; rfl) hnodup hdistinct hpresent []
  rw [hall, hcollect]
  rfl

theorem embark_eq {train : Train} (hclaimed : lane.doc.train = some train)
    (hdistinct : lane.Distinct) (hbase : tick.baseHead.isSome = true) (hne : train.riders ≠ [])
    (hnodup : train.ids.Nodup) (hpresent : ∀ r ∈ train.riders, lane.Present [.queued] r)
    (hconflicts : ∀ r ∈ train.riders, tick.conflict r.head = none) :
    ∃ t : Train, t.id = train.id ∧ t.state = .testing ∧ t.riders = train.riders ∧
      embark tick lane train =
        { lane.settle (boardPatch t.id) none t.ids with doc := { lane.doc with train := some t } } := by
  obtain ⟨baseSha, hbase⟩ := Option.isSome_iff_exists.mp hbase
  have hmerge : ∀ lane' : Lane, train.riders.foldl (mergeIn tick) (lane', []) = (lane', train.riders) := by
    intro lane'
    have hthrough : ∀ r ∈ train.riders, ∀ found, mergeIn tick (lane', found) r =
        (lane', found ++ [id r]) := by
      intro r hr found
      rw [mergeIn, hconflicts r hr]
      rfl
    rw [foldl_collect hthrough]
    simp
  have hfull : train.riders.isEmpty = false := by simpa using hne
  refine ⟨{ train with state := .testing, headSha := tick.trainHead.getD baseSha }, rfl, rfl, rfl, ?_⟩
  rw [embark, foldl_board hnodup hdistinct hpresent, hbase]
  simp only [hmerge, hfull, Bool.false_eq_true, if_false, updateDoc]
  rw [if_pos (show (lane.settle _ _ _).doc.train.map Train.id = some train.id by
    rw [settle, hclaimed]; rfl)]
  rfl

/-- Where no rider conflicts, the chosen entries become the train on test. -/
theorem launch_eq {chosen : List Entry} (hidle : lane.doc.train = none) (hdistinct : lane.Distinct)
    (hstack : ∀ half ∈ lane.doc.halves, half ≠ [])
    (hideal : Ideal key size culprit tick lane) (hne : chosen ≠ [])
    (hnodup : (chosen.map Entry.entryId).Nodup)
    (hchosen : ∀ e ∈ chosen, e ∈ lane.entries ∧ e.state = .queued) :
    ∃ t : Train, t.state = .testing ∧ t.riders = chosen.map Entry.ride ∧
      launch key tick lane chosen = lane.boards t := by
  obtain ⟨train, htrain⟩ : ∃ train, train = newTrain key tick (lane.doc.seq + 1) chosen := ⟨_, rfl⟩
  have hriders : train.riders = chosen.map Entry.ride := by rw [htrain]; rfl
  have hids : train.ids = chosen.map Entry.entryId := by
    rw [Train.ids, hriders, List.map_map]
    rfl
  have hclaim : launch key tick lane chosen = embark tick
      { lane with doc := ⟨lane.doc.seq + 1, some train, lane.doc.halves.dropLast⟩ } train := by
    have hdrop : storedHalves lane.doc.halves.dropLast = lane.doc.halves.dropLast :=
      storedHalves_eq fun half hhalf => hstack half (List.dropLast_subset _ hhalf)
    have hseq : train.seq = lane.doc.seq + 1 := by rw [htrain]; rfl
    rw [launch, updateDoc, hidle, ← htrain]
    simp [hdrop, hseq]
  obtain ⟨t, -, hstate, hsame, hembark⟩ := @embark_eq tick
    { lane with doc := ⟨lane.doc.seq + 1, some train, lane.doc.halves.dropLast⟩ } train rfl hdistinct
    hideal.base (by rw [hriders]; simpa using hne) (hids ▸ hnodup)
    (by
      intro r hr
      rw [hriders] at hr
      obtain ⟨e, he, rfl⟩ := List.mem_map.mp hr
      exact ⟨e, (hchosen e he).1, rfl, rfl, by simpa using (hchosen e he).2⟩)
    (by
      intro r hr
      rw [hriders] at hr
      obtain ⟨e, he, rfl⟩ := List.mem_map.mp hr
      exact hideal.conflicts e (hchosen e he).1)
  exact ⟨t, hstate, hsame.trans hriders, hclaim.trans hembark⟩

/-- The queued entries of the lane. -/
def waiting (lane : Lane) : List Entry := lane.entries.filter (·.state = .queued)

theorem mem_waiting {e : Entry} : e ∈ lane.waiting ↔ e ∈ lane.entries ∧ e.state = .queued := by
  simp [waiting]

/-- The ids that a tidy lane selects: all queued, none twice, and some if any is queued. -/
theorem Tidy.select_ids (h : Tidy size lane) (now : Instant) {batch : List Rider}
    (hbatch : select (lane.waiting.map (Entry.rider now)) size (lane.doc.halves.getLast?.getD []) = batch) :
    NextBatch size now lane (batch.map Rider.entryId) ∧ (batch.map Rider.entryId).Nodup ∧
      (∀ r ∈ batch, ∃ e ∈ lane.waiting, e.entryId = r.entryId) ∧
      (batch = [] → lane.waiting = []) := by
  have hsub : lane.waiting.Sublist lane.entries := List.filter_sublist
  have hnumbers : ((lane.waiting.map (Entry.rider now)).map Rider.number).Nodup := by
    rw [List.map_map]
    exact h.numbers.sublist (hsub.map Entry.number)
  have hids : ((lane.waiting.map (Entry.rider now)).map Rider.entryId).Nodup := by
    rw [List.map_map]
    exact h.ids.sublist (hsub.map Entry.entryId)
  have hfound : ∀ r ∈ lane.waiting.map (Entry.rider now), ∃ e ∈ lane.waiting, e.entryId = r.entryId := by
    intro r hr
    obtain ⟨e, he, rfl⟩ := List.mem_map.mp hr
    exact ⟨e, he, rfl⟩
  unfold NextBatch
  cases htop : lane.doc.halves.getLast? with
  | some half =>
    rw [htop, Option.getD_some] at hbatch
    have hhalf : half ∈ lane.doc.halves := List.mem_of_getLast? htop
    have hblock : half ∈ lane.blocks := List.mem_append_left _ hhalf
    have hnodup : half.Nodup := (List.nodup_flatten.mp h.block_nodup).1 half hblock
    have hqueued : ∀ id ∈ half, id ∈ (lane.waiting.map (Entry.rider now)).map Rider.entryId := by
      intro id hid
      obtain ⟨e, he, rfl, hstate⟩ := h.queued half hhalf id hid
      rw [List.map_map]
      exact List.mem_map.mpr ⟨e, mem_waiting.mpr ⟨he, hstate⟩, rfl⟩
    obtain ⟨hsame, hmem⟩ := select_half hnumbers (h.block_size half hblock).1 hnodup hqueued
      (h.block_size half hblock).2
    rw [hbatch] at hsame hmem
    refine ⟨hsame, hsame ▸ hnodup, fun r hr => hfound r (hmem r hr), ?_⟩
    rintro rfl
    exact absurd hsame.symm (h.block_size half hblock).1
  | none =>
    rw [htop, Option.getD_none, select_oldest hnumbers] at hbatch
    rw [← hbatch]
    refine ⟨rfl, ?_, ?_, ?_⟩
    · have hsorted := ((sortBy_perm order (lane.waiting.map (Entry.rider now))).map Rider.entryId).nodup_iff.mpr
        hids
      exact hsorted.sublist ((List.take_sublist _ _).map Rider.entryId)
    · intro r hr
      exact hfound r (mem_sortBy.mp (List.mem_of_mem_take hr))
    · intro hnil
      have hpos : 0 < (max 1 size).toNat := by omega
      have hempty : sortBy order (lane.waiting.map (Entry.rider now)) = [] := by
        cases hsorted : sortBy order (lane.waiting.map (Entry.rider now)) with
        | nil => rfl
        | cons r rs =>
          rw [hsorted, List.take_eq_nil_iff] at hnil
          simp at hnil
      have hlength := @length_sortBy _ _ _ order (lane.waiting.map (Entry.rider now))
      rw [hempty, List.length_map] at hlength
      exact List.length_eq_zero_iff.mp hlength.symm

theorem compose_ticked (h : Tidy size lane) (hideal : Ideal key size culprit tick lane)
    (hidle : lane.doc.train = none) :
    Ticked size culprit tick lane (lane.compose key tick lane.waiting) := by
  have hconsidered : lane.waiting.foldl (consider key tick) (lane, []) = (lane, lane.waiting) := by
    have hthrough : ∀ e ∈ lane.waiting, ∀ found, consider key tick (lane, found) e =
        (lane, found ++ [id e]) := by
      intro e he found
      obtain ⟨hmem, hstate⟩ := mem_waiting.mp he
      rw [consider, hideal.eligible e hmem hstate]
      rfl
    rw [foldl_collect hthrough]
    simp
  obtain ⟨batch, hbatch⟩ : ∃ batch, select (lane.waiting.map (Entry.rider tick.now)) size
      (lane.doc.halves.getLast?.getD []) = batch := ⟨_, rfl⟩
  obtain ⟨hnext, hnodup, hfound, hempty⟩ := h.select_ids tick.now hbatch
  obtain ⟨picked, hpicked⟩ : ∃ picked, (batch.filterMap fun r =>
      lane.waiting.find? (·.entryId = r.entryId)) = picked := ⟨_, rfl⟩
  have hids : picked.map Entry.entryId = batch.map Rider.entryId := by
    have hmap := @filterMap_find?_key _ _ _ Entry.entryId lane.waiting (batch.map Rider.entryId) (by
      intro id hid
      obtain ⟨r, hr, rfl⟩ := List.mem_map.mp hid
      obtain ⟨e, he, heid⟩ := hfound r hr
      exact List.mem_map.mpr ⟨e, he, heid⟩)
    rw [List.filterMap_map] at hmap
    rw [← hpicked]
    exact hmap
  have hmem : ∀ e ∈ picked, e ∈ lane.entries ∧ e.state = .queued := by
    intro e he
    rw [← hpicked] at he
    obtain ⟨r, -, hr⟩ := List.mem_filterMap.mp he
    exact mem_waiting.mp (List.mem_of_find?_eq_some hr)
  have hconfirmed : picked.foldl (confirm key tick) (lane, []) = (lane, picked) := by
    have hthrough : ∀ e ∈ picked, ∀ found, confirm key tick (lane, found) e =
        (lane, found ++ [id e]) := by
      intro e he found
      obtain ⟨hmerged, hopen, hhead, hbase⟩ := hideal.pulls e (hmem e he).1 (hmem e he).2
      simp [confirm, hmerged, hopen, hhead, hbase]
    rw [foldl_collect hthrough]
    simp
  have hcompose : lane.compose key tick lane.waiting =
      if picked.isEmpty then lane else launch key tick lane picked := by
    rw [compose, hconsidered]
    dsimp only
    rw [hideal.size_eq, hbatch, hpicked, hconfirmed]
  rw [hcompose]
  by_cases hnil : picked = []
  · rw [hnil, List.isEmpty_nil, if_pos rfl]
    have hnone : batch = [] := by simpa [hnil] using hids.symm
    have hwaiting := hempty hnone
    refine .quiet hidle fun e he hstate => ?_
    have hmem := mem_waiting.mpr ⟨he, hstate⟩
    rw [hwaiting] at hmem
    cases hmem
  · rw [if_neg (by simpa using hnil)]
    obtain ⟨t, hstate, hriders, hlaunch⟩ := launch_eq hidle h.ids
      (fun half hhalf => (h.block_size half (List.mem_append_left _ hhalf)).1) hideal hnil
      (hids ▸ hnodup) hmem
    rw [hlaunch]
    have htids : t.ids = picked.map Entry.entryId := by
      rw [Train.ids, hriders, List.map_map]
      rfl
    rw [← hids, ← htids] at hnext hnodup
    refine .composed hidle hstate hnext hnodup (by rw [hriders]; simpa using hnil) ?_
    intro r hr
    rw [hriders] at hr
    obtain ⟨e, he, rfl⟩ := List.mem_map.mp hr
    exact ⟨e, (hmem e he).1, rfl, (hmem e he).2⟩

theorem requeue_eq {rider : TrainRider} (hdistinct : lane.Distinct) (h : lane.Present [.riding] rider) :
    lane.requeue rider = lane.settle requeuePatch none [rider.entryId] := by
  rw [requeue, setEntry_eq hdistinct h]
  rfl

theorem conclude_eq {rider : TrainRider} {c : Conclusion} (hdistinct : lane.Distinct)
    (h : lane.Present [.riding] rider) :
    lane.conclude rider [.riding] c = lane.settle c.patch (some c.state) [rider.entryId] := by
  rw [conclude, setEntry_eq hdistinct h]
  simp [settle]

/-- The riders of the running train are there, riding, under distinct ids. -/
theorem Tidy.present (h : Tidy size lane) {t : Train} (ht : lane.doc.train = some t) :
    (∀ r ∈ t.riders, lane.Present [.riding] r) ∧ t.ids.Nodup ∧ t.ids ≠ [] := by
  have hblock : t.ids ∈ lane.blocks := by
    rw [blocks, ht]
    exact List.mem_append_right _ (List.mem_singleton.mpr rfl)
  refine ⟨?_, (List.nodup_flatten.mp h.block_nodup).1 _ hblock, (h.block_size _ hblock).1⟩
  intro r hr
  obtain ⟨e, he, hid, hhead, -, -⟩ := (h.boarded t ht).2 r hr
  refine ⟨e, he, hid, hhead, ?_⟩
  rw [List.mem_singleton, h.riding e he]
  exact ⟨t, ht, hid ▸ List.mem_map_of_mem hr⟩

theorem fail_ticked (h : Tidy size lane) {t : Train} (ht : lane.doc.train = some t)
    (hculprit : ∃ id ∈ t.ids, culprit id) (reason failing : String) :
    Ticked size culprit tick lane (lane.fail t reason failing) := by
  obtain ⟨hpresent, hnodup, hne⟩ := h.present ht
  have hstack : ∀ half ∈ lane.doc.halves, half ≠ [] := fun half hhalf =>
    (h.block_size half (List.mem_append_left _ hhalf)).1
  have hdoc : ∀ patch outcome ids, (lane.settle patch outcome ids).doc.train.map Train.id = some t.id := by
    intro patch outcome ids
    rw [settle, ht]
    rfl
  by_cases hmany : 2 ≤ t.ids.length
  · have hplan := onFailure_many hmany
    obtain ⟨-, -, hfirst, hrest⟩ := bisect_shorter hmany
    have hloop : t.riders.foldl (failRider t reason failing (onFailure t.ids)) lane =
        lane.settle requeuePatch none t.ids := by
      refine foldl_settle_lane (fun _ => rfl) ?_ hnodup h.ids hpresent
      intro lane r _ hd hp
      rw [failRider, hplan, if_neg (List.not_mem_nil), requeue_eq hd hp]
    have hnext : (bisect t.ids).1.isEmpty = false := by simpa using hfirst
    have hstored : storedHalves (lane.doc.halves ++ [(bisect t.ids).2, (bisect t.ids).1]) =
        lane.doc.halves ++ [(bisect t.ids).2, (bisect t.ids).1] := by
      apply storedHalves_eq
      intro half hhalf
      simp only [List.mem_append, List.mem_cons, List.not_mem_nil, or_false] at hhalf
      obtain hhalf | rfl | rfl := hhalf
      · exact hstack half hhalf
      · exact hrest
      · exact hfirst
    rw [fail, hloop, updateDoc, if_pos (hdoc _ _ _), hplan]
    simp only [hnext, Bool.false_eq_true, if_false, Option.getD_some]
    have hsettled : ∀ patch outcome ids, (lane.settle patch outcome ids).doc = lane.doc := fun _ _ _ => rfl
    rw [hsettled, hstored]
    exact .split ht hmany
  · obtain ⟨id, hlone⟩ : ∃ id, t.ids = [id] := by
      rcases hids : t.ids with _ | ⟨id, _ | ⟨next, rest⟩⟩
      · exact absurd hids hne
      · exact ⟨id, rfl⟩
      · rw [hids] at hmany
        simp at hmany
    obtain ⟨r, hr⟩ : ∃ r, t.riders = [r] ∧ r.entryId = id := by
      rcases hriders : t.riders with _ | ⟨r, _ | ⟨next, rest⟩⟩
      · simp [Train.ids, hriders] at hlone
      · exact ⟨r, rfl, by simpa [Train.ids, hriders] using hlone⟩
      · simp [Train.ids, hriders] at hlone
    have hstored := storedHalves_eq hstack
    rw [fail, hr.1, List.foldl_cons, List.foldl_nil, failRider, hlone, onFailure]
    simp only [hr.2, List.mem_singleton, if_true, List.isEmpty_nil]
    rw [conclude_eq h.ids (hpresent r (by rw [hr.1]; exact List.mem_singleton.mpr rfl)), updateDoc,
      if_pos (hdoc _ _ _), hr.2]
    have hsettled : ∀ patch outcome ids, (lane.settle patch outcome ids).doc = lane.doc := fun _ _ _ => rfl
    rw [Option.getD_some, hsettled, hstored]
    obtain ⟨id', hid', hculprit⟩ := hculprit
    rw [hlone, List.mem_singleton] at hid'
    exact .ejected ht hlone (hid' ▸ hculprit) rfl

/-- Where the forge refuses nothing, the riders of a train land in their order. -/
theorem landRiders_eq {trainId : String} {riders : List TrainRider} (hdistinct : lane.Distinct)
    (hnodup : (riders.map TrainRider.entryId).Nodup) (hpresent : ∀ r ∈ riders, lane.Present [.riding] r)
    (hlandings : ∀ r ∈ riders, tick.refusal r.number = none) :
    landRiders tick trainId lane riders =
      lane.settle (landing trainId).patch (some .landed) (riders.map TrainRider.entryId) := by
  induction riders generalizing lane with
  | nil => rw [List.map_nil, settle_nil, landRiders]
  | cons rider riders ih =>
    rw [List.map_cons, List.nodup_cons] at hnodup
    have hhere := hpresent rider List.mem_cons_self
    have hriding : (lane.entries.find? (·.entryId = rider.entryId)).any
        (fun e => e.state = .landed ∧ e.trainId = some trainId) = false := by
      obtain ⟨e, he, hid, -, hstate⟩ := hhere
      rw [← hid, find?_key hdistinct he]
      simp [List.mem_singleton.mp hstate]
    have hrest : landRiders tick trainId (lane.conclude rider [.riding] (landing trainId)) riders =
        lane.settle (landing trainId).patch (some .landed)
          ((rider :: riders).map TrainRider.entryId) := by
      have hpatch : ∀ e, ((landing trainId).patch e).entryId = e.entryId := fun _ => rfl
      rw [conclude_eq hdistinct hhere, List.map_cons, settle_cons hpatch hnodup.1]
      apply ih (settle_distinct hpatch hdistinct) hnodup.2
      · intro r hr
        refine (hpresent r (List.mem_cons_of_mem _ hr)).settle ?_
        rw [List.mem_singleton]
        intro heq
        exact hnodup.1 (heq ▸ List.mem_map_of_mem hr)
      · intro r hr
        exact hlandings r (List.mem_cons_of_mem _ hr)
    rw [landRiders, hriding, if_neg Bool.false_ne_true, hlandings rider List.mem_cons_self]
    split
    · exact hrest
    · exact hrest

theorem land_ticked (h : Tidy size lane) (hideal : Ideal key size culprit tick lane) {t : Train}
    (ht : lane.doc.train = some t) (hclean : ∀ id ∈ t.ids, ¬ culprit id) :
    Ticked size culprit tick lane
      (land tick { lane with doc := { lane.doc with train := some { t with state := .landing } } }
        { t with state := .landing }) := by
  obtain ⟨hpresent, hnodup, -⟩ := h.present ht
  have hlandings : ∀ r ∈ t.riders, tick.refusal r.number = none := by
    intro r hr
    obtain ⟨e, he, -, -, hnumber, -⟩ := (h.boarded t ht).2 r hr
    rw [← hnumber]
    exact hideal.landings e he
  have hlanded := @landRiders_eq tick
    { lane with doc := { lane.doc with train := some { t with state := .landing } } } t.id t.riders
    h.ids hnodup hpresent hlandings
  have hland : land tick { lane with doc := { lane.doc with train := some { t with state := .landing } } }
      { t with state := .landing } = lane.retires (landing t.id) t.ids := by
    rw [land]
    dsimp only
    rw [hlanded, updateDoc, if_pos (show Option.map Train.id (settle _ _ _ _).doc.train = some t.id from rfl)]
    rfl
  rw [hland]
  exact .landed ht hclean

theorem test_ticked (h : Tidy size lane) (hideal : Ideal key size culprit tick lane) {t : Train}
    (ht : lane.doc.train = some t) : Ticked size culprit tick lane (lane.test tick t) := by
  have hverdict := hideal.verdict t ht
  rw [test]
  cases hjudge : judge (tick.reading t.headSha).state t.startedAt tick.now tick.maxTrainAgeMinutes with
  | pending => exact .waits ht hjudge
  | green =>
    rw [hjudge] at hverdict
    rw [updateDoc, if_pos (by rw [ht]; rfl)]
    exact land_ticked h hideal ht hverdict
  | red =>
    rw [hjudge] at hverdict
    exact fail_ticked h ht hverdict _ _
  | timedOut =>
    rw [hjudge] at hverdict
    exact hverdict.elim

/-- An ideal tick on a tidy lane is one of the six. -/
theorem step_ticked (h : Tidy size lane) (hideal : Ideal key size culprit tick lane) :
    Ticked size culprit tick lane (lane.step key tick) := by
  have hheal := h.heal_eq
  rw [step]
  cases ht : lane.doc.train with
  | none =>
    rw [ht, Option.map_none] at hheal
    dsimp only
    rw [hheal]
    exact compose_ticked h hideal ht
  | some t =>
    rw [ht, Option.map_some] at hheal
    dsimp only
    rw [hheal, (h.boarded t ht).1]
    exact test_ticked h hideal ht

end Tick

/-! ## Tidy lanes stay tidy -/

section Preserved

variable {size : Int} {culprit : String → Prop} {now : Instant} {lane lane' : Lane} {t : Train}

theorem blocks_running (ht : lane.doc.train = some t) : lane.blocks = lane.doc.halves ++ [t.ids] := by
  rw [blocks, ht]
  rfl

theorem blocks_idle (ht : lane.doc.train = none) : lane.blocks = lane.doc.halves := by
  rw [blocks, ht]
  simp

theorem Tidy.riding_iff (h : Tidy size lane) (ht : lane.doc.train = some t) {e : Entry}
    (he : e ∈ lane.entries) : e.state = .riding ↔ e.entryId ∈ t.ids := by
  rw [h.riding e he, ht]
  simp

theorem Tidy.not_riding (h : Tidy size lane) (ht : lane.doc.train = none) {e : Entry}
    (he : e ∈ lane.entries) : e.state ≠ .riding := by
  rw [Ne, h.riding e he, ht]
  simp

/-- A lane whose riders have their outcomes. -/
theorem Tidy.retires (h : Tidy size lane) (ht : lane.doc.train = some t) {c : Conclusion}
    (hout : c.state ≠ .riding) : Tidy size (lane.retires c t.ids) where
  ids := @settle_distinct lane c.patch (some c.state) t.ids (fun _ => rfl) h.ids
  numbers := by
    have hnumbers := @settle_map lane c.patch (some c.state) t.ids Int Entry.number fun _ => rfl
    rw [Lane.retires, hnumbers]
    exact h.numbers
  riding := by
    intro e' he'
    obtain ⟨e, he, rfl⟩ := List.mem_map.mp he'
    have hriding := h.riding_iff ht he
    by_cases hin : e.entryId ∈ t.ids
    · simp [hin, Conclusion.patch, hout]
    · simp [hin, hriding]
  boarded := by simp
  queued := by
    intro half hhalf id hid
    obtain ⟨e, he, rfl, hstate⟩ := h.queued half hhalf id hid
    have hin : e.entryId ∉ t.ids := by
      rw [← h.riding_iff ht he, hstate]
      simp
    exact ⟨e, List.mem_map.mpr ⟨e, he, if_neg hin⟩, rfl, hstate⟩
  block_size := by
    intro b hb
    rw [blocks_idle rfl] at hb
    exact h.block_size b (List.mem_append_left _ hb)
  block_nodup := by
    have hnodup := h.block_nodup
    rw [blocks, List.flatten_append] at hnodup
    rw [blocks_idle rfl]
    exact hnodup.of_append_left

theorem Tidy.splits (h : Tidy size lane) (ht : lane.doc.train = some t) (hmany : 2 ≤ t.ids.length) :
    Tidy size (lane.splits t.ids) where
  ids := @settle_distinct lane requeuePatch none t.ids (fun _ => rfl) h.ids
  numbers := by
    have hnumbers := @settle_map lane requeuePatch none t.ids Int Entry.number fun _ => rfl
    rw [Lane.splits, hnumbers]
    exact h.numbers
  riding := by
    intro e' he'
    obtain ⟨e, he, rfl⟩ := List.mem_map.mp he'
    have hriding := h.riding_iff ht he
    by_cases hin : e.entryId ∈ t.ids
    · simp [hin, requeuePatch]
    · simp [hin, hriding]
  boarded := by simp
  queued := by
    have hback : ∀ id ∈ t.ids, ∃ e ∈ (lane.settle requeuePatch none t.ids).entries,
        e.entryId = id ∧ e.state = .queued := by
      intro id hid
      obtain ⟨r, hr, rfl⟩ := List.mem_map.mp hid
      obtain ⟨e, he, heid, -⟩ := (h.boarded t ht).2 r hr
      exact ⟨requeuePatch e, List.mem_map.mpr ⟨e, he, if_pos (heid ▸ hid)⟩, heid, rfl⟩
    intro half hhalf id hid
    simp only [splits_doc, List.mem_append, List.mem_cons, List.not_mem_nil, or_false] at hhalf
    obtain hhalf | rfl | rfl := hhalf
    · obtain ⟨e, he, rfl, hstate⟩ := h.queued half hhalf id hid
      have hin : e.entryId ∉ t.ids := by
        rw [← h.riding_iff ht he, hstate]
        simp
      exact ⟨e, List.mem_map.mpr ⟨e, he, if_neg hin⟩, rfl, hstate⟩
    · exact hback id (List.mem_of_mem_drop hid)
    · exact hback id (List.mem_of_mem_take hid)
  block_size := by
    obtain ⟨hshort, hshorter, hfirst, hrest⟩ := bisect_shorter hmany
    have hlength := (h.block_size t.ids (by simp [blocks_running ht])).2
    intro b hb
    rw [blocks_idle rfl] at hb
    simp only [splits_doc, List.mem_append, List.mem_cons, List.not_mem_nil, or_false] at hb
    obtain hb | rfl | rfl := hb
    · exact h.block_size b (List.mem_append_left _ hb)
    · exact ⟨hrest, hshorter.le.trans hlength⟩
    · exact ⟨hfirst, hshort.le.trans hlength⟩
  block_nodup := by
    have hnodup := h.block_nodup
    rw [blocks_running ht] at hnodup
    rw [blocks_idle rfl]
    refine List.Perm.nodup ?_ hnodup
    simp only [splits_doc, List.flatten_append, List.flatten_cons, List.flatten_nil, List.append_nil]
    apply List.Perm.append_left
    nth_rewrite 1 [← bisect_append t.ids]
    exact List.perm_append_comm

/-- The next batch is the top half, or it is drawn from a lane with none. -/
theorem NextBatch.stack {ids : List String} (hids : NextBatch size now lane ids) :
    lane.doc.halves = lane.doc.halves.dropLast ++ [ids] ∨
      lane.doc.halves = [] ∧ ids.length ≤ (max 1 size).toNat := by
  rw [NextBatch] at hids
  cases htop : lane.doc.halves.getLast? with
  | some half =>
    rw [htop] at hids
    dsimp only at hids
    subst hids
    exact .inl (List.dropLast_append_getLast? _ htop).symm
  | none =>
    rw [htop] at hids
    dsimp only at hids
    refine .inr ⟨List.getLast?_eq_none_iff.mp htop, ?_⟩
    rw [hids, List.length_map]
    exact List.length_take_le _ _

theorem Tidy.boards (h : Tidy size lane) (hidle : lane.doc.train = none) (hstate : t.state = .testing)
    (hids : NextBatch size now lane t.ids) (hnodup : t.ids.Nodup) (hne : t.riders ≠ [])
    (hriders : ∀ r ∈ t.riders, ∃ e ∈ lane.entries, e.ride = r ∧ e.state = .queued) :
    Tidy size (lane.boards t) where
  ids := @settle_distinct lane (boardPatch t.id) none t.ids (fun _ => rfl) h.ids
  numbers := by
    have hnumbers := @settle_map lane (boardPatch t.id) none t.ids Int Entry.number fun _ => rfl
    rw [Lane.boards, hnumbers]
    exact h.numbers
  riding := by
    intro e' he'
    obtain ⟨e, he, rfl⟩ := List.mem_map.mp he'
    have hriding := h.not_riding hidle he
    by_cases hin : e.entryId ∈ t.ids
    · simp [hin, boardPatch]
    · simp [hin, hriding]
  boarded := by
    intro t' ht'
    obtain rfl : t = t' := by simpa using ht'
    refine ⟨hstate, fun r hr => ?_⟩
    obtain ⟨e, he, rfl, -⟩ := hriders r hr
    have hin : e.entryId ∈ t.ids := List.mem_map_of_mem hr
    exact ⟨boardPatch t.id e, List.mem_map.mpr ⟨e, he, if_pos hin⟩, rfl, rfl, rfl, rfl⟩
  queued := by
    intro half hhalf id hid
    obtain ⟨e, he, rfl, hqueued⟩ := h.queued half (List.dropLast_subset _ hhalf) id hid
    have hin : e.entryId ∉ t.ids := by
      obtain hstack | ⟨hnone, -⟩ := hids.stack
      · have hflat := h.block_nodup
        rw [blocks_idle hidle, hstack, List.flatten_append] at hflat
        intro hin
        exact (List.disjoint_of_nodup_append hflat) (List.mem_flatten.mpr ⟨half, hhalf, hid⟩) (by simpa using hin)
      · rw [boards_doc, hnone] at hhalf
        cases hhalf
    exact ⟨e, List.mem_map.mpr ⟨e, he, if_neg hin⟩, rfl, hqueued⟩
  block_size := by
    intro b hb
    rw [blocks_running rfl, List.mem_append, List.mem_singleton] at hb
    have hstack : ∀ half ∈ lane.doc.halves, half ≠ [] ∧ half.length ≤ (max 1 size).toNat := fun half hhalf =>
      h.block_size half (List.mem_append_left _ hhalf)
    obtain hb | rfl := hb
    · exact hstack b (List.dropLast_subset _ hb)
    · refine ⟨by simpa [Train.ids] using hne, ?_⟩
      obtain htop | ⟨-, hlength⟩ := hids.stack
      · refine (hstack t.ids ?_).2
        rw [htop]
        simp
      · exact hlength
  block_nodup := by
    rw [blocks_running rfl]
    obtain htop | ⟨hnone, -⟩ := hids.stack
    · have hflat := h.block_nodup
      rw [blocks_idle hidle, htop] at hflat
      exact hflat
    · simpa [hnone] using hnodup

theorem Ticked.tidy (h : Tidy size lane) {tick : Tick} (hticked : Ticked size culprit tick lane lane') :
    Tidy size lane' := by
  cases hticked with
  | quiet hidle hnone => exact h
  | waits hrunning hpending => exact h
  | composed hidle hstate hids hnodup hne hriders => exact h.boards hidle hstate hids hnodup hne hriders
  | landed hrunning hclean => exact h.retires hrunning (by simp [landing])
  | ejected hrunning hlone hculprit hstate => exact hlone ▸ h.retires hrunning (by simp [hstate])
  | split hrunning hmany => exact h.splits hrunning hmany

def arrive (lane : Lane) (e : Entry) : Lane := { lane with entries := lane.entries ++ [e] }

theorem Tidy.arrive (h : Tidy size lane) {e : Entry} (hstate : e.state = .queued)
    (hid : e.entryId ∉ lane.entries.map Entry.entryId)
    (hnumber : e.number ∉ lane.entries.map Entry.number) : Tidy size (lane.arrive e) where
  ids := by
    rw [Distinct, Lane.arrive, List.map_append, List.map_singleton]
    exact (List.perm_append_singleton _ _).nodup_iff.mpr (List.nodup_cons.mpr ⟨hid, h.ids⟩)
  numbers := by
    rw [Lane.arrive, List.map_append, List.map_singleton]
    exact (List.perm_append_singleton _ _).nodup_iff.mpr (List.nodup_cons.mpr ⟨hnumber, h.numbers⟩)
  riding := by
    intro e' he'
    obtain he' | he' := List.mem_append.mp he'
    · exact h.riding e' he'
    · rw [List.mem_singleton.mp he', hstate]
      refine ⟨fun hriding => (by simp at hriding), ?_⟩
      rintro ⟨t, ht, hin⟩
      obtain ⟨r, hr, hrid⟩ := List.mem_map.mp hin
      obtain ⟨e', he', heid, -⟩ := (h.boarded t ht).2 r hr
      exact absurd (List.mem_map.mpr ⟨e', he', heid.trans hrid⟩) hid
  boarded := by
    intro t ht
    refine ⟨(h.boarded t ht).1, fun r hr => ?_⟩
    obtain ⟨e', he', hkeeps⟩ := (h.boarded t ht).2 r hr
    exact ⟨e', List.mem_append_left _ he', hkeeps⟩
  queued := by
    intro half hhalf id hin
    obtain ⟨e', he', hkeeps⟩ := h.queued half hhalf id hin
    exact ⟨e', List.mem_append_left _ he', hkeeps⟩
  block_size := h.block_size
  block_nodup := h.block_nodup

end Preserved

end Lane

end SwarmCloud.MergeTrain
