import SwarmCloud.Scheduler.Sweeps
import SwarmCloud.Lib.Rotation
import SwarmCloud.Lib.Sorting
import Mathlib.Data.String.Basic
import Mathlib.Data.Finset.Card
import Mathlib.Tactic.IntervalCases

/-! # The windows of the park sweeps

A sweep reads one page of the parks on its reason in each drain, from a cursor that
the scheduler keeps in memory. `_prewarm` may stop part-way through a page, when the
drain has promoted as many agents as it may, and then puts the cursor back to the
last park that it looked at.
-/

namespace SwarmCloud.Scheduler

open Common Lib AttemptState

/-- The task documents, each with its own id. -/
structure Collection where
  docs : List (String × Task)
  distinct : (docs.map Prod.fst).Nodup

def parkedOn (reason : ParkReason) (task : Task) : Bool := task.state = .parked && task.parkReason = some reason

/-- The query that `parked_page` makes, without its start and limit. -/
def Collection.parks (tasks : Collection) (reason : ParkReason) : List (String × Task) :=
  sortBy Prod.fst (tasks.docs.filter fun doc => parkedOn reason doc.2)

def parkedPage (tasks : Collection) (reason : ParkReason) (limit : Nat) (after : Option String) :
    List (String × Task) :=
  ((tasks.parks reason).filter fun doc => !after.any (doc.1 ≤ ·)).take limit

/-- `_park_cursors`, under the names of the sweeps. -/
abbrev ParkCursors := String × ParkReason → Option String

/-- `_parked_window` -/
def parkedWindow (size : Nat) (tasks : Collection) (reason : ParkReason) (sweep : String) (cursors : ParkCursors) :
    List (String × Task) × ParkCursors :=
  let page := parkedPage tasks reason size (cursors (sweep, reason))
  (page, Function.update cursors (sweep, reason)
    (if size ≤ page.length then page.getLast?.map Prod.fst else none))

/-- What a drain meets outside the cursors: the documents, the sweep of a failed workflow, the provider pools, what
the account pool answers and a guarded promotion. -/
structure Surroundings (World : Type) where
  tasks : World → Collection
  stopForFailedWorkflow : World → String × Task → World × Bool
  guarded : World → Task → Bool
  heldByPool : World → ParkReason → Task → Bool
  promote : World → String × Task → World × Bool

/-- A page that a drain read: the documents as they were, and the parks that it looked at. -/
structure Reading where
  reason : ParkReason
  tasks : Collection
  looked : List String

structure Drain (World : Type) where
  world : World
  cursors : ParkCursors
  promoted : Nat := 0
  readings : List Reading := []

def Drain.readingsOn {World : Type} (drain : Drain World) (reason : ParkReason) : List Reading :=
  drain.readings.filter (·.reason = reason)

section Prewarm

variable {World : Type} (around : Surroundings World) (size : Nat) (now horizon : Instant) (budget : Nat)

/-- The body of the inner loop, for a park that the drain looks at. -/
def prewarmTask (reason : ParkReason) (world : World) (task : String × Task) : World × Bool :=
  let (world, stopped) := around.stopForFailedWorkflow world task
  match (Sweep.prewarm stopped horizon (around.guarded world task.2) (around.heldByPool world reason task.2)).call
      task.2 now with
  | some _ => around.promote world task
  | none => (world, false)

/-- The inner loop, with `resume`. Its second result is the parks that it looked at. -/
def prewarmPage (reason : ParkReason) :
    List (String × Task) → Option String → Drain World → Drain World × List String
  | [], _, drain => (drain, [])
  | task :: page, resume, drain =>
    if budget ≤ drain.promoted then
      ({ drain with cursors := Function.update drain.cursors ("prewarm", reason) resume }, [])
    else
      let (world, promoted) := prewarmTask around now horizon reason drain.world task
      let (drain, looked) := prewarmPage reason page (some task.1)
        { drain with world, promoted := drain.promoted + promoted.toNat }
      (drain, task.1 :: looked)

def prewarmReason (drain : Drain World) (reason : ParkReason) : Drain World :=
  if budget ≤ drain.promoted then drain
  else
    let resume := drain.cursors ("prewarm", reason)
    let tasks := around.tasks drain.world
    let (page, cursors) := parkedWindow size tasks reason "prewarm" drain.cursors
    let (drain, looked) := prewarmPage around now horizon budget reason page resume { drain with cursors }
    { drain with readings := drain.readings ++ [⟨reason, tasks, looked⟩] }

/-- `_prewarm` -/
def prewarm (prewarmMaxAgents : Int) (world : World) (cursors : ParkCursors) : Drain World :=
  let budget := prewarmMaxAgents.toNat
  if budget = 0 then { world, cursors }
  else prewarmReasons.foldl (prewarmReason around size now horizon budget) { world, cursors }

end Prewarm

/-! ## Pages and ids -/

def Collection.parkIds (tasks : Collection) (reason : ParkReason) : List String := (tasks.parks reason).map Prod.fst

section Pages

variable {tasks : Collection} {reason : ParkReason} {size : Nat} {after : Option String}

theorem pairwise_parkIds (tasks : Collection) (reason : ParkReason) :
    (tasks.parkIds reason).Pairwise (· < ·) := by
  have hle : (tasks.parkIds reason).Pairwise (· ≤ ·) := by
    rw [Collection.parkIds, List.pairwise_map]
    exact sortBy_pairwise _ _
  have hnodup : (tasks.parkIds reason).Nodup := by
    rw [Collection.parkIds, Collection.parks]
    refine (((sortBy_perm _ _).map Prod.fst).nodup_iff).mpr ?_
    exact tasks.distinct.sublist (List.filter_sublist.map _)
  refine (hle.and hnodup).imp ?_
  rintro a b ⟨hab, hne⟩
  exact lt_of_le_of_ne hab hne

theorem map_fst_parkedPage (tasks : Collection) (reason : ParkReason) (size : Nat) (after : Option String) :
    (parkedPage tasks reason size after).map Prod.fst = Rotation.page size after (tasks.parkIds reason) := by
  rw [parkedPage, Rotation.page, Rotation.past, Collection.parkIds, List.map_take, List.filter_map]
  rfl

/-- The cursor after a window that is read whole. -/
theorem parkedWindow_cursor (sweep : String) (cursors : ParkCursors) :
    (parkedWindow size tasks reason sweep cursors).2 (sweep, reason) =
      Rotation.nextStart size (Rotation.page size (cursors (sweep, reason)) (tasks.parkIds reason)) := by
  rw [parkedWindow]
  dsimp only
  rw [Function.update_self, Rotation.nextStart, ← map_fst_parkedPage, List.length_map, List.getLast?_map]

end Pages

/-- Where a reading of a reason starts, and where it leaves the cursor: it looks at the first parks past the cursor, and
at one at least if there is one. The next one starts past the last of them, or at the top when the page was short and
was looked at whole. -/
structure Reading.Moves (size : Nat) (reading : Reading) (after next : Option String) : Prop where
  front : reading.looked <+: Rotation.page size after (reading.tasks.parkIds reading.reason)
  starts : Rotation.page size after (reading.tasks.parkIds reading.reason) ≠ [] → reading.looked ≠ []
  next : next =
    if reading.looked.length = (Rotation.page size after (reading.tasks.parkIds reading.reason)).length ∧
        reading.looked.length < size then none
    else reading.looked.getLast?

theorem Reading.Moves.turn {size : Nat} (hsize : 1 ≤ size) {reading : Reading} {after next : Option String}
    (h : reading.Moves size after next) :
    Rotation.Turn (reading.tasks.parkIds reading.reason) after next reading.looked := by
  refine ⟨h.front.trans (List.take_prefix _ _), ?_⟩
  rw [h.next]
  split
  · rename_i hwhole
    have hpage := h.front.eq_of_length hwhole.1
    refine .inl ⟨rfl, hpage.trans ?_⟩
    rw [Rotation.page, List.take_of_length_le]
    have hlength := hwhole.1
    rw [Rotation.page, List.length_take] at hlength
    omega
  · rename_i hmore
    cases hlast : reading.looked.getLast? with
    | some last => exact .inr (.inr ⟨last, rfl, rfl⟩)
    | none =>
      rw [List.getLast?_eq_none_iff] at hlast
      have hempty : Rotation.page size after (reading.tasks.parkIds reading.reason) = [] := by
        by_contra hpage
        exact h.starts hpage hlast
      rw [hlast, hempty] at hmore
      exact absurd ⟨rfl, hsize⟩ hmore

section Drains

variable {World : Type} {around : Surroundings World} {size : Nat} {now horizon : Instant} {budget : Nat}
  {reason : ParkReason}

variable (around now horizon budget reason) in
theorem prewarmPage_spec (page : List (String × Task)) (resume : Option String) (drain : Drain World) :
    (prewarmPage around now horizon budget reason page resume drain).1.readings = drain.readings ∧
      ∃ rest, page.map Prod.fst = (prewarmPage around now horizon budget reason page resume drain).2 ++ rest ∧
        (drain.promoted < budget → page ≠ [] →
          (prewarmPage around now horizon budget reason page resume drain).2 ≠ []) ∧
        (prewarmPage around now horizon budget reason page resume drain).1.cursors =
          if rest = [] then drain.cursors
          else Function.update drain.cursors ("prewarm", reason)
            ((prewarmPage around now horizon budget reason page resume drain).2.getLast?.or resume) := by
  induction page generalizing resume drain with
  | nil => exact ⟨rfl, [], rfl, fun _ hpage => absurd rfl hpage, rfl⟩
  | cons task page ih =>
    rw [prewarmPage]
    split
    · rename_i hspent
      refine ⟨rfl, task.1 :: page.map Prod.fst, rfl, fun hleft => absurd hleft hspent.not_gt, ?_⟩
      rw [if_neg (List.cons_ne_nil _ _)]
      rfl
    · obtain ⟨hreadings, rest, hpage, -, hcursors⟩ := ih (some task.1)
        { drain with
          world := (prewarmTask around now horizon reason drain.world task).1
          promoted := drain.promoted + (prewarmTask around now horizon reason drain.world task).2.toNat }
      refine ⟨hreadings, rest, ?_, fun _ _ => List.cons_ne_nil _ _, hcursors.trans ?_⟩
      · rw [List.map_cons, hpage]
        rfl
      · rw [List.getLast?_cons, Option.or_some]
        rfl

/-- A reason is read once and its cursor moves, or the budget was spent before and it stays as it was. -/
def Outcome (size : Nat) (reason : ParkReason) (before after : Drain World) : Prop :=
  (after.readingsOn reason = before.readingsOn reason ∧
    after.cursors ("prewarm", reason) = before.cursors ("prewarm", reason)) ∨
  ∃ reading, reading.reason = reason ∧ after.readingsOn reason = before.readingsOn reason ++ [reading] ∧
    reading.Moves size (before.cursors ("prewarm", reason)) (after.cursors ("prewarm", reason))

variable (around size now horizon reason) in
/-- What a pass over a reason reads, if the budget is not spent before. -/
theorem prewarmReason_spec {drain : Drain World} (hleft : drain.promoted < budget) :
    ∃ looked rest, (prewarmReason around size now horizon budget drain reason).readings =
        drain.readings ++ [⟨reason, around.tasks drain.world, looked⟩] ∧
      Rotation.page size (drain.cursors ("prewarm", reason)) ((around.tasks drain.world).parkIds reason) =
        looked ++ rest ∧
      (looked ++ rest ≠ [] → looked ≠ []) ∧
      (prewarmReason around size now horizon budget drain reason).cursors =
        Function.update drain.cursors ("prewarm", reason)
          (if rest = [] then Rotation.nextStart size (looked ++ rest)
          else looked.getLast?.or (drain.cursors ("prewarm", reason))) := by
  let window := parkedWindow size (around.tasks drain.world) reason "prewarm" drain.cursors
  obtain ⟨hreadings, rest, hpage, hstarts, hcursors⟩ := prewarmPage_spec around now horizon budget reason window.1
    (drain.cursors ("prewarm", reason)) { drain with cursors := window.2 }
  have hids : window.1.map Prod.fst =
      Rotation.page size (drain.cursors ("prewarm", reason)) ((around.tasks drain.world).parkIds reason) :=
    map_fst_parkedPage _ _ _ _
  have hnext : window.2 = Function.update drain.cursors ("prewarm", reason)
      (Rotation.nextStart size (window.1.map Prod.fst)) := by
    rw [Rotation.nextStart, List.length_map, List.getLast?_map]
    rfl
  rw [prewarmReason, if_neg hleft.not_ge]
  refine ⟨_, rest, congrArg (· ++ _) hreadings, hids.symm.trans hpage, ?_, hcursors.trans ?_⟩
  · intro hsome
    refine hstarts hleft fun hnone => hsome ?_
    rw [← hpage, hnone, List.map_nil]
  · dsimp only
    split
    · exact hnext.trans (congrArg (fun ids : List String => Function.update drain.cursors ("prewarm", reason)
        (Rotation.nextStart size ids)) hpage)
    · exact (congrArg (Function.update · _ _) hnext).trans (Function.update_idem _ _ _)

variable (around size now horizon budget reason) in
theorem prewarmReason_outcome (drain : Drain World) :
    Outcome size reason drain (prewarmReason around size now horizon budget drain reason) := by
  rcases Nat.lt_or_ge drain.promoted budget with hleft | hspent
  · obtain ⟨looked, rest, hreadings, hpage, hstarts, hcursors⟩ :=
      prewarmReason_spec around size now horizon reason hleft
    refine .inr ⟨⟨reason, around.tasks drain.world, looked⟩, rfl, ?_, ?_, ?_, ?_⟩
    · rw [Drain.readingsOn, hreadings, List.filter_append, Drain.readingsOn]
      simp
    · rw [hpage]
      exact List.prefix_append _ _
    · rwa [hpage]
    · rw [hcursors, Function.update_self, hpage]
      dsimp only
      rw [List.length_append]
      cases rest with
      | nil =>
        rw [if_pos rfl, List.append_nil, Rotation.nextStart]
        simp only [List.length_nil, Nat.add_zero, true_and]
        split
        · rw [if_neg (by omega)]
        · rw [if_pos (by omega)]
      | cons id rest =>
        have hsome := hstarts (List.append_ne_nil_of_right_ne_nil _ (List.cons_ne_nil _ _))
        rw [if_neg (List.cons_ne_nil _ _), if_neg (by simp), List.getLast?_eq_some_getLast hsome, Option.some_or]
  · rw [prewarmReason, if_pos hspent]
    exact .inl ⟨rfl, rfl⟩

variable (around size now horizon budget) in
/-- A pass over another reason leaves this one's readings and cursor. -/
theorem prewarmReason_other {other : ParkReason} (hne : other ≠ reason) (drain : Drain World) :
    (prewarmReason around size now horizon budget drain other).readingsOn reason = drain.readingsOn reason ∧
      (prewarmReason around size now horizon budget drain other).cursors ("prewarm", reason) =
        drain.cursors ("prewarm", reason) := by
  rcases Nat.lt_or_ge drain.promoted budget with hleft | hspent
  · obtain ⟨looked, rest, hreadings, -, -, hcursors⟩ :=
      prewarmReason_spec around size now horizon other hleft
    constructor
    · rw [Drain.readingsOn, hreadings, List.filter_append, Drain.readingsOn]
      simp [hne]
    · rw [hcursors, Function.update_of_ne]
      simp [hne.symm]
  · rw [prewarmReason, if_pos hspent]
    exact ⟨rfl, rfl⟩

theorem foldl_prewarmReason_outcome {reasons : List ParkReason} (hnodup : reasons.Nodup)
    (drain : Drain World) :
    Outcome size reason drain (reasons.foldl (prewarmReason around size now horizon budget) drain) := by
  have hsame : ∀ reasons : List ParkReason, reason ∉ reasons → ∀ drain : Drain World,
      (reasons.foldl (prewarmReason around size now horizon budget) drain).readingsOn reason =
          drain.readingsOn reason ∧
        (reasons.foldl (prewarmReason around size now horizon budget) drain).cursors ("prewarm", reason) =
          drain.cursors ("prewarm", reason) := by
    intro reasons hnot drain
    induction reasons generalizing drain with
    | nil => exact ⟨rfl, rfl⟩
    | cons other reasons ih =>
      rw [List.mem_cons, not_or] at hnot
      obtain ⟨hreadings, hcursor⟩ := ih hnot.2 (prewarmReason around size now horizon budget drain other)
      have hother := prewarmReason_other around size now horizon budget (Ne.symm hnot.1) drain
      exact ⟨hreadings.trans hother.1, hcursor.trans hother.2⟩
  induction reasons generalizing drain with
  | nil => exact .inl ⟨rfl, rfl⟩
  | cons other reasons ih =>
    obtain ⟨hother, hrest⟩ := List.nodup_cons.mp hnodup
    rw [List.foldl_cons]
    by_cases heq : other = reason
    · subst heq
      obtain ⟨hreadings, hcursor⟩ := hsame reasons hother (prewarmReason around size now horizon budget drain other)
      have hpass := prewarmReason_outcome around size now horizon budget other drain
      rw [Outcome, hreadings, hcursor]
      exact hpass
    · obtain ⟨hreadings, hcursor⟩ := prewarmReason_other around size now horizon budget heq drain
      have hpasses := ih hrest (prewarmReason around size now horizon budget drain other)
      rw [Outcome, hreadings, hcursor] at hpasses
      exact hpasses

variable (reason) in
/-- A drain reads a reason once at most. -/
theorem prewarm_outcome (prewarmMaxAgents : Int) (world : World) (cursors : ParkCursors) :
    ((prewarm around size now horizon prewarmMaxAgents world cursors).readingsOn reason = [] ∧
      (prewarm around size now horizon prewarmMaxAgents world cursors).cursors ("prewarm", reason) =
        cursors ("prewarm", reason)) ∨
    ∃ reading, reading.reason = reason ∧
      (prewarm around size now horizon prewarmMaxAgents world cursors).readingsOn reason = [reading] ∧
      reading.Moves size (cursors ("prewarm", reason))
        ((prewarm around size now horizon prewarmMaxAgents world cursors).cursors ("prewarm", reason)) := by
  rw [prewarm]
  split
  · exact .inl ⟨rfl, rfl⟩
  · exact foldl_prewarmReason_outcome (by decide) _

end Drains

/-- The ids that a drain looked at for a reason, in order. -/
def Drain.examined {World : Type} (drain : Drain World) (reason : ParkReason) : List String :=
  (drain.readingsOn reason).flatMap Reading.looked

/-- A park that stays parked is on every page's collection that a drain reads for its reason. -/
def Drain.Stays {World : Type} (drain : Drain World) (reason : ParkReason) (id : String) : Prop :=
  ∀ reading ∈ drain.readingsOn reason, id ∈ reading.tasks.parkIds reason

section Runs

variable {size : Nat} {reason : ParkReason}

/-- The windows of parks that stay are the turns of a window over their ids. -/
theorem exists_call {sweep : String} {tasks : Nat → Collection} {cursors : Nat → ParkCursors} {parks : Finset String}
    (hsize : 1 ≤ size) (hparks : ∀ k id, id ∈ (tasks k).parkIds reason ↔ id ∈ parks)
    (hcursors : ∀ k, cursors (k + 1) (sweep, reason) =
      (parkedWindow size (tasks k) reason sweep (cursors k)).2 (sweep, reason)) {id : String} (hid : id ∈ parks) :
    ∃ k < parks.card / size + 2, id ∈ (parkedWindow size (tasks k) reason sweep (cursors k)).1.map Prod.fst := by
  have hsorted := pairwise_parkIds (tasks 0) reason
  have hsame : ∀ k, (tasks k).parkIds reason = (tasks 0).parkIds reason := by
    intro k
    refine (pairwise_parkIds (tasks k) reason).eq_of_mem_iff hsorted fun id => ?_
    rw [hparks, hparks]
  have hcard : ((tasks 0).parkIds reason).length = parks.card := by
    have hfinset : ((tasks 0).parkIds reason).toFinset = parks := by
      ext id
      rw [List.mem_toFinset, hparks]
    rw [← hfinset, List.toFinset_card_of_nodup hsorted.nodup]
  have hturns : Rotation.Turns size ((tasks 0).parkIds reason) fun k => cursors k (sweep, reason) := by
    intro k
    dsimp only
    rw [hcursors, parkedWindow_cursor, hsame]
  obtain ⟨k, hk, hread⟩ := hturns.reached_within (j := 0) hsorted hsize ((hparks 0 id).mpr hid)
  rw [hcard] at hk
  rw [Nat.zero_add] at hread
  refine ⟨k, hk, ?_⟩
  rw [parkedWindow, map_fst_parkedPage, hsame]
  exact hread

variable {World : Type} {around : Surroundings World} {clock horizon : Nat → Instant} {agents : Nat → Int}
  {worlds : Nat → World} {cursors : Nat → ParkCursors} {drains : Nat → Drain World}

theorem drain_moves
    (hdrains : ∀ n, drains n = prewarm around size (clock n) (horizon n) (agents n) (worlds n) (cursors n))
    (hcursors : ∀ n, cursors (n + 1) ("prewarm", reason) = (drains n).cursors ("prewarm", reason)) (n : Nat) :
    ((drains n).readingsOn reason = [] ∧ cursors (n + 1) ("prewarm", reason) = cursors n ("prewarm", reason)) ∨
      ∃ reading, (drains n).readingsOn reason = [reading] ∧
        reading.Moves size (cursors n ("prewarm", reason)) (cursors (n + 1) ("prewarm", reason)) := by
  rw [hcursors, hdrains]
  rcases prewarm_outcome reason (agents n) (worlds n) (cursors n) with hnone | ⟨reading, -, hread⟩
  · exact .inl hnone
  · exact .inr ⟨reading, hread⟩

/-- A drain is a turn over the parks that it read, and over any others if it read none. -/
theorem drain_turn (hsize : 1 ≤ size)
    (hdrains : ∀ n, drains n = prewarm around size (clock n) (horizon n) (agents n) (worlds n) (cursors n))
    (hcursors : ∀ n, cursors (n + 1) ("prewarm", reason) = (drains n).cursors ("prewarm", reason)) (other : String)
    (n : Nat) :
    ∃ ids : List String, ids.Pairwise (· < ·) ∧
      Rotation.Turn ids (cursors n ("prewarm", reason)) (cursors (n + 1) ("prewarm", reason))
        ((drains n).examined reason) ∧
      ((drains n).Stays reason other → other ∈ ids) := by
  rcases drain_moves hdrains hcursors n with ⟨hnone, hcursor⟩ | ⟨reading, hread, hmoves⟩
  · refine ⟨[other], List.pairwise_singleton _ _, ⟨?_, .inr (.inl ⟨hcursor, ?_⟩)⟩, fun _ => List.mem_singleton_self _⟩
    · rw [Drain.examined, hnone]
      exact List.nil_prefix
    · rw [Drain.examined, hnone]
      rfl
  · have hmem : reading ∈ (drains n).readingsOn reason := by
      rw [hread]
      exact List.mem_singleton_self _
    have hreason : reading.reason = reason := of_decide_eq_true (List.mem_filter.mp hmem).2
    have hturn := hmoves.turn hsize
    rw [hreason] at hturn
    refine ⟨reading.tasks.parkIds reason, pairwise_parkIds _ _, ?_, fun hstays => hstays reading hmem⟩
    rw [Drain.examined, hread, List.flatMap_singleton]
    exact hturn

end Runs

/-- No park is hidden from its sweep. Every window of a set of parks that stays reaches each of them, whatever the
cursor it starts from, within as many calls as there are full pages and two more. Each drain of `_prewarm` starts past
the last park that the one before it looked at, so every park that stays is looked at between any two times that
another one is. -/
theorem no_park_hidden {size : Nat} (hsize : 1 ≤ size) :
    (∀ (reason : ParkReason) (sweep : String) (tasks : Nat → Collection) (cursors : Nat → ParkCursors)
      (parks : Finset String), (∀ k id, id ∈ (tasks k).parkIds reason ↔ id ∈ parks) →
      (∀ k, cursors (k + 1) (sweep, reason) =
        (parkedWindow size (tasks k) reason sweep (cursors k)).2 (sweep, reason)) →
      ∀ id ∈ parks, ∃ k < parks.card / size + 2,
        id ∈ (parkedWindow size (tasks k) reason sweep (cursors k)).1.map Prod.fst) ∧
    ∀ (World : Type) (around : Surroundings World) (reason : ParkReason) (clock horizon : Nat → Instant)
      (agents : Nat → Int) (worlds : Nat → World) (cursors : Nat → ParkCursors) (drains : Nat → Drain World),
      (∀ n, drains n = prewarm around size (clock n) (horizon n) (agents n) (worlds n) (cursors n)) →
      (∀ n, cursors (n + 1) ("prewarm", reason) = (drains n).cursors ("prewarm", reason)) →
      (∀ n, ((drains n).readingsOn reason = [] ∧
          cursors (n + 1) ("prewarm", reason) = cursors n ("prewarm", reason)) ∨
        ∃ reading, (drains n).readingsOn reason = [reading] ∧
          reading.Moves size (cursors n ("prewarm", reason)) (cursors (n + 1) ("prewarm", reason))) ∧
      ∀ (m n : Nat) (id other : String) (before after before' after' : List String), m < n → other ≠ id →
        (drains m).examined reason = before ++ id :: after → (drains n).examined reason = before' ++ id :: after' →
        (∀ k, m ≤ k → k ≤ n → (drains k).Stays reason other) →
        other ∈ after ∨ other ∈ before' ∨ ∃ k, m < k ∧ k < n ∧ other ∈ (drains k).examined reason := by
  refine ⟨fun reason sweep tasks cursors parks hparks hcursors id hid => exists_call hsize hparks hcursors hid, ?_⟩
  intro World around reason clock horizon agents worlds cursors drains hdrains hcursors
  refine ⟨drain_moves hdrains hcursors, ?_⟩
  intro m n id other before after before' after' hmn hne hfirst hsecond hstays
  choose ids hsorted hturns hmem using drain_turn hsize hdrains hcursors other
  exact Rotation.taken_between hturns hsorted hmn hne.symm
    (fun k hmk hkn => hmem k (hstays k hmk hkn)) hfirst hsecond

section TwoParks

def twoParks : Collection where
  docs := [("b", { tenantId := "eng", state := .parked, parkReason := some .providerOutage }),
    ("a", { tenantId := "eng", state := .parked, parkReason := some .providerOutage })]
  distinct := by decide

/-- Every park may be promoted, and the parks are there again in the next drain. -/
def reparking : Surroundings Unit where
  tasks _ := twoParks
  stopForFailedWorkflow world _ := (world, false)
  guarded _ _ := true
  heldByPool _ _ _ := false
  promote world _ := (world, true)

/-- The cursors of a sweep that starts from the id of no park. -/
def fromGone : Nat → ParkCursors
  | 0 => fun _ => some "az"
  | n + 1 => (parkedWindow 2 twoParks .providerOutage "" (fromGone n)).2

/-- The cursors of drains that promote one park each. -/
def oneEach : Nat → ParkCursors
  | 0 => fun _ => none
  | n + 1 => (prewarm reparking 2 0 0 1 () (oneEach n)).cursors

theorem no_park_hidden_two :
    (∃ k < 3, "a" ∈ (parkedWindow 2 twoParks .providerOutage "" (fromGone k)).1.map Prod.fst) ∧
    ("b" ∈ [] ∨ "b" ∈ [] ∨ ∃ k, 0 < k ∧ k < 2 ∧
      "b" ∈ (prewarm reparking 2 0 0 1 () (oneEach k)).examined .providerOutage) := by
  constructor
  · have hids : twoParks.parkIds .providerOutage = ["a", "b"] := by decide
    exact (no_park_hidden (by decide : 1 ≤ 2)).1 .providerOutage "" (fun _ => twoParks) fromGone {"a", "b"}
      (fun _ id => by simp [hids]) (fun _ => rfl) "a" (by decide)
  · refine ((no_park_hidden (by decide : 1 ≤ 2)).2 Unit reparking .providerOutage (fun _ => 0) (fun _ => 0) (fun _ => 1)
      (fun _ => ()) oneEach (fun n => prewarm reparking 2 0 0 1 () (oneEach n)) (fun _ => rfl) (fun _ => rfl)).2 0 2 "a"
      "b" [] [] [] [] (by decide) (by decide) (by decide) (by decide) ?_
    intro k _ hk
    rw [Drain.Stays]
    interval_cases k <;> decide

end TwoParks

end SwarmCloud.Scheduler
