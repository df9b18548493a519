import Mathlib.Algebra.BigOperators.Group.List.Basic
import SwarmCloud.Common.Pools
import SwarmCloud.Lib.Dict
import SwarmCloud.Lib.Newest

/-! # The health record of an account

`fold_health` and `_counts_since`: a record counts its events by the hour for a
week and keeps the newest fifty. The key of a bucket is the text of its hour; here
it is the number of the hour. Of an event, the time and the kind.
-/

namespace SwarmCloud.Accounts.Health

open Common Lib

/-- `HEALTH_KINDS`. -/
inductive HealthKind
  | rateLimit
  | exhausted
  | auth
  | overloaded
  | serverError
  | network
  | assignRefused
  | reauth
  | refreshFailed
deriving DecidableEq, Repr

structure HealthEvent where
  at_ : Instant
  kind : HealthKind
deriving DecidableEq, Repr

structure HealthRecord where
  hourly : Dict Int (Dict HealthKind Nat) := []
  events : List HealthEvent := []
  limitedUntil : Option Instant := none
  updatedAt : Option Instant := none

def healthRetention : Instant := seconds (7 * 86400)

def healthEventsMax : Nat := 50

/-- `_hour_key`. -/
def hourKey (moment : Instant) : Int := moment / seconds 3600

/-- `_hour_start`. -/
def hourStart (key : Int) : Instant := key * seconds 3600

def foldHealth (raw : HealthRecord) (event : HealthEvent) (now : Instant) (limitedUntil : Option Instant) :
    HealthRecord where
  hourly :=
    let kept := raw.hourly.filter fun item => now - healthRetention < hourStart item.1 + seconds 3600
    let bucket := (kept.lookup (hourKey event.at_)).getD []
    Dict.set (hourKey event.at_) (Dict.set event.kind ((bucket.lookup event.kind).getD 0 + 1) bucket) kept
  events := (raw.events ++ [event]).rtake healthEventsMax
  limitedUntil :=
    match limitedUntil, raw.limitedUntil with
    | some until_, some stored => if stored < until_ then some until_ else some stored
    | some until_, none => some until_
    | none, stored => stored
  updatedAt := some now

/-- Whether the stored events reach back to an instant. -/
def covered (raw : HealthRecord) (since : Instant) : Bool :=
  raw.events.length < healthEventsMax || raw.events.head?.any fun event => event.at_ ≤ since

def countsSince (raw : HealthRecord) (since : Instant) (kind : HealthKind) : Nat :=
  if covered raw since then raw.events.countP fun event => since ≤ event.at_ ∧ event.kind = kind
  else
    ((raw.hourly.filter fun item => hourStart (hourKey since) ≤ hourStart item.1).map fun item =>
      ((item.2.filter fun count => count.1 = kind).map Prod.snd).sum).sum

/-- A call of `fold_health`, its event stamped at its own instant. -/
structure Fold where
  event : HealthEvent
  limitedUntil : Option Instant := none

/-- The record after calls in order. -/
def folded (folds : List Fold) : HealthRecord :=
  folds.foldl (fun raw fold => foldHealth raw fold.event fold.event.at_ fold.limitedUntil) {}

/-- The events of a kind at or after an instant, of all that were folded. -/
def eventsSince (folds : List Fold) (since : Instant) (kind : HealthKind) : Nat :=
  folds.countP fun fold => since ≤ fold.event.at_ ∧ fold.event.kind = kind

/-- What a reader is told of the events since an instant. -/
structure Sound (folds : List Fold) (since : Instant) : Prop where
  never_fewer : ∀ kind, eventsSince folds since kind ≤ countsSince (folded folds) since kind
  at_most_the_hour : ∀ kind,
    countsSince (folded folds) since kind ≤ eventsSince folds (hourStart (hourKey since)) kind
  exact_ : (folds.length < healthEventsMax ∨ ∃ oldest ∈ (folded folds).events.head?, oldest.at_ ≤ since) →
    ∀ kind, countsSince (folded folds) since kind = eventsSince folds since kind
  bounded : (folded folds).events.length ≤ healthEventsMax
  latest : (folded folds).limitedUntil = (folds.filterMap Fold.limitedUntil).max?

/-- The oldest event that is kept and the newest one that is gone are both at the instant. -/
def Straddles (folds : List Fold) (since : Instant) : Prop :=
  ∃ earlier lost kept later, folds = earlier ++ lost :: kept :: later ∧ later.length + 1 = healthEventsMax ∧
    lost.event.at_ = since ∧ kept.event.at_ = since

/-! ## The record call by call -/

theorem folded_append_singleton (folds : List Fold) (fold : Fold) :
    folded (folds ++ [fold]) = foldHealth (folded folds) fold.event fold.event.at_ fold.limitedUntil := by
  rw [folded, List.foldl_append]
  rfl

theorem events_folded (folds : List Fold) :
    (folded folds).events = (folds.map Fold.event).rtake healthEventsMax := by
  induction folds using List.reverseRecOn with
  | nil => rfl
  | append_singleton folds fold ih =>
    rw [folded_append_singleton]
    dsimp only [foldHealth]
    rw [ih, rtake_append_rtake, List.map_append, List.map_singleton]

theorem length_events_folded (folds : List Fold) :
    (folded folds).events.length = min healthEventsMax folds.length := by
  rw [events_folded, length_rtake, List.length_map]

theorem limitedUntil_folded (folds : List Fold) :
    (folded folds).limitedUntil = (folds.filterMap Fold.limitedUntil).max? := by
  induction folds using List.reverseRecOn with
  | nil => rfl
  | append_singleton folds fold ih =>
    rw [folded_append_singleton]
    dsimp only [foldHealth]
    rw [ih, List.filterMap_append]
    cases hlimit : fold.limitedUntil with
    | none => simp [hlimit]
    | some until_ =>
      cases hlimits : folds.filterMap Fold.limitedUntil with
      | nil => simp [hlimit]
      | cons limit limits =>
        simp only [List.filterMap_cons, hlimit, List.filterMap_nil, List.max?_cons', List.cons_append,
          List.foldl_append, List.foldl_cons, List.foldl_nil]
        split
        · rename_i hlater
          rw [max_eq_right (le_of_lt hlater)]
        · rename_i hearlier
          rw [max_eq_left (not_lt.mp hearlier)]

/-! ## The buckets -/

theorem hourStart_hourKey_le (moment : Instant) : hourStart (hourKey moment) ≤ moment := by
  rw [hourStart, hourKey, seconds]
  lia

theorem lt_hour_end (moment : Instant) : moment < hourStart (hourKey moment) + seconds 3600 := by
  rw [hourStart, hourKey, seconds]
  lia

theorem hourStart_le_hourStart_iff (key : Int) (moment : Instant) :
    hourStart key ≤ hourStart (hourKey moment) ↔ hourStart key ≤ moment := by
  rw [hourStart, hourStart, hourKey, seconds]
  lia

/-- The count of a kind in one bucket. -/
def bucketCount (kind : HealthKind) (bucket : Dict HealthKind Nat) : Nat :=
  Dict.total (fun k n => if k = kind then n else 0) bucket

/-- The counts of a kind in the buckets that start at an instant or later. -/
def hoursCount (since : Instant) (kind : HealthKind) (hourly : Dict Int (Dict HealthKind Nat)) : Nat :=
  Dict.total (fun key bucket => if since ≤ hourStart key then bucketCount kind bucket else 0) hourly

theorem sum_filter {α : Type*} (l : List α) (p : α → Bool) (f : α → Nat) :
    ((l.filter p).map f).sum = (l.map fun a => if p a then f a else 0).sum := by
  induction l with
  | nil => rfl
  | cons a l ih =>
    rw [List.filter_cons, List.map_cons, List.sum_cons, ← ih]
    split <;> simp

theorem countsSince_of_not_covered {raw : HealthRecord} {since : Instant} (h : ¬covered raw since)
    (kind : HealthKind) :
    countsSince raw since kind = hoursCount (hourStart (hourKey since)) kind raw.hourly := by
  rw [countsSince, if_neg h, sum_filter, hoursCount, Dict.total]
  simp only [bucketCount, Dict.total, sum_filter, decide_eq_true_eq]

/-- Of one event the bucket of its kind has one more. -/
theorem bucketCount_bump (kind : HealthKind) (bucket : Dict HealthKind Nat) (k : HealthKind) :
    bucketCount kind (bucket.set k ((bucket.lookup k).getD 0 + 1)) =
      bucketCount kind bucket + if k = kind then 1 else 0 := by
  have htotal := Dict.total_set (fun k n => if k = kind then n else 0) bucket k ((bucket.lookup k).getD 0 + 1)
  rw [← bucketCount, ← bucketCount] at htotal
  cases hlookup : bucket.lookup k with
  | none =>
    simp only [hlookup, Option.elim_none, Option.getD_none] at htotal ⊢
    omega
  | some n =>
    simp only [hlookup, Option.elim_some, Option.getD_some] at htotal ⊢
    by_cases hk : k = kind
    · simp only [hk, if_true] at htotal ⊢
      omega
    · simp only [hk, if_false] at htotal ⊢
      omega

theorem hoursCount_bump (since : Instant) (kind : HealthKind) (hourly : Dict Int (Dict HealthKind Nat)) (key : Int)
    (k : HealthKind) :
    let bucket := (hourly.lookup key).getD []
    hoursCount since kind (hourly.set key (bucket.set k ((bucket.lookup k).getD 0 + 1))) =
      hoursCount since kind hourly + if since ≤ hourStart key ∧ k = kind then 1 else 0 := by
  intro bucket
  have htotal := Dict.total_set (fun key bucket => if since ≤ hourStart key then bucketCount kind bucket else 0)
    hourly key (bucket.set k ((bucket.lookup k).getD 0 + 1))
  rw [← hoursCount, ← hoursCount, bucketCount_bump] at htotal
  have hold : (hourly.lookup key).elim 0 (fun bucket => if since ≤ hourStart key then bucketCount kind bucket else 0) =
      if since ≤ hourStart key then bucketCount kind bucket else 0 := by
    cases hlookup : hourly.lookup key with
    | none => simp [bucket, hlookup, bucketCount, Dict.total]
    | some found => simp [bucket, hlookup]
  rw [hold] at htotal
  by_cases hsince : since ≤ hourStart key
  · simp only [hsince, if_true, true_and] at htotal ⊢
    omega
  · simp only [hsince, if_false, false_and] at htotal ⊢
    omega

/-- What is pruned started before the instant. -/
theorem hoursCount_pruned {oldest since : Instant} (h : oldest < since + seconds 3600) (kind : HealthKind)
    (hourly : Dict Int (Dict HealthKind Nat)) :
    hoursCount since kind (hourly.filter fun item => oldest < hourStart item.1 + seconds 3600) =
      hoursCount since kind hourly := by
  rw [hoursCount, Dict.total, sum_filter, hoursCount, Dict.total]
  congr 1
  refine List.map_congr_left fun item _ => ?_
  split
  · rfl
  · rename_i hpruned
    rw [if_neg]
    intro hsince
    apply hpruned
    rw [decide_eq_true_eq]
    lia

section Runs

variable {folds : List Fold} (horder : folds.Pairwise fun fold fold' => fold.event.at_ ≤ fold'.event.at_)
include horder

/-- The buckets of the hours that are not over at the retention's edge hold every event of theirs. -/
theorem hoursCount_folded {now : Instant} (hpast : ∀ fold ∈ folds, fold.event.at_ ≤ now) {key : Int}
    (hkey : now - healthRetention < hourStart key + seconds 3600) (kind : HealthKind) :
    hoursCount (hourStart key) kind (folded folds).hourly = eventsSince folds (hourStart key) kind := by
  induction folds using List.reverseRecOn generalizing now with
  | nil => rfl
  | append_singleton folds fold ih =>
    obtain ⟨hearlier, -, hlast⟩ := List.pairwise_append.mp horder
    have hnow := hpast fold (by simp)
    have hedge : fold.event.at_ - healthRetention < hourStart key + seconds 3600 := by lia
    have hbefore := ih hearlier (fun other hother => hlast other hother fold (by simp)) hedge
    have hhour := hourStart_le_hourStart_iff key fold.event.at_
    rw [folded_append_singleton]
    dsimp only [foldHealth]
    rw [hoursCount_bump, hoursCount_pruned hedge, hbefore, eventsSince, eventsSince, List.countP_append,
      List.countP_singleton]
    simp only [hhour, decide_eq_true_eq]

/-- What is gone is not newer than what is kept. -/
theorem lost_le {lost kept : List Fold} (hsplit : folds = lost ++ kept) {gone oldest : Fold} (hgone : gone ∈ lost)
    (holdest : oldest ∈ kept) : gone.event.at_ ≤ oldest.event.at_ := by
  subst hsplit
  exact (List.pairwise_append.mp horder).2.2 gone hgone oldest holdest

end Runs

theorem countP_events (folds : List Fold) (since : Instant) (kind : HealthKind) :
    (folds.map Fold.event).countP (fun event => since ≤ event.at_ ∧ event.kind = kind) =
      eventsSince folds since kind := by
  rw [List.countP_map]
  rfl

theorem eventsSince_append (lost kept : List Fold) (since : Instant) (kind : HealthKind) :
    eventsSince (lost ++ kept) since kind = eventsSince lost since kind + eventsSince kept since kind :=
  List.countP_append

/-- An event at or after an instant is at or after the start of its hour. -/
theorem eventsSince_le_hour (folds : List Fold) (since : Instant) (kind : HealthKind) :
    eventsSince folds since kind ≤ eventsSince folds (hourStart (hourKey since)) kind := by
  refine List.countP_mono_left fun fold _ hfold => ?_
  have hfloor := hourStart_hourKey_le since
  rw [decide_eq_true_eq] at hfold ⊢
  exact ⟨hfloor.trans hfold.1, hfold.2⟩

/-- The record after more calls than it keeps events of. -/
structure Capped (folds lost : List Fold) (oldest : Fold) (later : List Fold) : Prop where
  split : folds = lost ++ oldest :: later
  length : later.length + 1 = healthEventsMax

namespace Capped

variable {folds lost later : List Fold} {oldest : Fold} (h : Capped folds lost oldest later)
include h

theorem events : (folded folds).events = oldest.event :: later.map Fold.event := by
  have hkept := rtake_append_length (lost.map Fold.event) (oldest.event :: later.map Fold.event)
  rw [List.length_cons, List.length_map, h.length] at hkept
  rw [events_folded, h.split, List.map_append, List.map_cons, hkept]

theorem covered_iff (since : Instant) : covered (folded folds) since ↔ oldest.event.at_ ≤ since := by
  have hlength := h.length
  rw [covered, h.events, List.head?_cons, Option.any_some, List.length_cons, List.length_map]
  simp [hlength]

/-- Where the events reach back, the events that are gone are not counted. -/
theorem eventsSince_eq {since : Instant} (hcovered : oldest.event.at_ ≤ since) (kind : HealthKind) :
    eventsSince folds since kind = eventsSince lost since kind + countsSince (folded folds) since kind := by
  rw [countsSince, if_pos ((h.covered_iff since).mpr hcovered), h.events, ← List.map_cons, countP_events, h.split,
    eventsSince_append]

end Capped

theorem capped_or (folds : List Fold) :
    folds.length < healthEventsMax ∨ ∃ lost oldest later, Capped folds lost oldest later := by
  rcases Nat.lt_or_ge folds.length healthEventsMax with hfew | hmany
  · exact .inl hfew
  · obtain ⟨lost, oldest, later, hsplit, hlength⟩ := exists_oldest (n := 49) hmany
    exact .inr ⟨lost, oldest, later, hsplit, by rw [hlength]; rfl⟩

/-- Before the cap every event is there to be counted. -/
theorem countsSince_of_few {folds : List Fold} (h : folds.length < healthEventsMax) (since : Instant)
    (kind : HealthKind) : countsSince (folded folds) since kind = eventsSince folds since kind := by
  have hevents : (folded folds).events = folds.map Fold.event := by
    rw [events_folded, rtake_of_length_le]
    rw [List.length_map]
    exact Nat.le_of_lt h
  have hcovered : covered (folded folds) since := by
    rw [covered, hevents, List.length_map, decide_eq_true h, Bool.true_or]
  rw [countsSince, if_pos hcovered, hevents, countP_events]

/-- Unless the cut falls between two events at the instant, no event that is gone is at it or after it. -/
theorem eventsSince_lost {folds lost later : List Fold} {oldest : Fold} (h : Capped folds lost oldest later)
    (horder : folds.Pairwise fun fold fold' => fold.event.at_ ≤ fold'.event.at_) {since : Instant}
    (hcovered : oldest.event.at_ ≤ since) (hcut : ¬Straddles folds since) (kind : HealthKind) :
    eventsSince lost since kind = 0 := by
  rcases List.eq_nil_or_concat lost with rfl | ⟨earlier, last, rfl⟩
  · rfl
  · rw [List.concat_eq_append] at h ⊢
    have hsplit : folds = earlier ++ last :: oldest :: later := by rw [h.split, List.append_assoc]; rfl
    have hlast : last.event.at_ ≤ oldest.event.at_ := lost_le horder h.split (by simp) (by simp)
    have hbefore : last.event.at_ < since := by
      rcases lt_or_ge last.event.at_ since with hlt | hge
      · exact hlt
      · exact absurd ⟨earlier, last, oldest, later, hsplit, h.length, le_antisymm (hlast.trans hcovered) hge,
          le_antisymm hcovered (hge.trans hlast)⟩ hcut
    refine List.countP_eq_zero.mpr fun gone hgone => ?_
    have hle : gone.event.at_ ≤ last.event.at_ := by
      rcases List.mem_append.mp hgone with hgone | hgone
      · exact lost_le horder hsplit hgone (by simp)
      · rw [List.mem_singleton.mp hgone]
    rw [decide_eq_true_eq]
    exact fun hsince => absurd (hsince.1.trans hle) (not_le.mpr hbefore)

theorem sound_of_not_straddles {folds : List Fold}
    (horder : folds.Pairwise fun fold fold' => fold.event.at_ ≤ fold'.event.at_) {now since : Instant}
    (hpast : ∀ fold ∈ folds, fold.event.at_ ≤ now) (hwindow : now - healthRetention ≤ since)
    (hcut : ¬Straddles folds since) : Sound folds since := by
  have hbounded : (folded folds).events.length ≤ healthEventsMax := by
    rw [length_events_folded]
    exact Nat.min_le_left _ _
  have hexact : (∀ kind, countsSince (folded folds) since kind = eventsSince folds since kind) →
      Sound folds since := fun hcount =>
    { never_fewer := fun kind => (hcount kind).ge
      at_most_the_hour := fun kind => (hcount kind).trans_le (eventsSince_le_hour folds since kind)
      exact_ := fun _ => hcount
      bounded := hbounded
      latest := limitedUntil_folded folds }
  rcases capped_or folds with hfew | ⟨lost, oldest, later, h⟩
  · exact hexact (countsSince_of_few hfew since)
  · rcases le_or_gt oldest.event.at_ since with hcovered | hlate
    · refine hexact fun kind => ?_
      rw [h.eventsSince_eq hcovered, eventsSince_lost h horder hcovered hcut, Nat.zero_add]
    · have hbuckets : ∀ kind, countsSince (folded folds) since kind =
          eventsSince folds (hourStart (hourKey since)) kind := by
        intro kind
        rw [countsSince_of_not_covered (by rw [h.covered_iff]; exact not_le.mpr hlate),
          hoursCount_folded horder hpast (lt_of_le_of_lt hwindow (lt_hour_end since))]
      refine ⟨fun kind => ?_, fun kind => (hbuckets kind).le, fun hreach => ?_, hbounded, limitedUntil_folded folds⟩
      · rw [hbuckets]
        exact eventsSince_le_hour folds since kind
      · rcases hreach with hfew | ⟨first, hfirst, hle⟩
        · rw [h.split, List.length_append, List.length_cons, h.length] at hfew
          omega
        · rw [h.events, List.head?_cons] at hfirst
          cases hfirst
          exact absurd hle (not_le.mpr hlate)

/-- The event before the cut is at the instant too and is not counted. -/
theorem not_sound_of_straddles {folds : List Fold} {since : Instant} (h : Straddles folds since) :
    ¬Sound folds since := by
  intro hsound
  obtain ⟨earlier, lost, kept, later, hsplit, hlength, hlost, hkept⟩ := h
  have hcapped : Capped folds (earlier ++ [lost]) kept later := ⟨by rw [hsplit, List.append_assoc]; rfl, hlength⟩
  have hnever := hsound.never_fewer lost.event.kind
  have hcount := hcapped.eventsSince_eq hkept.le lost.event.kind
  have hgone : eventsSince [lost] since lost.event.kind = 1 := by simp [eventsSince, hlost]
  rw [eventsSince_append, hgone] at hcount
  omega

/-- The counts of a record are sound exactly where its events are not cut between two at the instant. -/
theorem sound_iff (folds : List Fold)
    (horder : folds.Pairwise fun fold fold' => fold.event.at_ ≤ fold'.event.at_) (now since : Instant)
    (hpast : ∀ fold ∈ folds, fold.event.at_ ≤ now) (hwindow : now - healthRetention ≤ since) :
    Sound folds since ↔ ¬Straddles folds since :=
  ⟨fun hsound hcut => not_sound_of_straddles hcut hsound, sound_of_not_straddles horder hpast hwindow⟩

/-- An event every two minutes, for two hours. -/
def everyTwoMinutes : List Fold :=
  (List.range 60).map fun n : Nat => ⟨⟨seconds (120 * n), if n % 4 = 0 then .exhausted else .auth⟩, none⟩

theorem everyTwoMinutes_ordered : everyTwoMinutes.Pairwise fun fold fold' => fold.event.at_ < fold'.event.at_ := by
  refine List.pairwise_map.mpr (List.pairwise_lt_range.imp fun {m n} hlt => ?_)
  change 120 * (m : Int) * 1000000 < 120 * n * 1000000
  omega

set_option maxRecDepth 8000 in
/-- Ten minutes after the first event, which is before what is left of the events: the hours are counted. -/
theorem sound_iff_sixty :
    Sound everyTwoMinutes (seconds 600) ∧ eventsSince everyTwoMinutes (seconds 600) .auth = 42 ∧
      countsSince (folded everyTwoMinutes) (seconds 600) .auth = 45 := by
  refine ⟨?_, by decide, by decide⟩
  refine (sound_iff everyTwoMinutes (everyTwoMinutes_ordered.imp le_of_lt) (seconds 7200) (seconds 600) ?_
    (by decide)).mpr ?_
  · decide
  · rintro ⟨earlier, lost, kept, later, hsplit, -, hlost, hkept⟩
    have hordered := everyTwoMinutes_ordered
    rw [hsplit, List.pairwise_append] at hordered
    have hlt := (List.pairwise_cons.mp hordered.2.1).1 kept List.mem_cons_self
    rw [hlost, hkept] at hlt
    exact lt_irrefl _ hlt

/-- Fifty-one events at one instant: fifty are counted. -/
theorem fifty_one_at_once :
    ∃ folds : List Fold, ∃ now since : Instant,
      folds.Pairwise (fun fold fold' => fold.event.at_ ≤ fold'.event.at_) ∧
        (∀ fold ∈ folds, fold.event.at_ ≤ now) ∧ now - healthRetention ≤ since ∧ since ≤ now ∧
          ¬Sound folds since :=
  ⟨List.replicate 51 ⟨⟨0, .auth⟩, none⟩, 0, 0, List.pairwise_replicate.mpr (.inr (le_refl _)),
    fun _ hfold => (List.eq_of_mem_replicate hfold ▸ le_refl _), by decide, le_refl _,
    not_sound_of_straddles ⟨[], ⟨⟨0, .auth⟩, none⟩, ⟨⟨0, .auth⟩, none⟩, List.replicate 49 ⟨⟨0, .auth⟩, none⟩, rfl, rfl,
      rfl, rfl⟩⟩

end SwarmCloud.Accounts.Health
