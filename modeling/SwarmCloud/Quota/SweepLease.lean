import Mathlib.Data.List.Induction
import SwarmCloud.Common.Pools

/-! # The lease of the quota sweep

`quota_broker/sweeplease.py`: one document that names the sweep that may exchange
tokens. Each call is a transaction on it. `renew` and `release` look at the holder
only, never at the deadline, so a sweep stops owning the lease exactly when another
one has taken it over. The lease without a database answers the same calls from a
record of its own.
-/

namespace SwarmCloud.Quota.SweepLease

open Common

/-- `new_holder` puts a colon between the instance, the process and the request. -/
abbrev Holder := {name : String // name ≠ ""}

structure Document where
  holder : Holder
  acquiredAt : Instant
  renewedAt : Instant
  expiresAt : Instant
  releasedAt : Option Instant
  generation : Nat
  lastCompletedAt : Option Instant
  lastOutcome : Option String
deriving DecidableEq

structure LeaseState where
  acquired : Bool
  holder : Holder
  expiresAt : Option Instant
  generation : Option Nat
deriving DecidableEq

inductive Call
  | acquire (holder : Holder) (now : Instant)
  | renew (holder : Holder) (now : Instant)
  | release (holder : Holder) (outcome : Option String) (now : Instant)
deriving DecidableEq

inductive Answer
  | lease (state : LeaseState)
  | done (kept : Bool)
deriving DecidableEq

/-- An outcome that is recorded: `if outcome`. -/
def completed (outcome : Option String) : Option String := outcome.filter (· ≠ "")

/-! ## The stored lease -/

section Firestore

variable (ttl : Instant)

def Document.isLive (d : Document) (now : Instant) : Bool := d.releasedAt.isNone && now < d.expiresAt

def acquire (doc : Option Document) (holder : Holder) (now : Instant) : Option Document × LeaseState :=
  match doc.filter fun d => d.isLive now && d.holder != holder with
  | some d => (doc, ⟨false, d.holder, some d.expiresAt, some d.generation⟩)
  | none =>
    let generation := doc.elim 0 Document.generation + 1
    (some
      { holder := holder, acquiredAt := now, renewedAt := now, expiresAt := now + ttl, releasedAt := none
        generation := generation
        lastCompletedAt := doc.bind Document.lastCompletedAt
        lastOutcome := doc.bind Document.lastOutcome },
      ⟨true, holder, some (now + ttl), some generation⟩)

/-- The document, while it names this holder and is not released. -/
def owned (doc : Option Document) (holder : Holder) : Option Document :=
  doc.filter fun d => d.holder == holder && d.releasedAt.isNone

def renew (doc : Option Document) (holder : Holder) (now : Instant) : Option Document × Bool :=
  match owned doc holder with
  | none => (doc, false)
  | some d => (some { d with renewedAt := now, expiresAt := now + ttl }, true)

def release (doc : Option Document) (holder : Holder) (outcome : Option String) (now : Instant) :
    Option Document × Bool :=
  match owned doc holder with
  | none => (doc, false)
  | some d =>
    let released := { d with releasedAt := some now, expiresAt := now }
    (some (match completed outcome with
      | none => released
      | some outcome => { released with lastCompletedAt := some now, lastOutcome := some outcome }), true)

def step (doc : Option Document) : Call → Option Document × Answer
  | .acquire holder now => ((acquire ttl doc holder now).1, .lease (acquire ttl doc holder now).2)
  | .renew holder now => ((renew ttl doc holder now).1, .done (renew ttl doc holder now).2)
  | .release holder outcome now =>
    ((release doc holder outcome now).1, .done (release doc holder outcome now).2)

/-- The document after these calls, from one never written. -/
def after (calls : List Call) : Option Document := calls.foldl (fun doc call => (step ttl doc call).1) none

end Firestore

/-! ## The lease in one process -/

structure Record where
  holder : Holder
  expiresAt : Instant
  releasedAt : Option Instant
  generation : Nat
  lastCompletedAt : Option Instant
  lastOutcome : Option String
deriving DecidableEq

section InProcess

variable (ttl : Instant)

def Record.isLive (r : Record) (now : Instant) : Bool := r.releasedAt.isNone && now < r.expiresAt

def localAcquire (data : Option Record) (holder : Holder) (now : Instant) : Option Record × LeaseState :=
  match data.filter fun r => r.isLive now && r.holder != holder with
  | some r => (data, ⟨false, r.holder, some r.expiresAt, some r.generation⟩)
  | none =>
    let generation := data.elim 0 Record.generation + 1
    (some
      { holder := holder, expiresAt := now + ttl, releasedAt := none, generation := generation
        lastCompletedAt := data.bind Record.lastCompletedAt
        lastOutcome := data.bind Record.lastOutcome },
      ⟨true, holder, some (now + ttl), some generation⟩)

def localRenew (data : Option Record) (holder : Holder) (now : Instant) : Option Record × Bool :=
  match data.filter fun r => r.holder == holder && r.releasedAt.isNone with
  | none => (data, false)
  | some r => (some { r with expiresAt := now + ttl }, true)

def localRelease (data : Option Record) (holder : Holder) (outcome : Option String) (now : Instant) :
    Option Record × Bool :=
  match data.filter fun r => r.holder == holder && r.releasedAt.isNone with
  | none => (data, false)
  | some r =>
    let released := { r with releasedAt := some now, expiresAt := now }
    (some (match completed outcome with
      | none => released
      | some outcome => { released with lastCompletedAt := some now, lastOutcome := some outcome }), true)

def localStep (data : Option Record) : Call → Option Record × Answer
  | .acquire holder now =>
    ((localAcquire ttl data holder now).1, .lease (localAcquire ttl data holder now).2)
  | .renew holder now => ((localRenew ttl data holder now).1, .done (localRenew ttl data holder now).2)
  | .release holder outcome now =>
    ((localRelease data holder outcome now).1, .done (localRelease data holder outcome now).2)

def localAfter (calls : List Call) : Option Record :=
  calls.foldl (fun data call => (localStep ttl data call).1) none

end InProcess

/-! ## One call -/

section OneCall

variable {ttl now : Instant} {doc : Option Document} {d : Document} {holder : Holder} {outcome : Option String}

theorem owned_eq_some : owned doc holder = some d ↔ doc = some d ∧ d.holder = holder ∧ d.releasedAt = none := by
  rw [owned, Option.filter_eq_some_iff, Bool.and_eq_true, beq_iff_eq, Option.isNone_iff_eq_none]

theorem renew_eq_true : (renew ttl doc holder now).2 = true ↔ ∃ d, owned doc holder = some d := by
  unfold renew
  cases h : owned doc holder <;> simp

theorem release_eq_true : (release doc holder outcome now).2 = true ↔ ∃ d, owned doc holder = some d := by
  unfold release
  cases h : owned doc holder <;> simp

theorem renew_of_false (h : (renew ttl doc holder now).2 = false) : (renew ttl doc holder now).1 = doc := by
  unfold renew at h ⊢
  cases howned : owned doc holder with
  | none => rfl
  | some d => rw [howned] at h; cases h

theorem release_of_false (h : (release doc holder outcome now).2 = false) :
    (release doc holder outcome now).1 = doc := by
  unfold release at h ⊢
  cases howned : owned doc holder with
  | none => rfl
  | some d => rw [howned] at h; cases h

/-- A grant needs a document that nobody else holds alive, and writes a new one over it. -/
theorem acquire_cases (ttl : Instant) (doc : Option Document) (holder : Holder) (now : Instant) :
    (∃ d, doc = some d ∧ d.isLive now = true ∧ d.holder ≠ holder ∧
      acquire ttl doc holder now = (doc, ⟨false, d.holder, some d.expiresAt, some d.generation⟩)) ∨
    ((∀ d, doc = some d → d.isLive now = true → d.holder = holder) ∧
      acquire ttl doc holder now = (some
        { holder := holder, acquiredAt := now, renewedAt := now, expiresAt := now + ttl, releasedAt := none
          generation := doc.elim 0 Document.generation + 1
          lastCompletedAt := doc.bind Document.lastCompletedAt
          lastOutcome := doc.bind Document.lastOutcome },
        ⟨true, holder, some (now + ttl), some (doc.elim 0 Document.generation + 1)⟩)) := by
  unfold acquire
  cases hfilter : doc.filter fun d => d.isLive now && d.holder != holder with
  | some d =>
    obtain ⟨hdoc, hheld⟩ := Option.filter_eq_some_iff.mp hfilter
    obtain ⟨hlive, hother⟩ : d.isLive now = true ∧ d.holder ≠ holder := by simpa using hheld
    exact .inl ⟨d, hdoc, hlive, hother, rfl⟩
  | none =>
    refine .inr ⟨?_, rfl⟩
    intro d hdoc hlive
    have hnot := Option.filter_eq_none_iff.mp hfilter d hdoc
    simpa [hlive] using hnot

end OneCall

/-! ## The two leases agree -/

def Document.record (d : Document) : Record :=
  ⟨d.holder, d.expiresAt, d.releasedAt, d.generation, d.lastCompletedAt, d.lastOutcome⟩

theorem record_isLive (d : Document) (now : Instant) : d.record.isLive now = d.isLive now := rfl

theorem record_holder (d : Document) : d.record.holder = d.holder := rfl

theorem record_releasedAt (d : Document) : d.record.releasedAt = d.releasedAt := rfl

/-- Both leases decide on fields that both have. -/
theorem localStep_record (ttl : Instant) (doc : Option Document) (call : Call) :
    localStep ttl (doc.map Document.record) call =
      ((step ttl doc call).1.map Document.record, (step ttl doc call).2) := by
  cases doc with
  | none => cases call <;> rfl
  | some d =>
    cases call with
    | acquire holder now =>
      simp only [localStep, step, localAcquire, acquire, Option.map_some, Option.filter_some, record_isLive,
        record_holder]
      rcases Bool.eq_false_or_eq_true (d.isLive now && d.holder != holder) with hheld | hheld
      · simp only [hheld, if_true]
        rfl
      · simp only [hheld, Bool.false_eq_true, if_false]
        rfl
    | renew holder now =>
      simp only [localStep, step, localRenew, renew, owned, Option.map_some, Option.filter_some, record_holder,
        record_releasedAt]
      rcases Bool.eq_false_or_eq_true (d.holder == holder && d.releasedAt.isNone) with howned | howned
      · simp only [howned, if_true]
        rfl
      · simp only [howned, Bool.false_eq_true, if_false]
        rfl
    | release holder outcome now =>
      simp only [localStep, step, localRelease, release, owned, Option.map_some, Option.filter_some, record_holder,
        record_releasedAt]
      rcases Bool.eq_false_or_eq_true (d.holder == holder && d.releasedAt.isNone) with howned | howned
      · simp only [howned, if_true]
        cases completed outcome <;> rfl
      · simp only [howned, Bool.false_eq_true, if_false]
        rfl

theorem after_append (ttl : Instant) (calls : List Call) (call : Call) :
    after ttl (calls ++ [call]) = (step ttl (after ttl calls) call).1 := by
  simp [after]

theorem localAfter_append (ttl : Instant) (calls : List Call) (call : Call) :
    localAfter ttl (calls ++ [call]) = (localStep ttl (localAfter ttl calls) call).1 := by
  simp [localAfter]

theorem localAfter_eq (ttl : Instant) (calls : List Call) :
    localAfter ttl calls = (after ttl calls).map Document.record := by
  induction calls using List.reverseRecOn with
  | nil => rfl
  | append_singleton calls call ih => rw [localAfter_append, ih, localStep_record, after_append]

/-! ## Runs -/

/-- The holder that this call gives the lease to. -/
def granted (ttl : Instant) (doc : Option Document) : Call → Option Holder
  | .acquire holder now => if (acquire ttl doc holder now).2.acquired then some holder else none
  | _ => none

def kept : Answer → Bool
  | .lease state => state.acquired
  | .done kept => kept

section Runs

variable {ttl : Instant} {doc : Option Document} {call : Call} {before : List Call} {h : Holder} {d : Document}

/-- What a call leaves of a document: a grant names its holder, and every other call keeps the holder. -/
theorem step_holder (hdoc : (step ttl doc call).1 = some d) :
    granted ttl doc call = some d.holder ∨
      granted ttl doc call = none ∧ ∃ d₀, doc = some d₀ ∧ d₀.holder = d.holder := by
  cases call with
  | acquire holder now =>
    obtain ⟨d₀, hdoc₀, -, -, hacquire⟩ | ⟨-, hacquire⟩ := acquire_cases ttl doc holder now
    · rw [step, hacquire] at hdoc
      rw [granted, hacquire]
      exact .inr ⟨rfl, d, hdoc, rfl⟩
    · rw [step, hacquire] at hdoc
      rw [granted, hacquire, ← Option.some.inj hdoc]
      exact .inl rfl
  | renew holder now =>
    refine .inr ⟨rfl, ?_⟩
    rw [step, renew] at hdoc
    cases howned : owned doc holder with
    | none => rw [howned] at hdoc; exact ⟨d, hdoc, rfl⟩
    | some d₀ =>
      rw [howned] at hdoc
      obtain rfl := Option.some.inj hdoc
      exact ⟨d₀, (owned_eq_some.mp howned).1, rfl⟩
  | release holder outcome now =>
    refine .inr ⟨rfl, ?_⟩
    rw [step, release] at hdoc
    cases howned : owned doc holder with
    | none => rw [howned] at hdoc; exact ⟨d, hdoc, rfl⟩
    | some d₀ =>
      rw [howned] at hdoc
      refine ⟨d₀, (owned_eq_some.mp howned).1, ?_⟩
      cases hcompleted : completed outcome <;> rw [hcompleted] at hdoc <;> rw [← Option.some.inj hdoc]

/-- The holder of the document acquired it, and nobody was granted the lease since. -/
structure LastGranted (ttl : Instant) (calls : List Call) (h : Holder) : Prop where
  split : ∃ before now later, calls = before ++ .acquire h now :: later ∧
    granted ttl (after ttl before) (.acquire h now) = some h ∧
    ∀ between call rest, later = between ++ call :: rest →
      granted ttl (after ttl (before ++ .acquire h now :: between)) call = none

theorem lastGranted_of_holder {calls : List Call} (hdoc : after ttl calls = some d) :
    LastGranted ttl calls d.holder := by
  induction calls using List.reverseRecOn generalizing d with
  | nil => cases hdoc
  | append_singleton calls call ih =>
    rw [after_append] at hdoc
    obtain hgranted | ⟨hnone, d₀, hdoc₀, hholder⟩ := step_holder hdoc
    · cases call with
      | renew holder now => cases hgranted
      | release holder outcome now => cases hgranted
      | acquire holder now =>
        have hsame : holder = d.holder := by
          simp only [granted] at hgranted
          split at hgranted
          · exact Option.some.inj hgranted
          · cases hgranted
        subst hsame
        exact ⟨calls, now, [], rfl, hgranted, fun between call rest hsplit => by simp at hsplit⟩
    · obtain ⟨before, now, later, rfl, hgrant, hquiet⟩ := (ih hdoc₀).split
      rw [hholder] at hgrant hquiet ⊢
      refine ⟨before, now, later ++ [call], by simp, hgrant, ?_⟩
      intro between call' rest hsplit
      -- The call is the last one, or it is one of the earlier calls.
      rcases List.eq_nil_or_concat rest with rfl | ⟨rest, last, rfl⟩
      · obtain ⟨rfl, hlast⟩ := List.append_inj' hsplit rfl
        obtain rfl := (List.cons.inj hlast).1
        rwa [hholder] at hnone
      · rw [List.concat_eq_append, ← List.cons_append, ← List.append_assoc] at hsplit
        exact hquiet between call' rest (List.append_inj' hsplit rfl).1

/-- One call after any others keeps the lease to one sweep at a time. -/
structure Exclusive (ttl : Instant) (before : List Call) (call : Call) : Prop where
  one_renewer : ∀ h h' now now', (renew ttl (after ttl before) h now).2 = true →
    (renew ttl (after ttl before) h' now').2 = true → h = h'
  renew_current : ∀ h now, call = .renew h now → kept (step ttl (after ttl before) call).2 = true →
    LastGranted ttl before h
  release_current : ∀ h outcome now, call = .release h outcome now →
    kept (step ttl (after ttl before) call).2 = true → LastGranted ttl before h
  refused : kept (step ttl (after ttl before) call).2 = false →
    (step ttl (after ttl before) call).1 = after ttl before
  takeover : ∀ h now d, call = .acquire h now → granted ttl (after ttl before) call = some h →
    after ttl before = some d → d.holder ≠ h → d.releasedAt = none → d.expiresAt ≤ now
  generation : (∃ h, granted ttl (after ttl before) call = some h) ∧
      (after ttl before).elim 0 Document.generation <
        (step ttl (after ttl before) call).1.elim 0 Document.generation ∨
    granted ttl (after ttl before) call = none ∧
      (step ttl (after ttl before) call).1.elim 0 Document.generation =
        (after ttl before).elim 0 Document.generation
  completion : (step ttl (after ttl before) call).1.bind Document.lastCompletedAt ≠
        (after ttl before).bind Document.lastCompletedAt ∨
      (step ttl (after ttl before) call).1.bind Document.lastOutcome ≠
        (after ttl before).bind Document.lastOutcome →
    ∃ h outcome now, call = .release h (some outcome) now ∧ outcome ≠ "" ∧
      (∃ d, after ttl before = some d ∧ d.holder = h ∧ d.releasedAt = none)
  same_answer : (localStep ttl (localAfter ttl before) call).2 = (step ttl (after ttl before) call).2

theorem lastGranted_of_owned (howned : owned (after ttl before) h = some d) : LastGranted ttl before h := by
  obtain ⟨hdoc, hholder, -⟩ := owned_eq_some.mp howned
  exact hholder ▸ lastGranted_of_holder hdoc

theorem step_refused (hrefused : kept (step ttl doc call).2 = false) : (step ttl doc call).1 = doc := by
  cases call with
  | acquire holder now =>
    obtain ⟨d₀, -, -, -, hacquire⟩ | ⟨-, hacquire⟩ := acquire_cases ttl doc holder now
    · rw [step, hacquire]
    · rw [step, hacquire] at hrefused
      cases hrefused
  | renew holder now => exact renew_of_false hrefused
  | release holder outcome now => exact release_of_false hrefused

theorem step_generation (ttl : Instant) (doc : Option Document) (call : Call) :
    (∃ h, granted ttl doc call = some h) ∧
        doc.elim 0 Document.generation < (step ttl doc call).1.elim 0 Document.generation ∨
      granted ttl doc call = none ∧
        (step ttl doc call).1.elim 0 Document.generation = doc.elim 0 Document.generation := by
  cases call with
  | acquire holder now =>
    obtain ⟨d₀, -, -, -, hacquire⟩ | ⟨-, hacquire⟩ := acquire_cases ttl doc holder now
    · rw [granted, step, hacquire]
      exact .inr ⟨rfl, rfl⟩
    · rw [granted, step, hacquire]
      exact .inl ⟨⟨holder, rfl⟩, Nat.lt_succ_self _⟩
  | renew holder now =>
    refine .inr ⟨rfl, ?_⟩
    rw [step, renew]
    cases howned : owned doc holder with
    | none => rfl
    | some d₀ => rw [(owned_eq_some.mp howned).1]; rfl
  | release holder outcome now =>
    refine .inr ⟨rfl, ?_⟩
    rw [step, release]
    cases howned : owned doc holder with
    | none => rfl
    | some d₀ =>
      rw [(owned_eq_some.mp howned).1]
      cases completed outcome <;> rfl

/-- Only a release with an outcome, by the current holder, writes the completion. -/
theorem step_completion (hchanged : (step ttl doc call).1.bind Document.lastCompletedAt ≠
      doc.bind Document.lastCompletedAt ∨
    (step ttl doc call).1.bind Document.lastOutcome ≠ doc.bind Document.lastOutcome) :
    ∃ h outcome now, call = .release h (some outcome) now ∧ outcome ≠ "" ∧
      (∃ d, doc = some d ∧ d.holder = h ∧ d.releasedAt = none) := by
  cases call with
  | acquire holder now =>
    obtain ⟨d₀, -, -, -, hacquire⟩ | ⟨-, hacquire⟩ := acquire_cases ttl doc holder now
    · rw [step, hacquire] at hchanged
      simp at hchanged
    · rw [step, hacquire] at hchanged
      simp at hchanged
  | renew holder now =>
    rw [step, renew] at hchanged
    cases howned : owned doc holder with
    | none => simp [howned] at hchanged
    | some d₀ =>
      rw [howned, (owned_eq_some.mp howned).1] at hchanged
      simp at hchanged
  | release holder outcome now =>
    rw [step, release] at hchanged
    cases howned : owned doc holder with
    | none => simp [howned] at hchanged
    | some d₀ =>
      cases hcompleted : completed outcome with
      | none =>
        rw [howned, (owned_eq_some.mp howned).1, hcompleted] at hchanged
        simp at hchanged
      | some recorded =>
        obtain ⟨houtcome, hne⟩ := Option.filter_eq_some_iff.mp hcompleted
        exact ⟨holder, recorded, now, by rw [houtcome], of_decide_eq_true hne, d₀, owned_eq_some.mp howned⟩

theorem sweepLease_exclusive (ttl : Instant) (before : List Call) (call : Call) : Exclusive ttl before call where
  one_renewer h h' now now' hrenew hrenew' := by
    obtain ⟨d, howned⟩ := renew_eq_true.mp hrenew
    obtain ⟨d', howned'⟩ := renew_eq_true.mp hrenew'
    obtain ⟨hdoc, hholder, -⟩ := owned_eq_some.mp howned
    obtain ⟨hdoc', hholder', -⟩ := owned_eq_some.mp howned'
    rw [← hholder, ← hholder', Option.some.inj (hdoc.symm.trans hdoc')]
  renew_current h now hcall hkept := by
    subst hcall
    obtain ⟨d, howned⟩ := renew_eq_true.mp hkept
    exact lastGranted_of_owned howned
  release_current h outcome now hcall hkept := by
    subst hcall
    obtain ⟨d, howned⟩ := release_eq_true.mp hkept
    exact lastGranted_of_owned howned
  refused := step_refused
  takeover h now d hcall hgranted hdoc hother hopen := by
    subst hcall
    obtain ⟨d₀, -, -, -, hacquire⟩ | ⟨hfree, -⟩ := acquire_cases ttl (after ttl before) h now
    · rw [granted, hacquire] at hgranted
      cases hgranted
    · refine not_lt.mp fun hlive => hother (hfree d hdoc ?_)
      rw [Document.isLive, hopen]
      simpa using hlive
  generation := step_generation ttl (after ttl before) call
  completion := step_completion
  same_answer := by rw [localAfter_eq, localStep_record]

end Runs

end SwarmCloud.Quota.SweepLease
