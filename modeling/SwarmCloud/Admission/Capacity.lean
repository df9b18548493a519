import SwarmCloud.Admission.Frame

/-! # Runs of admissions, releases and limit changes

The committed transactions of every scheduler and releaser, in the order they
committed, with an operator's changes of the limits between them.
-/

namespace SwarmCloud.Admission

open Common Lib

inductive Op
  | acquire (request : AdmissionRequest) (ids : MintedIds) (now : Instant)
  | acquireMany (requests : List (AdmissionRequest × MintedIds)) (now : Instant)
  | release (leaseId reason : String) (now : Instant)
  | setLimits (name : String) (hardLimit adaptiveTarget quotaDerivedLimit : Option Int)
      (enabled : Option Bool)

def Op.outcomes (config : AdmissionConfig) (s : Store) : Op → List Outcome
  | .acquire request ids now =>
    [(acquireLeaseInTransaction s request config ids now).map Prod.fst]
  | .acquireMany requests now => (acquireLeasesInTransaction s requests config now).1
  | .release _ _ _ => []
  | .setLimits _ _ _ _ _ => []

def Op.apply (config : AdmissionConfig) (s : Store) : Op → Store
  | .acquire request ids now =>
    match acquireLeaseInTransaction s request config ids now with
    | .error _ => s
    | .ok (_, s') => s'
  | .acquireMany requests now => (acquireLeasesInTransaction s requests config now).2
  | .release leaseId reason now => (releaseLeaseInTransaction s leaseId reason now).2
  | .setLimits name hardLimit adaptiveTarget quotaDerivedLimit enabled =>
    { s with pools := s.pools.modify name fun d => { d with
        hardLimit := hardLimit
        adaptiveTarget := adaptiveTarget
        quotaDerivedLimit := quotaDerivedLimit
        enabled := enabled } }

/-- `new_id` returns ids that no lease has, and no id twice. -/
def Op.Fresh (s : Store) : Op → Prop
  | .acquire _ ids _ => s.leases.lookup ids.leaseId = none
  | .acquireMany requests _ =>
    (∀ r ∈ requests, s.leases.lookup r.2.leaseId = none) ∧
      (requests.map fun r => r.2.leaseId).Nodup
  | .release _ _ _ => True
  | .setLimits _ _ _ _ _ => True

def Op.UnitsNonneg : Op → Prop
  | .acquire request _ _ => 0 ≤ request.units
  | .acquireMany requests _ => ∀ r ∈ requests, 0 ≤ r.1.units
  | .release _ _ _ => True
  | .setLimits _ _ _ _ _ => True

def Step (config : AdmissionConfig) (s : Store) (op : Op) (s' : Store) : Prop :=
  op.UnitsNonneg ∧ op.Fresh s ∧ s' = op.apply config s

def Op.IsAdmission : Op → Prop
  | .acquire _ _ _ | .acquireMany _ _ => True
  | _ => False

/-- A release that decrements takes back no more than each pool counts. -/
def NeverTruncates (s : Store) : Op → Prop
  | .release leaseId _ _ =>
    ∀ d, s.leases.lookup leaseId = some d → d.releasedAt = none → ∀ name ∈ d.pools,
      ∀ p, s.pools.lookup name = some p →
        max 0 (p.activeCount - dictGet d.held name 0) = p.activeCount - dictGet d.held name 0
  | _ => True

theorem setLimits_conserved {s : Store} (name : String) (f : PoolDoc → PoolDoc)
    (hf : ∀ d, (f d).activeCount = d.activeCount) (hs : Conserved s) :
    Conserved { s with pools := s.pools.modify name f } := by
  intro name' d' hd'
  have hreserved : reservedIn { s with pools := s.pools.modify name f } name' =
      reservedIn s name' := rfl
  rw [Docs.lookup_modify] at hd'
  rw [hreserved]
  split at hd'
  · obtain ⟨d, hd, rfl⟩ := Option.map_eq_some_iff.mp hd'
    rw [hf]
    exact hs name' d hd
  · exact hs name' d' hd'

theorem acquire_result (s : Store) (request : AdmissionRequest) (config : AdmissionConfig)
    (ids : MintedIds) (now : Instant) :
    (∃ denial, (Op.acquire request ids now).outcomes config s = [.error denial] ∧
      (Op.acquire request ids now).apply config s = s) ∨
    ∃ lease s' current, Granted s request config ids now lease s' current ∧
      (Op.acquire request ids now).outcomes config s = [.ok lease] ∧
      (Op.acquire request ids now).apply config s = s' := by
  simp only [Op.outcomes, Op.apply]
  cases h : acquireLeaseInTransaction s request config ids now with
  | error denial => exact .inl ⟨denial, rfl, rfl⟩
  | ok result =>
    obtain ⟨current, hgrant⟩ := acquireLease_ok h
    exact .inr ⟨result.1, result.2, current, hgrant, rfl, rfl⟩

/-- What one step of a run does to a store that conserves capacity. -/
structure StepSound (config : AdmissionConfig) (s : Store) (op : Op) (s' : Store) : Prop where
  conserved : Conserved s'
  nonNegative : NonNegative s'
  withinLimits : ∀ lease ∈ grants (op.outcomes config s), WithinLimits s' lease
  neverTruncates : NeverTruncates s op
  onlyGrants : op.IsAdmission → OnlyGrants s (op.outcomes config s) s'

theorem step_sound {config : AdmissionConfig} {s s' : Store} {op : Op} (hs : Conserved s)
    (hnonneg : NonNegative s) (hstep : Step config s op s') : StepSound config s op s' := by
  obtain ⟨hunits, hfresh, rfl⟩ := hstep
  cases op with
  | acquire request ids now =>
    rcases acquire_result s request config ids now with
      ⟨denial, hout, happly⟩ | ⟨lease, s', current, hgrant, hout, happly⟩
    · rw [happly]
      refine ⟨hs, hnonneg, ?_, trivial, fun _ => ?_⟩
      · rw [hout]
        intro lease hlease
        cases hlease
      · rw [hout]
        exact ⟨fun _ _ => rfl, fun _ _ => rfl, fun _ _ => rfl, fun _ => by simp [grants, taken, Except.toOption]⟩
    · rw [happly]
      refine ⟨hgrant.conserved hfresh hs, hgrant.nonNegative hunits hnonneg, ?_, trivial,
        fun _ => hout ▸ hgrant.onlyGrants⟩
      rw [hout]
      intro other hother
      obtain rfl : other = lease := by simpa [grants, Except.toOption] using hother
      exact hgrant.withinLimits
  | acquireMany requests now =>
    obtain ⟨hfresh, hnodup⟩ := hfresh
    have hprogress := acquireLeases_progress config now hs hnonneg hunits hfresh hnodup
    exact ⟨hprogress.conserved, hprogress.nonNegative, hprogress.withinLimits, trivial,
      fun _ => acquireLeases_onlyGrants hprogress⟩
  | release leaseId reason now =>
    have hnotrunc : NeverTruncates s (.release leaseId reason now) := by
      intro d hd hopen name hname p hp
      rcases releaseLease_cases s leaseId reason now with hnone | ⟨d', s', -, hreleased⟩
      · rw [releaseLeaseInTransaction, hd] at hnone
        simp [hopen] at hnone
      · obtain rfl : d = d' := Option.some.inj (hd.symm.trans hreleased.stored)
        have hle := hreleased.held_le hs hnonneg hname hp
        omega
    simp only [Op.apply]
    rcases releaseLease_cases s leaseId reason now with hnone | ⟨d, s', hsome, hreleased⟩
    · rw [hnone]
      exact ⟨hs, hnonneg, fun _ h => (by cases h), hnotrunc, fun h => h.elim⟩
    · rw [hsome]
      exact ⟨hreleased.conserved hs hnonneg, hreleased.nonNegative hnonneg,
        fun _ h => (by cases h), hnotrunc, fun h => h.elim⟩
  | setLimits name hardLimit adaptiveTarget quotaDerivedLimit enabled =>
    exact ⟨setLimits_conserved name _ (fun _ => rfl) hs, hnonneg, fun _ h => (by cases h), trivial,
      fun h => h.elim⟩

theorem run_sound {config : AdmissionConfig} {s₀ s : Store} {ops : List Op} (h₀ : Conserved s₀)
    (hnonneg : NonNegative s₀) (hrun : Run (Step config) s₀ ops s) :
    Conserved s ∧ NonNegative s := by
  refine hrun.invariant (I := fun s => Conserved s ∧ NonNegative s) (fun s op s' h hstep => ?_)
    ⟨h₀, hnonneg⟩
  have hsound := step_sound h.1 h.2 hstep
  exact ⟨hsound.conserved, hsound.nonNegative⟩

/-- After every step of every run each pool's count is the sum of what the
unreleased leases hold in it; a release never meets the floor at zero; a grant
leaves its pools within the limits of that moment; and a denied request leaves
every document as it was. -/
theorem capacity_conserved {config : AdmissionConfig} {s₀ s s' : Store} {ops : List Op} {op : Op}
    (h₀ : Conserved s₀) (hnonneg : NonNegative s₀) (hrun : Run (Step config) s₀ ops s)
    (hstep : Step config s op s') :
    Conserved s' ∧ NeverTruncates s op ∧
      (∀ lease ∈ grants (op.outcomes config s), WithinLimits s' lease) ∧
      (op.IsAdmission → OnlyGrants s (op.outcomes config s) s') ∧
      (op.IsAdmission → grants (op.outcomes config s) = [] → s' = s) := by
  obtain ⟨hs, hn⟩ := run_sound h₀ hnonneg hrun
  have hsound := step_sound hs hn hstep
  exact ⟨hsound.conserved, hsound.neverTruncates, hsound.withinLimits, hsound.onlyGrants,
    fun hadmission hdenied => (hsound.onlyGrants hadmission).unchanged hdenied⟩

def oneTaskStore : Store where
  tasks := (∅ : Docs String TaskDoc).insert "t1" { state := some .ready }
  pools := (∅ : Docs String PoolDoc).insert "global" { hardLimit := some 2, active := some 0 }
  leases := ∅

def oneTaskAcquire : Op :=
  .acquire ⟨⟨"t1", "eng", some "anthropic", "standard", "claude"⟩, 2, "gke"⟩ ⟨"lease_1", "att_1"⟩ 0

theorem capacity_conserved_one_grant :
    Conserved (oneTaskAcquire.apply {} oneTaskStore) ∧
      (grants (oneTaskAcquire.outcomes {} oneTaskStore)).map Lease.generation = [1] := by
  have h₀ : Conserved oneTaskStore := by
    intro name d hd
    simp only [oneTaskStore, Docs.lookup_insert_eq, Finmap.lookup_empty] at hd
    split at hd
    · cases hd
      rfl
    · cases hd
  have hnonneg : NonNegative oneTaskStore := by
    intro id d hd
    cases hd
  have hunits : oneTaskAcquire.UnitsNonneg := by
    change (0 : Int) ≤ 2
    decide
  exact ⟨(capacity_conserved h₀ hnonneg .nil ⟨hunits, rfl, rfl⟩).1, by decide⟩

end SwarmCloud.Admission
