import SwarmCloud.Admission.Batch
import SwarmCloud.Lib.Runs

/-! # Capacity is conserved

Every pool's `active` is the sum of what the unreleased leases hold in it. The
three transactions keep that equation, at any limits and in any order, so the
floor at zero in a release never hides a unit, and a grant never leaves a pool
above its limit.
-/

namespace SwarmCloud.Admission

open Common Lib

/-- What an unreleased lease that names the pool holds in it. -/
def LeaseDoc.heldIn (name : String) (d : LeaseDoc) : Int :=
  if d.releasedAt.isNone ∧ name ∈ d.pools then dictGet d.held name 0 else 0

def reservedIn (s : Store) (name : String) : Int :=
  s.leases.total fun _ d => d.heldIn name

def Conserved (s : Store) : Prop :=
  ∀ name d, s.pools.lookup name = some d → d.activeCount = reservedIn s name

def NonNegative (s : Store) : Prop :=
  ∀ id d, s.leases.lookup id = some d → ∀ name, 0 ≤ d.heldIn name

theorem mintLease_heldIn (task : Task) (current : TaskDoc) (required : List String) (units : Int)
    (config : AdmissionConfig) (ids : MintedIds) (now : Instant) (name : String) :
    (mintLease task current required units (reservedPoolUnits required units) config ids
      now).toDoc.heldIn name = if name ∈ required then poolUnitsFor name units else 0 := by
  unfold LeaseDoc.heldIn
  by_cases hname : name ∈ required
  · rw [if_pos ⟨rfl, hname⟩, if_pos hname]
    exact heldPoolUnits_reserved units hname
  · rw [if_neg fun h => hname h.2, if_neg hname]

section Grant

variable {s s' : Store} {request : AdmissionRequest} {config : AdmissionConfig} {ids : MintedIds}
  {now : Instant} {lease : Lease} {current : TaskDoc}

theorem Granted.heldIn_eq (h : Granted s request config ids now lease s' current) (name : String) :
    lease.toDoc.heldIn name =
      if name ∈ requiredPools request.task request.backend then
        poolUnitsFor name request.units
      else 0 := by
  rw [h.lease_eq]
  exact mintLease_heldIn _ _ _ _ _ _ _ _

theorem Granted.pools_name (h : Granted s request config ids now lease s' current) :
    lease.pools = requiredPools request.task request.backend := by
  rw [h.lease_eq]
  rfl

theorem Granted.leaseId_eq (h : Granted s request config ids now lease s' current) :
    lease.leaseId = ids.leaseId := by
  rw [h.lease_eq]
  rfl

theorem Granted.conserved (h : Granted s request config ids now lease s' current)
    (hfresh : s.leases.lookup ids.leaseId = none) (hs : Conserved s) : Conserved s' := by
  intro name d' hd'
  have hreserved : reservedIn s' name = lease.toDoc.heldIn name + reservedIn s name := by
    unfold reservedIn
    rw [h.leases_eq, h.leaseId_eq]
    exact Docs.total_insert_of_lookup_none _ hfresh
  rw [hreserved, h.heldIn_eq]
  rw [h.pools_eq name] at hd'
  split at hd'
  · rename_i hname
    obtain ⟨d, hd, rfl⟩ := Option.map_eq_some_iff.mp hd'
    rw [PoolDoc.bump, PoolDoc.activeCount_withActive, hs name d hd, if_pos hname]
    exact Int.add_comm _ _
  · rename_i hname
    rw [hs name d' hd', if_neg hname, Int.zero_add]

theorem Granted.nonNegative (h : Granted s request config ids now lease s' current)
    (hunits : 0 ≤ request.units) (hs : NonNegative s) : NonNegative s' := by
  intro id d hd name
  rw [h.leases_eq, Docs.lookup_insert_eq] at hd
  split at hd
  · cases hd
    rw [h.heldIn_eq]
    split
    · exact poolUnitsFor_nonneg _ hunits
    · exact le_rfl
  · exact hs id d hd name

end Grant

/-- The pools a lease names, where they exist, are within their limits. -/
def WithinLimits (s : Store) (lease : Lease) : Prop :=
  ∀ name ∈ lease.pools, ∀ d, s.pools.lookup name = some d →
    ∃ limit, (d.read name).effectiveLimit = some limit ∧ d.activeCount ≤ limit

section Grant

variable {s s' : Store} {request : AdmissionRequest} {config : AdmissionConfig} {ids : MintedIds}
  {now : Instant} {lease : Lease} {current : TaskDoc}

theorem Granted.withinLimits_pool (h : Granted s request config ids now lease s' current)
    {name : String} (hname : name ∈ requiredPools request.task request.backend) {d' : PoolDoc}
    (hd' : s'.pools.lookup name = some d') :
    ∃ limit, (d'.read name).effectiveLimit = some limit ∧ d'.activeCount ≤ limit := by
  rw [h.pools_eq name, if_pos hname] at hd'
  obtain ⟨d, hd, rfl⟩ := Option.map_eq_some_iff.mp hd'
  have hread : readPools s (requiredPools request.task request.backend) name =
      some (d.read name) := by
    rw [readPools_of_mem s hname, hd]
    rfl
  obtain ⟨limit, hlimit, hle⟩ := fits_of_evaluateCapacity h.fits hname hread
  exact ⟨limit, hlimit, hle⟩

theorem Granted.withinLimits (h : Granted s request config ids now lease s' current) :
    WithinLimits s' lease := by
  intro name hname d' hd'
  rw [h.pools_name] at hname
  exact h.withinLimits_pool hname hd'

/-- A later grant keeps an earlier lease's pools within their limits. -/
theorem Granted.withinLimits_other (h : Granted s request config ids now lease s' current)
    {other : Lease} (hother : WithinLimits s other) : WithinLimits s' other := by
  intro name hname d' hd'
  by_cases hreq : name ∈ requiredPools request.task request.backend
  · exact h.withinLimits_pool hreq hd'
  · rw [h.pools_eq name, if_neg hreq] at hd'
    exact hother name hname d' hd'

end Grant

section Release

variable {s s' : Store} {leaseId reason : String} {now : Instant} {d : LeaseDoc}

theorem Released.heldIn_eq (h : Released s leaseId reason now s' d) (name : String) :
    d.heldIn name = if name ∈ d.pools then dictGet d.held name 0 else 0 := by
  simp [LeaseDoc.heldIn, h.unreleased]

/-- A release finds in each of its pools at least what it gives back. -/
theorem Released.held_le (h : Released s leaseId reason now s' d) (hs : Conserved s)
    (hnonneg : NonNegative s) {name : String} (hname : name ∈ d.pools) {p : PoolDoc}
    (hp : s.pools.lookup name = some p) : dictGet d.held name 0 ≤ p.activeCount := by
  have hle := Docs.le_total (fun _ d => d.heldIn name)
    (fun id d hd => hnonneg id d hd name) h.stored
  have hheld := h.heldIn_eq name
  rw [if_pos hname] at hheld
  rw [hs name p hp, reservedIn, ← hheld]
  exact hle

theorem Released.reservedIn_eq (h : Released s leaseId reason now s' d) (name : String) :
    reservedIn s' name = reservedIn s name - d.heldIn name := by
  unfold reservedIn
  rw [h.leases_eq, Docs.total_modify _ _ h.stored]
  simp [LeaseDoc.heldIn]

theorem Released.conserved (h : Released s leaseId reason now s' d) (hs : Conserved s)
    (hnonneg : NonNegative s) : Conserved s' := by
  intro name p' hp'
  rw [h.reservedIn_eq, h.heldIn_eq]
  rw [h.pools_eq name] at hp'
  split at hp'
  · rename_i hname
    obtain ⟨p, hp, rfl⟩ := Option.map_eq_some_iff.mp hp'
    have hle := h.held_le hs hnonneg hname hp
    rw [PoolDoc.activeCount_withActive, if_pos hname, ← hs name p hp]
    omega
  · rename_i hname
    rw [if_neg hname, Int.sub_zero]
    exact hs name p' hp'

theorem Released.nonNegative (h : Released s leaseId reason now s' d) (hs : NonNegative s) :
    NonNegative s' := by
  intro id d' hd' name
  rw [h.leases_eq, Docs.lookup_modify] at hd'
  split at hd'
  · obtain ⟨d₀, _, rfl⟩ := Option.map_eq_some_iff.mp hd'
    simp [LeaseDoc.heldIn]
  · exact hs id d' hd' name

end Release

/-! ## Batches -/

theorem acquireNext_cases (config : AdmissionConfig) (acc : List Outcome) (s : Store)
    (item : (AdmissionRequest × MintedIds) × Instant) :
    (∃ denial, acquireNext config (acc, s) item = (acc ++ [.error denial], s)) ∨
      ∃ lease s' current, Granted s item.1.1 config item.1.2 item.2 lease s' current ∧
        acquireNext config (acc, s) item = (acc ++ [.ok lease], s') := by
  unfold acquireNext
  cases h : acquireLeaseInTransaction s item.1.1 config item.1.2 item.2 with
  | error denial => exact .inl ⟨denial, rfl⟩
  | ok result =>
    obtain ⟨current, hgrant⟩ := acquireLease_ok h
    exact .inr ⟨result.1, result.2, current, hgrant, rfl⟩

def grants (outcomes : List Outcome) : List Lease :=
  outcomes.filterMap fun o => o.toOption

def taken (leases : List Lease) (name : String) : Int :=
  (leases.map fun lease => lease.toDoc.heldIn name).sum

@[simp] theorem grants_concat_error (outcomes : List Outcome) (denial : AdmissionDenied) :
    grants (outcomes ++ [.error denial]) = grants outcomes := by
  simp [grants, Except.toOption]

@[simp] theorem grants_concat_ok (outcomes : List Outcome) (lease : Lease) :
    grants (outcomes ++ [.ok lease]) = grants outcomes ++ [lease] := by
  simp [grants, Except.toOption]

/-- What holds between the store `s₀` a one-at-a-time admission started on and
the store `s` it has reached, given its outcomes. -/
structure Progress (s₀ : Store) (outcomes : List Outcome) (s : Store) : Prop where
  conserved : Conserved s
  nonNegative : NonNegative s
  withinLimits : ∀ lease ∈ grants outcomes, WithinLimits s lease
  counts : ∀ name, (s.pools.lookup name).map PoolDoc.activeCount =
    (s₀.pools.lookup name).map fun d => d.activeCount + taken (grants outcomes) name

theorem Progress.denied {s₀ s : Store} {outcomes : List Outcome} (h : Progress s₀ outcomes s)
    (denial : AdmissionDenied) : Progress s₀ (outcomes ++ [.error denial]) s := by
  have hgrants := grants_concat_error outcomes denial
  exact ⟨h.conserved, h.nonNegative, hgrants ▸ h.withinLimits, hgrants ▸ h.counts⟩

theorem Progress.granted {s₀ s s' : Store} {outcomes : List Outcome} (h : Progress s₀ outcomes s)
    {request : AdmissionRequest} {config : AdmissionConfig} {ids : MintedIds} {now : Instant}
    {lease : Lease} {current : TaskDoc}
    (hgrant : Granted s request config ids now lease s' current)
    (hfresh : s.leases.lookup ids.leaseId = none) (hunits : 0 ≤ request.units) :
    Progress s₀ (outcomes ++ [.ok lease]) s' := by
  have hgrants := grants_concat_ok outcomes lease
  refine ⟨hgrant.conserved hfresh h.conserved, hgrant.nonNegative hunits h.nonNegative, ?_, ?_⟩
  · intro other hother
    rw [hgrants, List.mem_append, List.mem_singleton] at hother
    rcases hother with hother | rfl
    · exact hgrant.withinLimits_other (h.withinLimits other hother)
    · exact hgrant.withinLimits
  · intro name
    have hcount := h.counts name
    have htaken : taken (grants (outcomes ++ [.ok lease])) name =
        taken (grants outcomes) name + lease.toDoc.heldIn name := by
      rw [hgrants]
      simp [taken]
    rw [htaken, hgrant.heldIn_eq, hgrant.pools_eq name]
    by_cases hname : name ∈ requiredPools request.task request.backend
    · rw [if_pos hname, if_pos hname, Option.map_map]
      cases hs : s.pools.lookup name with
      | none =>
        rw [hs] at hcount
        have hnone : s₀.pools.lookup name = none := by simpa using hcount.symm
        rw [hnone]
        rfl
      | some d =>
        rw [hs] at hcount
        obtain ⟨d₀, hd₀, heq⟩ := Option.map_eq_some_iff.mp hcount.symm
        rw [hd₀]
        simp only [Option.map_some, Function.comp, PoolDoc.bump, PoolDoc.activeCount_withActive,
          Option.some.injEq]
        omega
    · rw [if_neg hname, if_neg hname, Int.add_zero]
      exact hcount

theorem Progress.loop {s₀ : Store} (config : AdmissionConfig)
    (items : List ((AdmissionRequest × MintedIds) × Instant)) {acc : List Outcome} {s : Store}
    (h : Progress s₀ acc s) (hunits : ∀ item ∈ items, 0 ≤ item.1.1.units)
    (hfresh : ∀ item ∈ items, s.leases.lookup item.1.2.leaseId = none)
    (hnodup : (items.map fun item => item.1.2.leaseId).Nodup) :
    Progress s₀ (items.foldl (acquireNext config) (acc, s)).1
      (items.foldl (acquireNext config) (acc, s)).2 := by
  induction items generalizing acc s with
  | nil => exact h
  | cons item items ih =>
    rw [List.foldl_cons]
    obtain ⟨hhead, htail⟩ := List.nodup_cons.mp hnodup
    have hunits' := fun i hi => hunits i (List.mem_cons_of_mem item hi)
    have hfresh' := fun i hi => hfresh i (List.mem_cons_of_mem item hi)
    rcases acquireNext_cases config acc s item with ⟨denial, hnext⟩ | ⟨lease, s', current, hgrant, hnext⟩
    · rw [hnext]
      exact ih (h.denied denial) hunits' hfresh' htail
    · rw [hnext]
      refine ih (h.granted hgrant (hfresh item List.mem_cons_self)
        (hunits item List.mem_cons_self)) hunits' ?_ htail
      intro i hi
      rw [hgrant.leases_eq, Docs.lookup_insert_eq, hgrant.leaseId_eq]
      split
      · rename_i hsame
        exact absurd (List.mem_map.mpr ⟨i, hi, hsame⟩) hhead
      · exact hfresh' i hi

/-! The measures do not see timestamps, so they agree on stores with the same documents. -/

theorem SameDocs.reservedIn_eq {s s' : Store} (h : SameDocs s s') (name : String) :
    reservedIn s name = reservedIn s' name := by
  apply Docs.total_eq_of_lookup
  intro id
  have hid := congrArg (Option.map (LeaseDoc.heldIn name)) (h.leases id)
  rw [Option.map_map, Option.map_map] at hid
  exact hid

theorem SameDocs.lookup_pool {s s' : Store} (h : SameDocs s s') {name : String} {d : PoolDoc}
    (hd : s.pools.lookup name = some d) :
    ∃ d', s'.pools.lookup name = some d' ∧ d.undated = d'.undated := by
  have hname := h.pools name
  rw [hd, Option.map_some, eq_comm, Option.map_eq_some_iff] at hname
  obtain ⟨d', hd', heq⟩ := hname
  exact ⟨d', hd', heq.symm⟩

theorem PoolDoc.activeCount_of_undated {d d' : PoolDoc} (h : d.undated = d'.undated) :
    d.activeCount = d'.activeCount := by
  have hcount := congrArg PoolDoc.activeCount h
  exact hcount

theorem PoolDoc.limit_of_undated {d d' : PoolDoc} (h : d.undated = d'.undated) (name : String) :
    (d.read name).effectiveLimit = (d'.read name).effectiveLimit := by
  have hlimit := congrArg (fun d => (PoolDoc.read name d).effectiveLimit) h
  exact hlimit

theorem grants_undated {outcomes outcomes' : List Outcome}
    (h : outcomes.map Outcome.undated = outcomes'.map Outcome.undated) :
    (grants outcomes).map Lease.undated = (grants outcomes').map Lease.undated := by
  have hmap : ∀ l : List Outcome, (grants l).map Lease.undated = grants (l.map Outcome.undated) := by
    intro l
    induction l with
    | nil => rfl
    | cons o l ih =>
      cases o with
      | error denial => exact ih
      | ok lease => exact congrArg (lease.undated :: ·) ih
  rw [hmap, hmap, h]

theorem SameDocs.progress {s₀ s s' : Store} {outcomes outcomes' : List Outcome}
    (h : SameDocs s s')
    (hout : outcomes.map Outcome.undated = outcomes'.map Outcome.undated)
    (hprogress : Progress s₀ outcomes' s') : Progress s₀ outcomes s := by
  have hgrants := grants_undated hout
  refine ⟨?_, ?_, ?_, ?_⟩
  · intro name d hd
    obtain ⟨d', hd', heq⟩ := h.lookup_pool hd
    rw [h.reservedIn_eq, PoolDoc.activeCount_of_undated heq]
    exact hprogress.conserved name d' hd'
  · intro id d hd name
    have hid := h.leases id
    rw [hd, Option.map_some, eq_comm, Option.map_eq_some_iff] at hid
    obtain ⟨d', hd', heq⟩ := hid
    have hheld := congrArg (LeaseDoc.heldIn name) heq
    have hd'nonneg := hprogress.nonNegative id d' hd' name
    exact hd'nonneg.trans_eq hheld
  · intro lease hlease name hname d hd
    have hmem : lease.undated ∈ (grants outcomes').map Lease.undated :=
      hgrants ▸ List.mem_map_of_mem hlease
    obtain ⟨lease', hlease', heq⟩ := List.mem_map.mp hmem
    have hname' : name ∈ lease'.pools := by
      change name ∈ lease'.undated.pools
      rw [heq]
      exact hname
    obtain ⟨d', hd', hundated⟩ := h.lookup_pool hd
    obtain ⟨limit, hlimit, hle⟩ := hprogress.withinLimits lease' hlease' name hname' d' hd'
    refine ⟨limit, ?_, ?_⟩
    · rw [PoolDoc.limit_of_undated hundated]
      exact hlimit
    · rw [PoolDoc.activeCount_of_undated hundated]
      exact hle
  · intro name
    have htaken : taken (grants outcomes) name = taken (grants outcomes') name := by
      have hsum := congrArg (fun l => (l.map fun lease => lease.toDoc.heldIn name).sum) hgrants
      simp only [List.map_map] at hsum
      exact hsum
    have hcount := congrArg (Option.map PoolDoc.activeCount) (h.pools name)
    rw [Option.map_map, Option.map_map] at hcount
    rw [htaken, ← hprogress.counts name]
    exact hcount

theorem acquireLeases_progress {s : Store} {requests : List (AdmissionRequest × MintedIds)}
    (config : AdmissionConfig) (now : Instant) (hs : Conserved s) (hnonneg : NonNegative s)
    (hunits : ∀ r ∈ requests, 0 ≤ r.1.units)
    (hfresh : ∀ r ∈ requests, s.leases.lookup r.2.leaseId = none)
    (hnodup : (requests.map fun r => r.2.leaseId).Nodup) :
    Progress s (acquireLeasesInTransaction s requests config now).1
      (acquireLeasesInTransaction s requests config now).2 := by
  have hitems : (requests.map fun r => (r, now)).map Prod.fst = requests := by
    rw [List.map_map]
    exact List.map_id requests
  obtain ⟨hstep, hout⟩ := batchLoop_in_step s (requests.map fun r => (r, now)) config now
  rw [hitems] at hstep hout
  refine hstep.flush.progress hout ?_
  have hstart : Progress s [] s := by
    refine ⟨hs, hnonneg, fun _ h => (by cases h), fun name => ?_⟩
    simp [taken, grants]
  refine hstart.loop config (requests.map fun r => (r, now)) ?_ ?_ ?_
  · intro item hitem
    obtain ⟨r, hr, rfl⟩ := List.mem_map.mp hitem
    exact hunits r hr
  · intro item hitem
    obtain ⟨r, hr, rfl⟩ := List.mem_map.mp hitem
    exact hfresh r hr
  · rw [List.map_map]
    exact hnodup

end SwarmCloud.Admission
