import SwarmCloud.Admission.Model

/-! # What one admission transaction does

One specification for each transaction, stated document by document. The
results about runs use these and never unfold the transactions again.
-/

namespace SwarmCloud.Admission

open Common Lib

theorem requiredPools_nodup (task : Task) (backend : String) :
    (requiredPools task backend).Nodup :=
  poolNamesFor_nodup _ _ _ _ _

theorem evaluatePool_eq_none {pools : PoolReads} {units : Int} {name : String} {pool : SlotPool}
    (hpool : pools name = some pool) (h : evaluatePool pools units 1 name = none) :
    ∃ limit, pool.effectiveLimit = some limit ∧ pool.active + poolUnitsFor name units ≤ limit := by
  unfold evaluatePool at h
  rw [hpool] at h
  have hcapacity : pool.hasCapacity (1 * poolUnitsFor name units) = true := by
    by_contra hno
    revert h
    simp only [Bool.not_eq_true] at hno
    simp only [hno]
    split
    · simp
    · split <;> simp
  obtain ⟨_, limit, hlimit, hle⟩ := (SlotPool.hasCapacity_iff _ _).mp hcapacity
  exact ⟨limit, hlimit, by simpa using hle⟩

/-- An admissible request fits in every pool it was judged against. -/
theorem fits_of_evaluateCapacity {pools : PoolReads} {required : List String} {units : Int}
    (h : evaluateCapacity pools required units 1 = []) {name : String} (hname : name ∈ required)
    {pool : SlotPool} (hpool : pools name = some pool) :
    ∃ limit, pool.effectiveLimit = some limit ∧ pool.active + poolUnitsFor name units ≤ limit := by
  unfold evaluateCapacity at h
  rw [List.filterMap_eq_nil_iff] at h
  exact evaluatePool_eq_none hpool (h name hname)

/-- The capacity test reads the required pools and no others. -/
theorem evaluateCapacity_congr {pools pools' : PoolReads} {required : List String} (units : Int)
    (h : ∀ name ∈ required, pools name = pools' name) :
    evaluateCapacity pools required units 1 = evaluateCapacity pools' required units 1 := by
  unfold evaluateCapacity
  apply List.filterMap_congr
  intro name hname
  unfold evaluatePool
  rw [h name hname]

theorem readPools_of_mem (s : Store) {refs : List String} {name : String} (h : name ∈ refs) :
    readPools s refs name = (s.pools.lookup name).map (PoolDoc.read name) := by
  rw [readPools, if_pos h]

theorem lookup_writeActives_keyed (s : Store) {names : List String} (hnodup : names.Nodup)
    (g : String → Option Int) (now : Instant) (name : String) :
    (writeActives s (Docs.keyed names g) now).pools.lookup name =
      (if name ∈ names then g name else none).elim (s.pools.lookup name) fun active =>
        (s.pools.lookup name).map (PoolDoc.withActive active now) := by
  unfold writeActives
  rw [Docs.lookup_modifyAll _ (Docs.keyed_keys_nodup hnodup g), Docs.lookup_keyed]

theorem readinessDenial_eq_none {stored : Option TaskDoc} (h : readinessDenial stored = none) :
    ∃ current, stored = some current ∧ current.state = some .ready ∧
      current.cancelRequested = false := by
  cases stored with
  | none => cases h
  | some current =>
    refine ⟨current, rfl, ?_⟩
    simp only [readinessDenial] at h
    split at h
    · cases h
    · rename_i hready
      split at h
      · cases h
      · rename_i hcancel
        exact ⟨by simpa using hready, by simpa using hcancel⟩

/-- Adding `units` to the count of a pool document. -/
def PoolDoc.bump (units : Int) (now : Instant) (d : PoolDoc) : PoolDoc :=
  d.withActive (d.activeCount + units) now

@[simp] theorem PoolDoc.activeCount_withActive (active : Int) (now : Instant) (d : PoolDoc) :
    (d.withActive active now).activeCount = active := rfl

theorem PoolDoc.read_active (name : String) (d : PoolDoc) : (d.read name).active = d.activeCount := rfl

structure Granted (s : Store) (request : AdmissionRequest) (config : AdmissionConfig)
    (ids : MintedIds) (now : Instant) (lease : Lease) (s' : Store) (current : TaskDoc) : Prop where
  stored : s.tasks.lookup request.task.id = some current
  ready : readinessDenial (some current) = none
  fits : evaluateCapacity (readPools s (requiredPools request.task request.backend))
    (requiredPools request.task request.backend) request.units 1 = []
  lease_eq : lease = mintLease request.task current (requiredPools request.task request.backend)
    request.units (reservedPoolUnits (requiredPools request.task request.backend) request.units)
    config ids now
  tasks_eq : s'.tasks = s.tasks.modify request.task.id (current.leasedBy lease now)
  leases_eq : s'.leases = s.leases.insert lease.leaseId lease.toDoc
  pools_eq : ∀ name, s'.pools.lookup name =
    if name ∈ requiredPools request.task request.backend then
      (s.pools.lookup name).map (PoolDoc.bump (poolUnitsFor name request.units) now)
    else s.pools.lookup name

theorem acquireLease_ok {s s' : Store} {request : AdmissionRequest} {config : AdmissionConfig}
    {ids : MintedIds} {now : Instant} {lease : Lease}
    (h : acquireLeaseInTransaction s request config ids now = .ok (lease, s')) :
    ∃ current, Granted s request config ids now lease s' current := by
  unfold acquireLeaseInTransaction at h
  simp only at h
  split at h
  · cases h
  · rename_i hdenial
    obtain ⟨current, hstored, -⟩ := readinessDenial_eq_none hdenial
    split at h
    · cases h
    · rename_i hfits
      simp only [ne_eq, not_not] at hfits
      simp only [Except.ok.injEq, Prod.mk.injEq] at h
      obtain ⟨hlease, hs'⟩ := h
      rw [hstored, Option.getD_some] at hlease hs'
      rw [hlease] at hs'
      refine ⟨current, hstored, by rwa [hstored] at hdenial, hfits, hlease.symm, ?_, ?_, ?_⟩
      · rw [← hs']
        rfl
      · rw [← hs']
        rfl
      · intro name
        rw [← hs']
        change (writeActives s _ now).pools.lookup name = _
        rw [lookup_writeActives_keyed s (requiredPools_nodup _ _)]
        by_cases hname : name ∈ requiredPools request.task request.backend
        · rw [if_pos hname, if_pos hname, readPools_of_mem s hname,
            reservedPoolUnits_get _ hname]
          cases s.pools.lookup name with
          | none => rfl
          | some d => rfl
        · rw [if_neg hname, if_neg hname, Option.elim_none]

theorem acquireLease_of_denial {s : Store} {request : AdmissionRequest} {denial : AdmissionDenied}
    (config : AdmissionConfig) (ids : MintedIds) (now : Instant)
    (h : readinessDenial (s.tasks.lookup request.task.id) = some denial) :
    acquireLeaseInTransaction s request config ids now = .error denial := by
  simp only [acquireLeaseInTransaction, h]

theorem acquireLease_of_blocked {s : Store} {request : AdmissionRequest} {blockers : List Blocker}
    (config : AdmissionConfig) (ids : MintedIds) (now : Instant)
    (hready : readinessDenial (s.tasks.lookup request.task.id) = none)
    (hblocked : evaluateCapacity (readPools s (requiredPools request.task request.backend))
      (requiredPools request.task request.backend) request.units 1 = blockers)
    (hsome : blockers ≠ []) :
    acquireLeaseInTransaction s request config ids now = .error ⟨blockers.map .pool⟩ := by
  simp only [acquireLeaseInTransaction, hready, hblocked, if_pos hsome]

theorem acquireLease_of_fits {s : Store} {request : AdmissionRequest}
    (config : AdmissionConfig) (ids : MintedIds) (now : Instant)
    (hready : readinessDenial (s.tasks.lookup request.task.id) = none)
    (hfits : evaluateCapacity (readPools s (requiredPools request.task request.backend))
      (requiredPools request.task request.backend) request.units 1 = []) :
    ∃ lease s', acquireLeaseInTransaction s request config ids now = .ok (lease, s') := by
  simp only [acquireLeaseInTransaction, hready, hfits, ne_eq, not_true_eq_false, if_false]
  exact ⟨_, _, rfl⟩

/-- What a release that finds its lease unreleased does. -/
structure Released (s : Store) (leaseId reason : String) (now : Instant) (s' : Store)
    (d : LeaseDoc) : Prop where
  stored : s.leases.lookup leaseId = some d
  unreleased : d.releasedAt = none
  tasks_eq : s'.tasks = s.tasks
  leases_eq : s'.leases = s.leases.modify leaseId fun d =>
    { d with releasedAt := some now, releaseReason := some reason }
  pools_eq : ∀ name, s'.pools.lookup name =
    if name ∈ d.pools then
      (s.pools.lookup name).map fun p =>
        p.withActive (max 0 (p.activeCount - dictGet d.held name 0)) now
    else s.pools.lookup name

theorem releaseLease_cases (s : Store) (leaseId reason : String) (now : Instant) :
    releaseLeaseInTransaction s leaseId reason now = (false, s) ∨
      ∃ d s', releaseLeaseInTransaction s leaseId reason now = (true, s') ∧
        Released s leaseId reason now s' d := by
  unfold releaseLeaseInTransaction
  cases hlookup : s.leases.lookup leaseId with
  | none => exact .inl rfl
  | some d =>
    simp only
    split
    · exact .inl rfl
    · rename_i hopen
      refine .inr ⟨d, _, rfl, hlookup, by simpa using hopen, rfl, rfl, ?_⟩
      intro name
      change (writeActives s _ now).pools.lookup name = _
      rw [lookup_writeActives_keyed s (List.nodup_dedup _)]
      simp only [List.mem_dedup]
      by_cases hname : name ∈ d.pools
      · rw [if_pos hname, if_pos hname]
        cases s.pools.lookup name with
        | none => rfl
        | some p => rfl
      · rw [if_neg hname, if_neg hname, Option.elim_none]

end SwarmCloud.Admission
