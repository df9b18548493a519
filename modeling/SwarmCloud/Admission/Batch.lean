import SwarmCloud.Admission.Spec

/-! # Batched admission against one transaction a request

`acquire_leases_in_transaction` reads every document once and judges the
requests on in-memory pools. The simulation below runs it beside
`acquire_lease_in_transaction` on the same requests, each in its own
transaction, and keeps the two in step after every request.
-/

namespace SwarmCloud.Admission

open Common Lib

abbrev Outcome := Except AdmissionDenied Lease

/-- One more request of a one-at-a-time admission. A denial is recorded as the
outcome and its aborted transaction leaves the store as it was. -/
def acquireNext (config : AdmissionConfig) (acc : List Outcome × Store)
    (item : (AdmissionRequest × MintedIds) × Instant) : List Outcome × Store :=
  match acquireLeaseInTransaction acc.2 item.1.1 config item.1.2 item.2 with
  | .error denial => (acc.1 ++ [.error denial], acc.2)
  | .ok (lease, s') => (acc.1 ++ [.ok lease], s')

def acquireOneByOne (s : Store) (items : List ((AdmissionRequest × MintedIds) × Instant))
    (config : AdmissionConfig) : List Outcome × Store :=
  items.foldl (acquireNext config) ([], s)

/-! Documents without their timestamps. An `active` that is missing is the 0 every transaction reads there. -/

def PoolDoc.undated (d : PoolDoc) : PoolDoc :=
  { d with active := some d.activeCount, updatedAt := none }

def TaskDoc.undated (d : TaskDoc) : TaskDoc := { d with updatedAt := none }

def Lease.undated (l : Lease) : Lease :=
  { l with createdAt := 0, dispatchDeadline := 0, expiresAt := 0 }

def LeaseDoc.undated (d : LeaseDoc) : LeaseDoc :=
  { d with createdAt := 0, dispatchDeadline := 0, expiresAt := 0 }

def Outcome.undated : Outcome → Outcome
  | .error denial => .error denial
  | .ok lease => .ok lease.undated

/-- Two stores with the same documents, timestamps apart. -/
structure SameDocs (s s' : Store) : Prop where
  tasks : ∀ id, (s.tasks.lookup id).map TaskDoc.undated = (s'.tasks.lookup id).map TaskDoc.undated
  pools : ∀ name, (s.pools.lookup name).map PoolDoc.undated =
    (s'.pools.lookup name).map PoolDoc.undated
  leases : ∀ id, (s.leases.lookup id).map LeaseDoc.undated =
    (s'.leases.lookup id).map LeaseDoc.undated

theorem writeAdmitted_tasks (s : Store) (admitted : List (String × TaskDoc × Lease))
    (now : Instant) :
    (writeAdmitted s admitted now).tasks =
      admitted.foldl (fun m a => m.modify a.1 (a.2.1.leasedBy a.2.2 now)) s.tasks := by
  unfold writeAdmitted
  induction admitted generalizing s with
  | nil => rfl
  | cons a admitted ih => exact ih _

theorem writeAdmitted_leases (s : Store) (admitted : List (String × TaskDoc × Lease))
    (now : Instant) :
    (writeAdmitted s admitted now).leases =
      admitted.foldl (fun m a => m.insert a.2.2.leaseId a.2.2.toDoc) s.leases := by
  unfold writeAdmitted
  induction admitted generalizing s with
  | nil => rfl
  | cons a admitted ih => exact ih _

theorem writeAdmitted_pools (s : Store) (admitted : List (String × TaskDoc × Lease))
    (now : Instant) : (writeAdmitted s admitted now).pools = s.pools := by
  unfold writeAdmitted
  induction admitted generalizing s with
  | nil => rfl
  | cons a admitted ih => exact ih _

/-- A pool document apart from its count and stamp. -/
def PoolDoc.limits (d : PoolDoc) : PoolDoc := { d with active := none, updatedAt := none }

/-- The loop state `b` of a batch started on `s`, beside the store `q` that the
same requests have produced one at a time. -/
structure InStep (s : Store) (refs : List String) (now : Instant) (b : BatchState)
    (q : Store) : Prop where
  pools_read : ∀ name ∈ refs, b.pools name = (q.pools.lookup name).map (PoolDoc.read name)
  pools_limits : ∀ name, (q.pools.lookup name).map PoolDoc.limits =
    (s.pools.lookup name).map PoolDoc.limits
  pools_other : ∀ name, name ∉ refs → q.pools.lookup name = s.pools.lookup name
  tasks_unseen : ∀ id, id ∉ b.seen → q.tasks.lookup id = s.tasks.lookup id
  tasks_seen : ∀ id ∈ b.seen, (s.tasks.lookup id).isSome ∧
    ∃ d, q.tasks.lookup id = some d ∧ d.state = some .leased
  tasks : ∀ id, ((writeAdmitted s b.admitted now).tasks.lookup id).map TaskDoc.undated =
    (q.tasks.lookup id).map TaskDoc.undated
  leases : ∀ id, ((writeAdmitted s b.admitted now).leases.lookup id).map LeaseDoc.undated =
    (q.leases.lookup id).map LeaseDoc.undated

theorem InStep.start (s : Store) (refs : List String) (now : Instant) :
    InStep s refs now ⟨readPools s refs, [], [], []⟩ s where
  pools_read _ hname := readPools_of_mem s hname
  pools_limits _ := rfl
  pools_other _ _ := rfl
  tasks_unseen _ _ := rfl
  tasks_seen _ h := by cases h
  tasks _ := rfl
  leases _ := rfl

theorem InStep.outcomes {s : Store} {refs : List String} {now : Instant} {b : BatchState}
    {q : Store} (h : InStep s refs now b q) (outcomes : List Outcome) :
    InStep s refs now { b with outcomes := outcomes } q :=
  ⟨h.pools_read, h.pools_limits, h.pools_other, h.tasks_unseen, h.tasks_seen, h.tasks, h.leases⟩

@[simp] theorem mintLease_leaseId (task : Task) (current : TaskDoc) (required : List String)
    (units : Int) (taken : IntDict) (config : AdmissionConfig) (ids : MintedIds) (now : Instant) :
    (mintLease task current required units taken config ids now).leaseId = ids.leaseId := rfl

section GrantOne

variable {s q q' : Store} {refs : List String} {config : AdmissionConfig} {now now' : Instant}
  {b : BatchState} {request : AdmissionRequest} {ids : MintedIds} {current : TaskDoc} {lease' : Lease}

/-- The lease that the batch, at its own instant, mints for the request. -/
def batchLease (config : AdmissionConfig) (request : AdmissionRequest) (ids : MintedIds)
    (current : TaskDoc) (now : Instant) : Lease :=
  mintLease request.task current (requiredPools request.task request.backend) request.units
    (reservedPoolUnits (requiredPools request.task request.backend) request.units) config ids now

theorem InStep.grant_tasks (h : InStep s refs now b q)
    (hgrant : Granted q request config ids now' lease' q' current) (id : String) :
    ((writeAdmitted s (b.admitted ++ [(request.task.id, current,
      batchLease config request ids current now)]) now).tasks.lookup id).map TaskDoc.undated =
        (q'.tasks.lookup id).map TaskDoc.undated := by
  have hid := h.tasks id
  simp only [writeAdmitted_tasks, List.foldl_append, List.foldl_cons, List.foldl_nil] at hid ⊢
  rw [hgrant.tasks_eq, Docs.lookup_modify, Docs.lookup_modify]
  by_cases hself : id = request.task.id
  · rw [if_pos hself, if_pos hself, Option.map_map, Option.map_map]
    subst hself
    have hq := hgrant.stored
    cases hb : (b.admitted.foldl (fun m a => m.modify a.1 (a.2.1.leasedBy a.2.2 now))
        s.tasks).lookup request.task.id with
    | none =>
      rw [hb, hq] at hid
      cases hid
    | some d =>
      rw [hb, hq] at hid
      have hd : d.undated = current.undated := Option.some.inj hid
      rw [hq, hgrant.lease_eq]
      simp only [TaskDoc.undated, TaskDoc.mk.injEq] at hd
      simp [TaskDoc.undated, TaskDoc.leasedBy, mintLease, batchLease, hd]
  · rw [if_neg hself, if_neg hself]
    exact hid

theorem InStep.grant_leases (h : InStep s refs now b q)
    (hgrant : Granted q request config ids now' lease' q' current) (id : String) :
    ((writeAdmitted s (b.admitted ++ [(request.task.id, current,
      batchLease config request ids current now)]) now).leases.lookup id).map LeaseDoc.undated =
        (q'.leases.lookup id).map LeaseDoc.undated := by
  have hid := h.leases id
  simp only [writeAdmitted_leases, List.foldl_append, List.foldl_cons, List.foldl_nil] at hid ⊢
  rw [hgrant.leases_eq, Docs.lookup_insert_eq, Docs.lookup_insert_eq, hgrant.lease_eq, batchLease,
    mintLease_leaseId, mintLease_leaseId]
  by_cases hself : id = ids.leaseId
  · rw [if_pos hself, if_pos hself]
    rfl
  · rw [if_neg hself, if_neg hself]
    exact hid

theorem InStep.grant_seen (h : InStep s refs now b q) (hunseen : request.task.id ∉ b.seen)
    (hgrant : Granted q request config ids now' lease' q' current) (id : String)
    (hid : id ∈ b.seen ++ [request.task.id]) :
    (s.tasks.lookup id).isSome ∧ ∃ d, q'.tasks.lookup id = some d ∧ d.state = some .leased := by
  rw [hgrant.tasks_eq, Docs.lookup_modify]
  by_cases hself : id = request.task.id
  · have hstored : s.tasks.lookup request.task.id = some current := by
      rw [← h.tasks_unseen _ hunseen]
      exact hgrant.stored
    rw [if_pos hself, hself, hgrant.stored, hstored]
    exact ⟨rfl, _, rfl, rfl⟩
  · rw [if_neg hself]
    exact h.tasks_seen id (by simpa [hself] using hid)

/-- The step that matters: a request the batch admits is one its own transaction grants. -/
theorem InStep.grantOne (h : InStep s refs now b q)
    (hrefs : ∀ name ∈ requiredPools request.task request.backend, name ∈ refs)
    (hunseen : request.task.id ∉ b.seen)
    (hgrant : Granted q request config ids now' lease' q' current) (outcomes : List Outcome) :
    InStep s refs now
      { pools := reserve b.pools (requiredPools request.task request.backend)
          (reservedPoolUnits (requiredPools request.task request.backend) request.units)
        seen := b.seen ++ [request.task.id]
        outcomes := outcomes
        admitted := b.admitted ++ [(request.task.id, current,
          batchLease config request ids current now)] } q' := by
  refine ⟨?_, ?_, ?_, ?_, h.grant_seen hunseen hgrant, h.grant_tasks hgrant, h.grant_leases hgrant⟩
  · intro name hname
    simp only [reserve]
    rw [hgrant.pools_eq name, h.pools_read name hname]
    split
    · rename_i hreq
      rw [reservedPoolUnits_get _ hreq, Option.map_map, Option.map_map]
      rfl
    · rfl
  · intro name
    rw [← h.pools_limits name, hgrant.pools_eq name]
    split
    · rw [Option.map_map]
      rfl
    · rfl
  · intro name hname
    rw [hgrant.pools_eq name, if_neg fun hreq => hname (hrefs name hreq)]
    exact h.pools_other name hname
  · intro id hid
    simp only [List.mem_append, List.mem_singleton, not_or] at hid
    rw [hgrant.tasks_eq, Docs.lookup_modify, if_neg hid.2]
    exact h.tasks_unseen id hid.1

end GrantOne

theorem InStep.step {s : Store} {refs : List String} {now : Instant} {b : BatchState} {q : Store}
    {acc : List Outcome} (h : InStep s refs now b q)
    (hout : b.outcomes.map Outcome.undated = acc.map Outcome.undated) (config : AdmissionConfig)
    (request : AdmissionRequest) (ids : MintedIds) (now' : Instant)
    (hrefs : ∀ name ∈ requiredPools request.task request.backend, name ∈ refs) :
    let b' := batchStep config now b ((request, ids), s.tasks.lookup request.task.id)
    let q' := acquireNext config (acc, q) ((request, ids), now')
    InStep s refs now b' q'.2 ∧ b'.outcomes.map Outcome.undated = q'.1.map Outcome.undated := by
  simp only [batchStep, acquireNext]
  by_cases hseen : request.task.id ∈ b.seen
  · -- A repeat: the stored task is already LEASED in the one-at-a-time store.
    obtain ⟨hsome, d, hd, hleased⟩ := h.tasks_seen _ hseen
    have hdenial : readinessDenial (q.tasks.lookup request.task.id) =
        some ⟨[.notReady (some .leased)]⟩ := by
      simp [hd, readinessDenial, hleased]
    rw [if_pos ⟨hsome, hseen⟩, acquireLease_of_denial config ids now' hdenial]
    exact ⟨h.outcomes _, by simp [hout]⟩
  · rw [if_neg fun hboth => hseen hboth.2]
    have hstored := h.tasks_unseen _ hseen
    cases hready : readinessDenial (s.tasks.lookup request.task.id) with
    | some denial =>
      rw [acquireLease_of_denial config ids now' (hstored ▸ hready)]
      exact ⟨h.outcomes _, by simp [hout]⟩
    | none =>
      have hcapacity : evaluateCapacity b.pools (requiredPools request.task request.backend)
          request.units 1 = evaluateCapacity
            (readPools q (requiredPools request.task request.backend))
            (requiredPools request.task request.backend) request.units 1 := by
        apply evaluateCapacity_congr
        intro name hname
        rw [h.pools_read name (hrefs name hname), readPools_of_mem q hname]
      rw [hcapacity]
      by_cases hfits : evaluateCapacity (readPools q (requiredPools request.task request.backend))
          (requiredPools request.task request.backend) request.units 1 = []
      · obtain ⟨lease', q', hok⟩ := acquireLease_of_fits config ids now' (hstored ▸ hready) hfits
        obtain ⟨current, hgrant⟩ := acquireLease_ok hok
        have hcurrent : (s.tasks.lookup request.task.id).getD {} = current := by
          rw [← hstored, hgrant.stored]
          rfl
        rw [hok, if_neg (not_not.mpr hfits), hcurrent]
        refine ⟨h.grantOne hrefs hseen hgrant _, ?_⟩
        rw [List.map_append, List.map_append, hout, hgrant.lease_eq]
        rfl
      · rw [acquireLease_of_blocked config ids now' (hstored ▸ hready) rfl hfits, if_pos hfits]
        exact ⟨h.outcomes _, by simp [hout]⟩

theorem InStep.loop {s : Store} {refs : List String} {now : Instant} (config : AdmissionConfig)
    (items : List ((AdmissionRequest × MintedIds) × Instant)) {b : BatchState} {q : Store}
    {acc : List Outcome} (h : InStep s refs now b q)
    (hout : b.outcomes.map Outcome.undated = acc.map Outcome.undated)
    (hrefs : ∀ item ∈ items, ∀ name ∈ requiredPools item.1.1.task item.1.1.backend, name ∈ refs) :
    let b' := ((items.map Prod.fst).map fun r => (r, s.tasks.lookup r.1.task.id)).foldl
      (batchStep config now) b
    let q' := items.foldl (acquireNext config) (acc, q)
    InStep s refs now b' q'.2 ∧ b'.outcomes.map Outcome.undated = q'.1.map Outcome.undated := by
  induction items generalizing b q acc with
  | nil => exact ⟨h, hout⟩
  | cons item items ih =>
    obtain ⟨⟨request, ids⟩, now'⟩ := item
    have hstep := h.step hout config request ids now' (hrefs _ List.mem_cons_self)
    exact ih hstep.1 hstep.2 fun item hitem => hrefs item (List.mem_cons_of_mem _ hitem)

theorem mem_batchRefs {requests : List (AdmissionRequest × MintedIds)}
    {r : AdmissionRequest × MintedIds} (hr : r ∈ requests) {name : String}
    (hname : name ∈ requiredPools r.1.task r.1.backend) : name ∈ batchRefs requests := by
  unfold batchRefs
  rw [List.mem_dedup, List.mem_flatMap]
  exact ⟨r, hr, hname⟩

theorem batchRefs_nodup (requests : List (AdmissionRequest × MintedIds)) :
    (batchRefs requests).Nodup :=
  List.nodup_dedup _

/-- Flushing a loop state that is in step gives the one-at-a-time documents. -/
theorem InStep.flush {s : Store} {requests : List (AdmissionRequest × MintedIds)} {now : Instant}
    {b : BatchState} {q : Store} (h : InStep s (batchRefs requests) now b q) :
    SameDocs (writeAdmitted (writeActives s (batchWrites (readPools s (batchRefs requests)) b.pools
      (batchRefs requests)) now) b.admitted now) q := by
  refine ⟨?_, ?_, ?_⟩
  · intro id
    rw [← h.tasks id, writeAdmitted_tasks, writeAdmitted_tasks]
    rfl
  · intro name
    rw [writeAdmitted_pools]
    unfold batchWrites
    rw [lookup_writeActives_keyed s (batchRefs_nodup requests)]
    have hlimits := h.pools_limits name
    by_cases hname : name ∈ batchRefs requests
    · rw [if_pos hname, h.pools_read name hname, readPools_of_mem s hname]
      cases hs : s.pools.lookup name with
      | none =>
        rw [hs] at hlimits
        have hq : q.pools.lookup name = none := by simpa using hlimits
        rw [hq]
        rfl
      | some d =>
        rw [hs] at hlimits
        obtain ⟨d', hq, hd'⟩ := Option.map_eq_some_iff.mp hlimits
        rw [hq]
        simp only [PoolDoc.limits, PoolDoc.mk.injEq] at hd'
        simp only [Option.map_some, Option.bind_some, PoolDoc.read_active]
        by_cases hsame : d'.activeCount = d.activeCount
        · simp [PoolDoc.undated, hsame, hd']
        · simp [PoolDoc.undated, PoolDoc.withActive, PoolDoc.activeCount, hd',
            show ¬ d'.active.getD 0 = d.active.getD 0 from hsame]
    · rw [if_neg hname, Option.elim_none, h.pools_other name hname]
  · intro id
    rw [← h.leases id, writeAdmitted_leases, writeAdmitted_leases]
    rfl

theorem batchLoop_in_step (s : Store) (items : List ((AdmissionRequest × MintedIds) × Instant))
    (config : AdmissionConfig) (now : Instant) :
    InStep s (batchRefs (items.map Prod.fst)) now (batchLoop s (items.map Prod.fst) config now)
        (acquireOneByOne s items config).2 ∧
      (batchLoop s (items.map Prod.fst) config now).outcomes.map Outcome.undated =
        (acquireOneByOne s items config).1.map Outcome.undated :=
  (InStep.start s (batchRefs (items.map Prod.fst)) now).loop config items rfl
    fun _ hitem _ hname => mem_batchRefs (List.mem_map_of_mem hitem) hname

/-- A batch run once gives, timestamps apart, the outcomes and the documents of
the same requests run one after the other, each in a transaction and at an
instant of its own. -/
theorem acquireLeases_refines_oneByOne (s : Store)
    (items : List ((AdmissionRequest × MintedIds) × Instant)) (config : AdmissionConfig)
    (now : Instant) :
    let batch := acquireLeasesInTransaction s (items.map Prod.fst) config now
    let single := acquireOneByOne s items config
    batch.1.map Outcome.undated = single.1.map Outcome.undated ∧ SameDocs batch.2 single.2 := by
  obtain ⟨hstep, hout⟩ := batchLoop_in_step s items config now
  exact ⟨hout, hstep.flush⟩

end SwarmCloud.Admission
