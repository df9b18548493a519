import SwarmCloud.Admission.Conservation

/-! # Denied requests leave no trace

A batch writes a document only for a lease it granted: its task, its lease
document, and the pools that lease names.
-/

namespace SwarmCloud.Admission

open Common Lib

/-- Every document that differs between `s` and `s'` belongs to a granted lease,
and a pool's count moves by what the granted leases took in it. -/
structure OnlyGrants (s : Store) (outcomes : List Outcome) (s' : Store) : Prop where
  tasks : ∀ id, (∀ lease ∈ grants outcomes, lease.taskId ≠ id) →
    s'.tasks.lookup id = s.tasks.lookup id
  pools : ∀ name, (∀ lease ∈ grants outcomes, name ∉ lease.pools) →
    s'.pools.lookup name = s.pools.lookup name
  leases : ∀ id, (∀ lease ∈ grants outcomes, lease.leaseId ≠ id) →
    s'.leases.lookup id = s.leases.lookup id
  counts : ∀ name, (s'.pools.lookup name).map PoolDoc.activeCount =
    (s.pools.lookup name).map fun d => d.activeCount + taken (grants outcomes) name

/-- With nothing granted the store is the one before. -/
theorem OnlyGrants.unchanged {s s' : Store} {outcomes : List Outcome}
    (h : OnlyGrants s outcomes s') (hdenied : grants outcomes = []) : s' = s := by
  have htasks : s'.tasks = s.tasks :=
    Finmap.ext_lookup fun id => h.tasks id fun lease hlease => by simp [hdenied] at hlease
  have hpools : s'.pools = s.pools :=
    Finmap.ext_lookup fun name => h.pools name fun lease hlease => by simp [hdenied] at hlease
  have hleases : s'.leases = s.leases :=
    Finmap.ext_lookup fun id => h.leases id fun lease hlease => by simp [hdenied] at hlease
  cases s
  cases s'
  simp_all

theorem Granted.onlyGrants {s s' : Store} {request : AdmissionRequest} {config : AdmissionConfig}
    {ids : MintedIds} {now : Instant} {lease : Lease} {current : TaskDoc}
    (h : Granted s request config ids now lease s' current) : OnlyGrants s [.ok lease] s' := by
  have hgrants : grants [.ok lease] = [lease] := rfl
  have htask : lease.taskId = request.task.id := by
    rw [h.lease_eq]
    rfl
  refine ⟨?_, ?_, ?_, ?_⟩
  · intro id hid
    have hne := hid lease (by simp [hgrants])
    rw [h.tasks_eq, Docs.lookup_modify, if_neg fun heq => hne (htask.trans heq.symm)]
  · intro name hname
    have hnot := hname lease (by simp [hgrants])
    rw [h.pools_name] at hnot
    rw [h.pools_eq name, if_neg hnot]
  · intro id hid
    have hne := hid lease (by simp [hgrants])
    rw [h.leases_eq, Docs.lookup_insert_eq, if_neg (Ne.symm hne)]
  · intro name
    have htaken : taken (grants [.ok lease]) name = lease.toDoc.heldIn name := by
      rw [hgrants]
      simp [taken]
    rw [htaken, h.heldIn_eq, h.pools_eq name]
    split
    · rw [Option.map_map]
      rfl
    · simp

theorem batchStep_cases (config : AdmissionConfig) (now : Instant) (b : BatchState)
    (item : (AdmissionRequest × MintedIds) × Option TaskDoc) :
    (∃ denial, batchStep config now b item =
      { b with outcomes := b.outcomes ++ [.error denial] }) ∨
    ∃ current lease,
      batchStep config now b item =
        { pools := reserve b.pools lease.pools lease.poolUnits
          seen := b.seen ++ [lease.taskId]
          outcomes := b.outcomes ++ [.ok lease]
          admitted := b.admitted ++ [(lease.taskId, current, lease)] } := by
  unfold batchStep
  simp only
  split
  · exact .inl ⟨_, rfl⟩
  · split
    · exact .inl ⟨_, rfl⟩
    · split
      · exact .inl ⟨_, rfl⟩
      · exact .inr ⟨item.2.getD {}, mintLease item.1.1.task (item.2.getD {})
          (requiredPools item.1.1.task item.1.1.backend) item.1.1.units
          (reservedPoolUnits (requiredPools item.1.1.task item.1.1.backend) item.1.1.units)
          config item.1.2 now, rfl⟩

/-- What the loop has decided, against what it has answered. -/
structure Accounted (s : Store) (refs : List String) (b : BatchState) : Prop where
  admitted : ∀ a ∈ b.admitted, a.1 = a.2.2.taskId ∧ a.2.2 ∈ grants b.outcomes
  pools : ∀ name, (∀ lease ∈ grants b.outcomes, name ∉ lease.pools) →
    b.pools name = readPools s refs name

theorem Accounted.step {s : Store} {refs : List String} {b : BatchState} (h : Accounted s refs b)
    (config : AdmissionConfig) (now : Instant)
    (item : (AdmissionRequest × MintedIds) × Option TaskDoc) :
    Accounted s refs (batchStep config now b item) := by
  rcases batchStep_cases config now b item with ⟨denial, hnext⟩ | ⟨current, lease, hnext⟩
  · have hgrants := grants_concat_error b.outcomes denial
    rw [hnext]
    constructor
    · simpa only [hgrants] using h.admitted
    · simpa only [hgrants] using h.pools
  · have hgrants := grants_concat_ok b.outcomes lease
    rw [hnext]
    constructor
    · intro a ha
      simp only [hgrants, List.mem_append, List.mem_singleton] at ha ⊢
      rcases ha with ha | rfl
      · exact ⟨(h.admitted a ha).1, .inl (h.admitted a ha).2⟩
      · exact ⟨rfl, .inr rfl⟩
    · intro name hname
      simp only [hgrants, List.mem_append, List.mem_singleton] at hname
      have hnew : name ∉ lease.pools := hname lease (.inr rfl)
      simp only [reserve, if_neg hnew]
      exact h.pools name fun other hother => hname other (.inl hother)

theorem batchLoop_accounted (s : Store) (requests : List (AdmissionRequest × MintedIds))
    (config : AdmissionConfig) (now : Instant) :
    Accounted s (batchRefs requests) (batchLoop s requests config now) := by
  unfold batchLoop
  have hstart : Accounted s (batchRefs requests)
      ⟨readPools s (batchRefs requests), [], [], []⟩ :=
    ⟨fun _ h => (by cases h), fun _ _ => rfl⟩
  generalize (requests.map fun r => (r, s.tasks.lookup r.1.task.id)) = items
  generalize (⟨readPools s (batchRefs requests), [], [], []⟩ : BatchState) = b at hstart ⊢
  induction items generalizing b with
  | nil => exact hstart
  | cons item items ih => exact ih _ (hstart.step config now item)

theorem lookup_foldl_modify_of_ne {admitted : List (String × TaskDoc × Lease)} {id : String}
    (h : ∀ a ∈ admitted, a.1 ≠ id) (now : Instant) (m : Docs String TaskDoc) :
    (admitted.foldl (fun m a => m.modify a.1 (a.2.1.leasedBy a.2.2 now)) m).lookup id =
      m.lookup id := by
  induction admitted generalizing m with
  | nil => rfl
  | cons a admitted ih =>
    have hne : id ≠ a.1 := Ne.symm (h a List.mem_cons_self)
    rw [List.foldl_cons, ih fun a' ha' => h a' (List.mem_cons_of_mem _ ha'), Docs.lookup_modify,
      if_neg hne]

theorem lookup_foldl_insert_of_ne {admitted : List (String × TaskDoc × Lease)} {id : String}
    (h : ∀ a ∈ admitted, a.2.2.leaseId ≠ id) (m : Docs String LeaseDoc) :
    (admitted.foldl (fun m a => m.insert a.2.2.leaseId a.2.2.toDoc) m).lookup id =
      m.lookup id := by
  induction admitted generalizing m with
  | nil => rfl
  | cons a admitted ih =>
    have hne : id ≠ a.2.2.leaseId := Ne.symm (h a List.mem_cons_self)
    rw [List.foldl_cons, ih fun a' ha' => h a' (List.mem_cons_of_mem _ ha'),
      Docs.lookup_insert_eq, if_neg hne]

theorem acquireLeases_onlyGrants {s : Store} {requests : List (AdmissionRequest × MintedIds)}
    {config : AdmissionConfig} {now : Instant}
    (hprogress : Progress s (acquireLeasesInTransaction s requests config now).1
      (acquireLeasesInTransaction s requests config now).2) :
    OnlyGrants s (acquireLeasesInTransaction s requests config now).1
      (acquireLeasesInTransaction s requests config now).2 := by
  have haccounted := batchLoop_accounted s requests config now
  refine ⟨?_, ?_, ?_, hprogress.counts⟩
  · intro id hid
    unfold acquireLeasesInTransaction at hid ⊢
    simp only [writeAdmitted_tasks] at hid ⊢
    rw [lookup_foldl_modify_of_ne]
    · rfl
    · intro a ha
      rw [(haccounted.admitted a ha).1]
      exact hid a.2.2 (haccounted.admitted a ha).2
  · intro name hname
    unfold acquireLeasesInTransaction at hname ⊢
    simp only [writeAdmitted_pools] at hname ⊢
    unfold batchWrites
    rw [lookup_writeActives_keyed s (batchRefs_nodup requests), haccounted.pools name hname]
    split
    · cases readPools s (batchRefs requests) name with
      | none => rfl
      | some pool => simp
    · rfl
  · intro id hid
    unfold acquireLeasesInTransaction at hid ⊢
    simp only [writeAdmitted_leases] at hid ⊢
    rw [lookup_foldl_insert_of_ne]
    · rfl
    · intro a ha
      exact hid a.2.2 (haccounted.admitted a ha).2

end SwarmCloud.Admission
