import SwarmCloud.Scheduler.Commits

/-! # What admission grants

A grant finds its task ready, takes the next generation and points the task at a new
lease. A batch grants each task at most once.
-/

namespace SwarmCloud.Scheduler

open Common Lib AttemptState

/-! ## The batch -/

/-- A lease for this request, over the task that is stored. -/
structure Minted (s : Admission.Store) (r : Admission.AdmissionRequest × Admission.MintedIds)
    (lease : Admission.Lease) : Prop where
  taskId : lease.taskId = r.1.task.id
  leaseId : lease.leaseId = r.2.leaseId
  ready : ∃ current, s.tasks.lookup lease.taskId = some current ∧ current.state = some .ready ∧
    lease.generation = current.currentGeneration.getD 0 + 1

def Answers (s : Admission.Store) (r : Admission.AdmissionRequest × Admission.MintedIds)
    (outcome : Admission.Outcome) : Prop :=
  ∀ lease, outcome = .ok lease → Minted s r lease

/-- The batch behind the requests it has judged. -/
structure Judged (s : Admission.Store) (done : List (Admission.AdmissionRequest × Admission.MintedIds))
    (b : Admission.BatchState) : Prop where
  answers : List.Forall₂ (Answers s) done b.outcomes
  leases : b.admitted.map (fun item => item.2.2) = Admission.grants b.outcomes
  tasks : (Admission.grants b.outcomes).map Admission.Lease.taskId = b.seen
  seen : b.seen.Nodup

theorem batchStep_judged {s : Admission.Store} {done : List (Admission.AdmissionRequest × Admission.MintedIds)}
    {b : Admission.BatchState} (h : Judged s done b) (config : Admission.AdmissionConfig) (now : Instant)
    (r : Admission.AdmissionRequest × Admission.MintedIds) :
    Judged s (done ++ [r]) (Admission.batchStep config now b (r, s.tasks.lookup r.1.task.id)) := by
  have hdenied : ∀ denial, Judged s (done ++ [r]) { b with outcomes := b.outcomes ++ [.error denial] } := by
    intro denial
    have hgrants := Admission.grants_concat_error b.outcomes denial
    refine ⟨?_, h.leases.trans hgrants.symm, hgrants ▸ h.tasks, h.seen⟩
    exact List.rel_append h.answers (.cons (fun lease hlease => (by cases hlease)) .nil)
  rw [Admission.batchStep]
  dsimp only
  split
  · exact hdenied _
  · rename_i hunseen
    split
    · exact hdenied _
    · rename_i hready
      obtain ⟨current, hcurrent, hstate, -⟩ := Admission.readinessDenial_eq_none hready
      split
      · exact hdenied _
      · rw [hcurrent, Option.getD_some]
        have hnew : r.1.task.id ∉ b.seen := by
          intro hseen
          exact hunseen ⟨by rw [hcurrent]; rfl, hseen⟩
        refine ⟨List.rel_append h.answers (.cons ?_ .nil), ?_, ?_, ?_⟩
        · rintro lease hlease
          obtain rfl := Except.ok.inj hlease
          exact ⟨rfl, rfl, current, hcurrent, hstate, rfl⟩
        · rw [Admission.grants_concat_ok, List.map_append, h.leases]
          rfl
        · rw [Admission.grants_concat_ok, List.map_append, h.tasks]
          rfl
        · rw [List.nodup_append]
          refine ⟨h.seen, List.nodup_singleton _, ?_⟩
          rintro id hid id' hid' rfl
          exact hnew (List.mem_singleton.mp hid' ▸ hid)

theorem batchLoop_judged (s : Admission.Store) (requests : List (Admission.AdmissionRequest × Admission.MintedIds))
    (config : Admission.AdmissionConfig) (now : Instant) :
    Judged s requests (Admission.batchLoop s requests config now) := by
  have hloop : ∀ rest done b, Judged s done b → Judged s (done ++ rest)
      ((rest.map fun r => (r, s.tasks.lookup r.1.task.id)).foldl (Admission.batchStep config now) b) := by
    intro rest
    induction rest with
    | nil =>
      intro done b h
      rwa [List.append_nil]
    | cons r rest ih =>
      intro done b h
      have hstep := ih (done ++ [r]) _ (batchStep_judged h config now r)
      rwa [List.append_assoc] at hstep
  exact hloop requests [] _ ⟨.nil, rfl, rfl, List.nodup_nil⟩

/-- The leases of a batch have ids of the requests, each used once. -/
theorem answers_leaseIds {s : Admission.Store} {requests : List (Admission.AdmissionRequest × Admission.MintedIds)}
    {outcomes : List Admission.Outcome} (h : List.Forall₂ (Answers s) requests outcomes) :
    List.Sublist ((Admission.grants outcomes).map Admission.Lease.leaseId) (requests.map fun r => r.2.leaseId) := by
  induction h with
  | nil => exact .slnil
  | @cons r outcome requests outcomes hanswers _ ih =>
    cases outcome with
    | error denial => exact .cons _ ih
    | ok lease =>
      have hid : lease.leaseId = r.2.leaseId := (hanswers lease rfl).leaseId
      have hgrants : Admission.grants (.ok lease :: outcomes) = lease :: Admission.grants outcomes := rfl
      rw [hgrants, List.map_cons, List.map_cons, hid]
      exact .cons_cons _ ih

theorem mem_grants_forall₂ {α : Type} {R : α → Admission.Outcome → Prop} {requests : List α}
    {outcomes : List Admission.Outcome} (h : List.Forall₂ R requests outcomes) {lease : Admission.Lease}
    (hlease : lease ∈ Admission.grants outcomes) : ∃ r ∈ requests, R r (.ok lease) := by
  induction h with
  | nil => cases hlease
  | @cons r outcome requests outcomes hanswers _ ih =>
    have hrest : lease ∈ Admission.grants outcomes → ∃ r' ∈ r :: requests, R r' (.ok lease) := by
      intro hin
      obtain ⟨r', hr', hanswer⟩ := ih hin
      exact ⟨r', List.mem_cons_of_mem r hr', hanswer⟩
    cases outcome with
    | error denial => exact hrest hlease
    | ok first =>
      obtain rfl | hin := List.mem_cons.mp (show lease ∈ first :: Admission.grants outcomes from hlease)
      · exact ⟨r, List.mem_cons_self, hanswers⟩
      · exact hrest hin

/-! ## Grants -/

/-- The leases `leases` are granted at `now`, and nothing else changes but pools and workflows. -/
structure Grants (s s' : Store) (leases : List Admission.Lease) (now : Instant) : Prop where
  ready : ∀ lease ∈ leases, ∃ task, s.tasks.lookup lease.taskId = some task ∧ task.state = .ready ∧
    lease.generation = task.currentGeneration.getD 0 + 1 ∧
    s'.tasks.lookup lease.taskId = some (leasedTask lease now task)
  others : ∀ id, (∀ lease ∈ leases, lease.taskId ≠ id) → s'.tasks.lookup id = s.tasks.lookup id
  minted : ∀ lease ∈ leases, s'.leases.lookup lease.leaseId = some lease.toDoc
  kept : ∀ id, (∀ lease ∈ leases, lease.leaseId ≠ id) → s'.leases.lookup id = s.leases.lookup id
  once : (leases.map Admission.Lease.taskId).Nodup

theorem lookup_admissionDocs (s : Store) (ids : List String) (id : String) :
    (admissionDocs s ids).lookup id = if id ∈ ids then (s.tasks.lookup id).map Store.admissionDoc else none := by
  have hfold : ∀ docs : Docs String Admission.TaskDoc, (ids.foldl (readTask s) docs).lookup id =
      if id ∈ ids then ((s.tasks.lookup id).map Store.admissionDoc).or (docs.lookup id) else docs.lookup id := by
    induction ids with
    | nil => exact fun docs => rfl
    | cons first ids ih =>
      intro docs
      rw [List.foldl_cons, ih, readTask]
      by_cases hid : id = first
      · subst hid
        cases s.tasks.lookup id with
        | none => simp
        | some task => simp
      · cases s.tasks.lookup first with
        | none => simp [hid]
        | some task => simp [hid]
  rw [admissionDocs, hfold]
  simp

theorem lookup_of_admissionRead {s : Store} {ids : List String} {id : String} {current : Admission.TaskDoc}
    (h : (admissionRead s ids).tasks.lookup id = some current) :
    ∃ task, s.tasks.lookup id = some task ∧ current = Store.admissionDoc task := by
  rw [admissionRead, lookup_admissionDocs] at h
  split at h
  · obtain ⟨task, htask, hcurrent⟩ := Option.map_eq_some_iff.mp h
    exact ⟨task, htask, hcurrent.symm⟩
  · cases h

theorem admitted_grants {s : Store} {granted : Admission.Store} {leases : List Admission.Lease} {now : Instant}
    (ids : List String)
    (hready : ∀ lease ∈ leases, ∃ current, (admissionRead s ids).tasks.lookup lease.taskId = some current ∧
      current.state = some .ready ∧ lease.generation = current.currentGeneration.getD 0 + 1)
    (hleases : granted.leases = leases.foldl (fun m lease => m.insert lease.leaseId lease.toDoc) s.leases)
    (htaskIds : (leases.map Admission.Lease.taskId).Nodup) (hleaseIds : (leases.map Admission.Lease.leaseId).Nodup) :
    Grants s (admitted s granted leases now) leases now := by
  have htasks : ∀ (m : Docs String Task) (lease : Admission.Lease) (k : String), k ≠ lease.taskId →
      (m.modify lease.taskId (leasedTask lease now)).lookup k = m.lookup k := by
    intro m lease k hk
    rw [Docs.lookup_modify, if_neg hk]
  have hinserts : ∀ (m : Docs String Admission.LeaseDoc) (lease : Admission.Lease) (k : String), k ≠ lease.leaseId →
      (m.insert lease.leaseId lease.toDoc).lookup k = m.lookup k := by
    intro m lease k hk
    rw [Docs.lookup_insert_eq, if_neg hk]
  refine ⟨?_, ?_, ?_, ?_, htaskIds⟩
  · intro lease hlease
    obtain ⟨current, hcurrent, hstate, hgeneration⟩ := hready lease hlease
    obtain ⟨task, htask, rfl⟩ := lookup_of_admissionRead hcurrent
    refine ⟨task, htask, Option.some.inj hstate, hgeneration, ?_⟩
    rw [admitted, Docs.lookup_foldl_of_mem htasks ?_ htaskIds hlease, Docs.lookup_modify, if_pos rfl, htask]
    · rfl
    · intro m m' lease hsame
      rw [Docs.lookup_modify, Docs.lookup_modify, hsame]
  · exact fun id hother => Docs.lookup_foldl_of_ne htasks hother s.tasks
  · intro lease hlease
    rw [admitted, hleases, Docs.lookup_foldl_of_mem hinserts ?_ hleaseIds hlease, Docs.lookup_insert_eq, if_pos rfl]
    intro m m' lease _
    rw [Docs.lookup_insert_eq, Docs.lookup_insert_eq, if_pos rfl, if_pos rfl]
  · intro id hother
    rw [admitted, hleases]
    exact Docs.lookup_foldl_of_ne hinserts hother s.leases

theorem setWorkflows_tasks (s : Store) (workflows : List (Option (String × Workflow))) :
    (workflows.foldl Store.setWorkflow s).tasks = s.tasks := by
  induction workflows generalizing s with
  | nil => rfl
  | cons workflow workflows ih => exact (ih _).trans (setWorkflow_tasks s workflow)

theorem setWorkflows_leases (s : Store) (workflows : List (Option (String × Workflow))) :
    (workflows.foldl Store.setWorkflow s).leases = s.leases := by
  induction workflows generalizing s with
  | nil => rfl
  | cons workflow workflows ih => exact (ih _).trans (setWorkflow_leases s workflow)

theorem Grants.setWorkflows {s s' : Store} {leases : List Admission.Lease} {now : Instant} (h : Grants s s' leases now)
    (workflows : List (Option (String × Workflow))) : Grants s (workflows.foldl Store.setWorkflow s') leases now := by
  have htasks := setWorkflows_tasks s' workflows
  have hleases := setWorkflows_leases s' workflows
  exact ⟨htasks ▸ h.ready, htasks ▸ h.others, hleases ▸ h.minted, hleases ▸ h.kept, h.once⟩

namespace Control

variable (c : Control) (config : Admission.AdmissionConfig) (now : Instant)

/-- The derived state of the workflow that a request names. -/
def acquiredWorkflow (r : AcquireRequest) : Option (String × Workflow) :=
  match r.workflowKey with
  | none => none
  | some key => c.workflowWrite r.taskId key.tenantId (leasedDoc key.tenantId key.workflowId) now

theorem acquireLease_cases (r : AcquireRequest) :
    (∃ denial, c.acquireLease r config now = (.error denial, c)) ∨ ∃ lease granted,
      (c.acquireLease r config now).1 = .ok lease ∧ Grants c.store (admitted c.store granted [lease] now) [lease] now ∧
      lease.taskId = r.taskId ∧ lease.leaseId = r.ids.leaseId ∧
      (c.acquireLease r config now).2.store =
        (admitted c.store granted [lease] now).setWorkflow (c.acquiredWorkflow now r) := by
  unfold acquireLease
  dsimp only
  split
  · exact .inl ⟨_, rfl⟩
  · rename_i lease granted hgranted
    obtain ⟨current, hgrant⟩ := Admission.acquireLease_ok hgranted
    obtain ⟨found, hfound, hstate, -⟩ := Admission.readinessDenial_eq_none hgrant.ready
    obtain rfl := Option.some.inj hfound
    have htaskId : lease.taskId = r.taskId := by rw [hgrant.lease_eq]; rfl
    have hleaseId : lease.leaseId = r.ids.leaseId := by rw [hgrant.lease_eq]; rfl
    have hgeneration : lease.generation = current.currentGeneration.getD 0 + 1 := by rw [hgrant.lease_eq]; rfl
    refine .inr ⟨lease, granted, rfl, ?_, htaskId, hleaseId, rfl⟩
    refine admitted_grants [r.taskId] ?_ hgrant.leases_eq (List.nodup_singleton _) (List.nodup_singleton _)
    intro other hother
    obtain rfl := List.mem_singleton.mp hother
    refine ⟨current, ?_, hstate, hgeneration⟩
    rw [htaskId]
    exact hgrant.stored

/-- The derived states of the workflows whose steps a batch admits. -/
def acquiredWorkflows (requests : List AcquireRequest) (outcomes : List Admission.Outcome) :
    List (Option (String × Workflow)) :=
  (changedSteps requests outcomes).map fun item =>
    derivedStateWrite c.store item.1.tenantId item.2 (some item.1.workflowId) now

theorem acquireLeases_cases {requests : List AcquireRequest} (hnodup : (requests.map fun r => r.ids.leaseId).Nodup) :
    ∃ granted outcomes, (c.acquireLeases requests config now).1 = outcomes ∧
      Grants c.store (admitted c.store granted (Admission.grants outcomes) now) (Admission.grants outcomes) now ∧
      List.Forall₂ (fun r outcome => ∀ lease, outcome = .ok lease →
        lease.taskId = r.taskId ∧ lease.leaseId = r.ids.leaseId) requests outcomes ∧
      (c.acquireLeases requests config now).2.store = (c.acquiredWorkflows now requests outcomes).foldl Store.setWorkflow
        (admitted c.store granted (Admission.grants outcomes) now) := by
  have hjudged := batchLoop_judged (admissionRead c.store (requests.map (·.taskId)))
    (requests.map fun r => (r.request, r.ids)) config now
  refine ⟨(Admission.acquireLeasesInTransaction (admissionRead c.store (requests.map (·.taskId)))
    (requests.map fun r => (r.request, r.ids)) config now).2,
    (Admission.batchLoop (admissionRead c.store (requests.map (·.taskId)))
      (requests.map fun r => (r.request, r.ids)) config now).outcomes, rfl, ?_, ?_, rfl⟩
  · refine admitted_grants (requests.map (·.taskId)) ?_ ?_ (hjudged.tasks ▸ hjudged.seen) ?_
    · intro lease hlease
      obtain ⟨r, -, hanswer⟩ := mem_grants_forall₂ hjudged.answers hlease
      exact (hanswer lease rfl).ready
    · change (Admission.writeAdmitted _ _ now).leases = _
      rw [Admission.writeAdmitted_leases, ← hjudged.leases, List.foldl_map]
      rfl
    · refine (answers_leaseIds hjudged.answers).nodup ?_
      rwa [List.map_map]
  · have hanswers := List.forall₂_map_left_iff.mp hjudged.answers
    refine hanswers.imp ?_
    intro r outcome hanswer lease hlease
    exact ⟨(hanswer lease hlease).taskId, (hanswer lease hlease).leaseId⟩

end Control

end SwarmCloud.Scheduler
