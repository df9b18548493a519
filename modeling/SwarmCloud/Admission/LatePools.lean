import SwarmCloud.Admission.Capacity
import SwarmCloud.Quota.PoolWrite
import Mathlib.Tactic.IntervalCases

/-! # Pools that appear under outstanding leases

A pool without a document is unlimited and not written at acquire, but the
lease still records units for it. The state below keeps, beside the store, what
each acquire really added to each pool, so that a release can be compared with
it after the broker has created a pool in between.
-/

namespace SwarmCloud.Admission

open Common Lib Quota

structure Audited where
  store : Store
  added : Docs String IntDict

/-- The units an acquire on `s` added to the pools that existed in `s`. -/
def addedBy (s : Store) (lease : Lease) : IntDict :=
  Docs.keyed lease.pools fun name =>
    (s.pools.lookup name).map fun _ => dictGet lease.poolUnits name 0

def recordGrants (s : Store) (leases : List Lease) (added : Docs String IntDict) :
    Docs String IntDict :=
  leases.foldl (fun m lease => m.insert lease.leaseId (addedBy s lease)) added

def Audited.addedTo (g : Audited) (id name : String) : Option Int :=
  (g.added.lookup id).bind fun entries => entries.lookup name

/-- What one unreleased lease has outstanding in a pool. -/
def Audited.outstanding (g : Audited) (name id : String) (d : LeaseDoc) : Int :=
  if d.releasedAt.isNone then (g.addedTo id name).getD 0 else 0

def Audited.owed (g : Audited) (name : String) : Int :=
  g.store.leases.total (g.outstanding name)

/-- No pool counts less than the unreleased leases added to it. -/
def Backed (g : Audited) : Prop :=
  ∀ name d, g.store.pools.lookup name = some d → g.owed name ≤ d.activeCount

inductive LateOp
  | admission (op : Op)
  | poolWrite (provider : String) (tenantId : Option String) (patch : PoolPatch)
      (defaultHardMax : Int) (now : Instant)

def LateOp.apply (config : AdmissionConfig) (g : Audited) : LateOp → Audited
  | .admission op =>
    ⟨op.apply config g.store, recordGrants g.store (grants (op.outcomes config g.store)) g.added⟩
  | .poolWrite provider tenantId patch defaultHardMax now =>
    { g with store := { g.store with
        pools := Quota.poolWrite g.store.pools (providerPoolName provider tenantId) patch
          defaultHardMax now } }

def LateStep (config : AdmissionConfig) (g : Audited) (op : LateOp) (g' : Audited) : Prop :=
  (∀ o, op = .admission o → o.Fresh g.store) ∧ g' = op.apply config g

/-- No leases, and no pool with anything in use. -/
structure Unused (g : Audited) : Prop where
  leases : g.store.leases = ∅
  added : g.added = ∅
  pools : ∀ name d, g.store.pools.lookup name = some d → d.activeCount = 0

/-- The step gives back, in a pool where others have units, only what the
released lease's own acquire added there. -/
def ReleasesItsOwn (g : Audited) : LateOp → Prop
  | .admission (.release leaseId _ _) =>
    ∀ d, g.store.leases.lookup leaseId = some d → d.releasedAt = none → ∀ name ∈ d.pools,
      (g.store.pools.lookup name).isSome → (g.addedTo leaseId name).isSome ∨
        ∀ id d', id ≠ leaseId → g.store.leases.lookup id = some d' → d'.releasedAt = none →
          g.addedTo id name = none
  | _ => True

/-- The facts that carry `Backed` through a run. -/
structure Consistent (g : Audited) : Prop where
  backed : Backed g
  recorded : ∀ id d, g.store.leases.lookup id = some d → ∀ name units,
    g.addedTo id name = some units → name ∈ d.pools ∧ dictGet d.held name 0 = units
  absent : ∀ name, g.store.pools.lookup name = none → ∀ id, g.addedTo id name = none

theorem Unused.consistent {g : Audited} (h : Unused g) : Consistent g := by
  have hadded : ∀ id name, g.addedTo id name = none := by
    intro id name
    rw [Audited.addedTo, h.added]
    rfl
  refine ⟨?_, ?_, fun name _ id => hadded id name⟩
  · intro name d hd
    rw [Audited.owed, h.leases, Docs.total_empty, h.pools name d hd]
  · intro id d hd
    rw [h.leases] at hd
    cases hd

theorem addedBy_lookup (s : Store) (lease : Lease) (name : String) :
    (addedBy s lease).lookup name =
      if name ∈ lease.pools then (s.pools.lookup name).map fun _ => dictGet lease.poolUnits name 0
      else none :=
  Docs.lookup_keyed _ _ _

theorem mintLease_poolUnits {s s' : Store} {request : AdmissionRequest} {config : AdmissionConfig}
    {ids : MintedIds} {now : Instant} {lease : Lease} {current : TaskDoc}
    (h : Granted s request config ids now lease s' current) {name : String}
    (hname : name ∈ lease.pools) :
    dictGet lease.poolUnits name 0 = poolUnitsFor name request.units ∧
      dictGet lease.toDoc.held name 0 = poolUnitsFor name request.units := by
  rw [h.pools_name] at hname
  rw [h.lease_eq]
  exact ⟨reservedPoolUnits_get _ hname, heldPoolUnits_reserved _ hname⟩

/-- A pool that is not there after its count has changed was not there before. -/
theorem absent_of_ite_map {p : Prop} [Decidable p] {f : PoolDoc → PoolDoc} {before after : Option PoolDoc}
    (h : after = if p then before.map f else before) (hafter : after = none) : before = none := by
  rw [h] at hafter
  split at hafter
  · exact Option.map_eq_none_iff.mp hafter
  · exact hafter

section Grant

variable {g : Audited} {s' : Store} {request : AdmissionRequest} {config : AdmissionConfig}
  {ids : MintedIds} {now : Instant} {lease : Lease} {current : TaskDoc}

theorem Granted.addedTo_eq (h : Granted g.store request config ids now lease s' current)
    (id name : String) :
    (⟨s', g.added.insert lease.leaseId (addedBy g.store lease)⟩ : Audited).addedTo id name =
      if id = ids.leaseId then (addedBy g.store lease).lookup name else g.addedTo id name := by
  simp only [Audited.addedTo, Docs.lookup_insert_eq, h.leaseId_eq]
  split
  · rfl
  · rfl

theorem Granted.owed_eq (h : Granted g.store request config ids now lease s' current)
    (hfresh : g.store.leases.lookup ids.leaseId = none) (name : String) :
    (⟨s', g.added.insert lease.leaseId (addedBy g.store lease)⟩ : Audited).owed name =
      ((addedBy g.store lease).lookup name).getD 0 + g.owed name := by
  unfold Audited.owed
  simp only
  rw [h.leases_eq, h.leaseId_eq, Docs.total_insert_of_lookup_none _ hfresh]
  congr 1
  · simp only [Audited.outstanding]
    rw [← h.leaseId_eq, h.addedTo_eq, if_pos h.leaseId_eq]
    rfl
  · apply Docs.total_congr
    intro id d hd
    have hne : id ≠ ids.leaseId := by
      rintro rfl
      rw [hfresh] at hd
      cases hd
    simp only [Audited.outstanding]
    rw [← h.leaseId_eq, h.addedTo_eq, if_neg hne]

theorem Granted.backed (h : Granted g.store request config ids now lease s' current)
    (hfresh : g.store.leases.lookup ids.leaseId = none) (hg : Consistent g) :
    Backed ⟨s', g.added.insert lease.leaseId (addedBy g.store lease)⟩ := by
  intro name d' hd'
  simp only at hd'
  rw [h.owed_eq hfresh, addedBy_lookup]
  rw [h.pools_eq name] at hd'
  by_cases hname : name ∈ requiredPools request.task request.backend
  · rw [if_pos hname] at hd'
    rw [if_pos (h.pools_name ▸ hname)]
    obtain ⟨d, hd, rfl⟩ := Option.map_eq_some_iff.mp hd'
    have hbacked := hg.backed name d hd
    rw [hd, (mintLease_poolUnits h (h.pools_name ▸ hname)).1]
    simp only [Option.map_some, Option.getD_some, PoolDoc.bump, PoolDoc.activeCount_withActive]
    omega
  · rw [if_neg hname] at hd'
    rw [if_neg (h.pools_name ▸ hname)]
    simpa using hg.backed name d' hd'

theorem Granted.consistent (h : Granted g.store request config ids now lease s' current)
    (hfresh : g.store.leases.lookup ids.leaseId = none) (hg : Consistent g) :
    Consistent ⟨s', g.added.insert lease.leaseId (addedBy g.store lease)⟩ := by
  refine ⟨h.backed hfresh hg, ?_, ?_⟩
  · intro id d hd name units hunits
    simp only at hd
    rw [h.leases_eq, Docs.lookup_insert_eq, h.leaseId_eq] at hd
    rw [h.addedTo_eq] at hunits
    split at hd
    · rename_i hid
      cases hd
      rw [if_pos hid, addedBy_lookup] at hunits
      split at hunits
      · rename_i hname
        obtain ⟨_, _, rfl⟩ := Option.map_eq_some_iff.mp hunits
        have hboth := mintLease_poolUnits h hname
        exact ⟨hname, hboth.2.trans hboth.1.symm⟩
      · cases hunits
    · rename_i hid
      rw [if_neg hid] at hunits
      exact hg.recorded id d hd name units hunits
  · intro name hname id
    have hbefore := absent_of_ite_map (h.pools_eq name) hname
    rw [h.addedTo_eq]
    split
    · rw [addedBy_lookup, hbefore]
      split <;> rfl
    · exact hg.absent name hbefore id

end Grant

section Release

variable {g : Audited} {leaseId reason : String} {now : Instant} {s' : Store} {d : LeaseDoc}

theorem Released.owed_eq (h : Released g.store leaseId reason now s' d) (name : String) :
    (⟨s', g.added⟩ : Audited).owed name =
      g.owed name - (g.addedTo leaseId name).getD 0 := by
  unfold Audited.owed
  simp only
  rw [h.leases_eq]
  have hmodify := Docs.total_modify (g.outstanding name)
    (fun d : LeaseDoc => { d with releasedAt := some now, releaseReason := some reason }) h.stored
  refine hmodify.trans ?_
  simp [Audited.outstanding, h.unreleased]

/-- Where no other live lease has units, nothing is owed once this lease is gone. -/
theorem Released.owed_eq_zero (h : Released g.store leaseId reason now s' d) {name : String}
    (hnone : ∀ id d', id ≠ leaseId → g.store.leases.lookup id = some d' → d'.releasedAt = none →
      g.addedTo id name = none) : (⟨s', g.added⟩ : Audited).owed name = 0 := by
  apply Docs.total_eq_zero
  intro id d' hd'
  simp only at hd'
  rw [h.leases_eq, Docs.lookup_modify] at hd'
  split at hd'
  · obtain ⟨d₀, _, rfl⟩ := Option.map_eq_some_iff.mp hd'
    simp [Audited.outstanding]
  · rename_i hid
    unfold Audited.outstanding
    split
    · rename_i hopen
      have hzero := hnone id d' hid hd' (by simpa using hopen)
      change (g.addedTo id name).getD 0 = 0
      rw [hzero]
      rfl
    · rfl

theorem Released.backed (h : Released g.store leaseId reason now s' d) (hg : Consistent g)
    (hown : ReleasesItsOwn g (.admission (.release leaseId reason now))) : Backed ⟨s', g.added⟩ := by
  intro name p' hp'
  simp only at hp'
  rw [h.pools_eq name] at hp'
  split at hp'
  · rename_i hname
    obtain ⟨p, hp, rfl⟩ := Option.map_eq_some_iff.mp hp'
    rw [PoolDoc.activeCount_withActive]
    rcases hown d h.stored h.unreleased name hname (by rw [hp]; rfl) with hsome | hnone
    · obtain ⟨units, hunits⟩ := Option.isSome_iff_exists.mp hsome
      have hheld := (hg.recorded leaseId d h.stored name units hunits).2
      have hbacked := hg.backed name p hp
      rw [h.owed_eq, hunits, hheld, Option.getD_some]
      omega
    · rw [h.owed_eq_zero hnone]
      exact le_max_left _ _
  · rename_i hname
    have hnone : g.addedTo leaseId name = none := by
      cases hadded : g.addedTo leaseId name with
      | none => rfl
      | some units => exact absurd (hg.recorded leaseId d h.stored name units hadded).1 hname
    rw [h.owed_eq, hnone]
    simpa using hg.backed name p' hp'

theorem Released.consistent (h : Released g.store leaseId reason now s' d) (hg : Consistent g)
    (hown : ReleasesItsOwn g (.admission (.release leaseId reason now))) :
    Consistent ⟨s', g.added⟩ := by
  refine ⟨h.backed hg hown, ?_, ?_⟩
  · intro id d' hd' name units hunits
    simp only at hd'
    rw [h.leases_eq, Docs.lookup_modify] at hd'
    split at hd'
    · obtain ⟨d₀, hd₀, rfl⟩ := Option.map_eq_some_iff.mp hd'
      exact hg.recorded id d₀ hd₀ name units hunits
    · exact hg.recorded id d' hd' name units hunits
  · intro name hname id
    have hbefore := absent_of_ite_map (h.pools_eq name) hname
    exact hg.absent name hbefore id

end Release

/-- Changing documents of pools without touching their counts, or creating empty
pools, owes nobody anything new. -/
theorem Consistent.withPools {g : Audited} (hg : Consistent g) (pools : Docs String PoolDoc)
    (hkept : ∀ name d, g.store.pools.lookup name = some d →
      ∃ d', pools.lookup name = some d' ∧ d'.activeCount = d.activeCount)
    (hcreated : ∀ name d', g.store.pools.lookup name = none → pools.lookup name = some d' →
      d'.activeCount = 0) :
    Consistent { g with store := { g.store with pools := pools } } := by
  refine ⟨?_, hg.recorded, ?_⟩
  · intro name d' hd'
    simp only at hd'
    change g.owed name ≤ d'.activeCount
    cases hbefore : g.store.pools.lookup name with
    | none =>
      rw [hcreated name d' hbefore hd']
      apply le_of_eq
      apply Docs.total_eq_zero
      intro id d _
      simp [Audited.outstanding, hg.absent name hbefore id]
    | some d =>
      obtain ⟨d₁, hd₁, hcount⟩ := hkept name d hbefore
      obtain rfl : d₁ = d' := Option.some.inj (hd₁.symm.trans hd')
      rw [hcount]
      exact hg.backed name d hbefore
  · intro name hname id
    apply hg.absent name
    cases hbefore : g.store.pools.lookup name with
    | none => rfl
    | some d =>
      obtain ⟨d', hd', _⟩ := hkept name d hbefore
      simp only at hname
      rw [hname] at hd'
      cases hd'

theorem poolWrite_consistent {g : Audited} (hg : Consistent g) (name : String) (patch : PoolPatch)
    (defaultHardMax : Int) (now : Instant) :
    Consistent { g with store := { g.store with
      pools := Quota.poolWrite g.store.pools name patch defaultHardMax now } } := by
  apply hg.withPools
  · intro other d hd
    rw [lookup_poolWrite]
    split
    · rename_i hother
      subst hother
      rw [hd]
      exact ⟨_, rfl, rfl⟩
    · exact ⟨d, hd, rfl⟩
  · intro other d' hnone hd'
    rw [lookup_poolWrite] at hd'
    split at hd'
    · rename_i hother
      subst hother
      rw [hnone] at hd'
      cases hd'
      rfl
    · rw [hnone] at hd'
      cases hd'

/-! ## Batches -/

theorem addedBy_congr {s s' : Store}
    (h : ∀ name, (s.pools.lookup name).isSome = (s'.pools.lookup name).isSome) (lease : Lease) :
    addedBy s lease = addedBy s' lease := by
  unfold addedBy
  congr 1
  funext name
  have hname := h name
  cases hs : s.pools.lookup name <;> cases hs' : s'.pools.lookup name <;>
    simp [hs, hs'] at hname ⊢

theorem Granted.pools_isSome {s s' : Store} {request : AdmissionRequest}
    {config : AdmissionConfig} {ids : MintedIds} {now : Instant} {lease : Lease}
    {current : TaskDoc} (h : Granted s request config ids now lease s' current) (name : String) :
    (s'.pools.lookup name).isSome = (s.pools.lookup name).isSome := by
  rw [h.pools_eq name]
  split
  · exact Option.isSome_map
  · rfl

theorem oneByOne_consistent {s₀ : Store} {added : Docs String IntDict} (config : AdmissionConfig)
    (items : List ((AdmissionRequest × MintedIds) × Instant)) {acc : List Outcome} {s : Store}
    (h : Consistent ⟨s, recordGrants s₀ (grants acc) added⟩)
    (hpools : ∀ name, (s.pools.lookup name).isSome = (s₀.pools.lookup name).isSome)
    (hfresh : ∀ item ∈ items, s.leases.lookup item.1.2.leaseId = none)
    (hnodup : (items.map fun item => item.1.2.leaseId).Nodup) :
    Consistent ⟨(items.foldl (acquireNext config) (acc, s)).2,
      recordGrants s₀ (grants (items.foldl (acquireNext config) (acc, s)).1) added⟩ := by
  induction items generalizing acc s with
  | nil => exact h
  | cons item items ih =>
    rw [List.foldl_cons]
    obtain ⟨hhead, htail⟩ := List.nodup_cons.mp hnodup
    have hfresh' := fun i hi => hfresh i (List.mem_cons_of_mem item hi)
    rcases acquireNext_cases config acc s item with
      ⟨denial, hnext⟩ | ⟨lease, s', current, hgrant, hnext⟩
    · rw [hnext]
      exact ih (by rw [grants_concat_error]; exact h) hpools hfresh' htail
    · rw [hnext]
      refine ih ?_ ?_ ?_ htail
      · have hnew := hgrant.consistent (g := ⟨s, recordGrants s₀ (grants acc) added⟩)
          (hfresh item List.mem_cons_self) h
        rw [grants_concat_ok, recordGrants, List.foldl_append, ← recordGrants]
        rw [addedBy_congr hpools] at hnew
        exact hnew
      · intro name
        rw [hgrant.pools_isSome, hpools]
      · intro i hi
        rw [hgrant.leases_eq, Docs.lookup_insert_eq, hgrant.leaseId_eq]
        split
        · rename_i hsame
          exact absurd (List.mem_map.mpr ⟨i, hi, hsame⟩) hhead
        · exact hfresh' i hi

theorem recordGrants_undated (s : Store) (leases : List Lease) (added : Docs String IntDict) :
    recordGrants s (leases.map Lease.undated) added = recordGrants s leases added := by
  unfold recordGrants
  rw [List.foldl_map]
  rfl

theorem SameDocs.consistent {s s' : Store} {added : Docs String IntDict} (h : SameDocs s s')
    (hc : Consistent ⟨s', added⟩) : Consistent ⟨s, added⟩ := by
  refine ⟨?_, ?_, ?_⟩
  · intro name d hd
    obtain ⟨d', hd', hundated⟩ := h.lookup_pool hd
    have howed : (⟨s, added⟩ : Audited).owed name = (⟨s', added⟩ : Audited).owed name := by
      apply Docs.total_eq_of_lookup
      intro id
      have hid := congrArg (Option.map ((⟨s', added⟩ : Audited).outstanding name id)) (h.leases id)
      rw [Option.map_map, Option.map_map] at hid
      exact hid
    rw [howed, PoolDoc.activeCount_of_undated hundated]
    exact hc.backed name d' hd'
  · intro id d hd name units hunits
    have hid := h.leases id
    simp only at hd
    rw [hd, Option.map_some, eq_comm, Option.map_eq_some_iff] at hid
    obtain ⟨d', hd', heq⟩ := hid
    have hrecorded := hc.recorded id d' hd' name units hunits
    change name ∈ d.undated.pools ∧ dictGet d.undated.held name 0 = units
    rw [← heq]
    exact hrecorded
  · intro name hname id
    apply hc.absent name
    have hpools := h.pools name
    simp only at hname
    rw [hname] at hpools
    simpa using hpools.symm

theorem acquireLeases_consistent {g : Audited} {requests : List (AdmissionRequest × MintedIds)}
    (config : AdmissionConfig) (now : Instant) (hg : Consistent g)
    (hfresh : ∀ r ∈ requests, g.store.leases.lookup r.2.leaseId = none)
    (hnodup : (requests.map fun r => r.2.leaseId).Nodup) :
    Consistent ⟨(acquireLeasesInTransaction g.store requests config now).2,
      recordGrants g.store (grants (acquireLeasesInTransaction g.store requests config now).1)
        g.added⟩ := by
  have hitems : (requests.map fun r => (r, now)).map Prod.fst = requests := by
    rw [List.map_map]
    exact List.map_id requests
  obtain ⟨hstep, hout⟩ := batchLoop_in_step g.store (requests.map fun r => (r, now)) config now
  rw [hitems] at hstep hout
  refine hstep.flush.consistent ?_
  rw [← recordGrants_undated]
  have hgrants := grants_undated hout
  change Consistent ⟨_, recordGrants g.store ((grants (batchLoop g.store requests config
    now).outcomes).map Lease.undated) g.added⟩
  rw [hgrants, recordGrants_undated]
  refine oneByOne_consistent config (requests.map fun r => (r, now)) hg (fun _ => rfl) ?_ ?_
  · intro item hitem
    obtain ⟨r, hr, rfl⟩ := List.mem_map.mp hitem
    exact hfresh r hr
  · rw [List.map_map]
    exact hnodup

theorem late_step_consistent {config : AdmissionConfig} {g g' : Audited} {op : LateOp}
    (hg : Consistent g) (hstep : LateStep config g op g') (hown : ReleasesItsOwn g op) :
    Consistent g' := by
  obtain ⟨hfresh, rfl⟩ := hstep
  cases op with
  | poolWrite provider tenantId patch defaultHardMax now =>
    exact poolWrite_consistent hg _ patch defaultHardMax now
  | admission op =>
    have hfresh := hfresh op rfl
    simp only [LateOp.apply]
    cases op with
    | acquire request ids now =>
      rcases acquire_result g.store request config ids now with
        ⟨denial, hout, happly⟩ | ⟨lease, s', current, hgrant, hout, happly⟩
      · rw [hout, happly]
        exact hg
      · rw [hout, happly]
        exact hgrant.consistent hfresh hg
    | acquireMany requests now =>
      exact acquireLeases_consistent config now hg hfresh.1 hfresh.2
    | release leaseId reason now =>
      simp only [Op.apply]
      rcases releaseLease_cases g.store leaseId reason now with hnone | ⟨d, s', hsome, hreleased⟩
      · rw [hnone]
        exact hg
      · rw [hsome]
        exact hreleased.consistent hg hown
    | setLimits name hardLimit adaptiveTarget quotaDerivedLimit enabled =>
      apply hg.withPools
      · intro other d hd
        rw [Docs.lookup_modify]
        split
        · rw [hd]
          exact ⟨_, rfl, rfl⟩
        · exact ⟨d, hd, rfl⟩
      · intro other d' hnone hd'
        rw [Docs.lookup_modify, hnone] at hd'
        split at hd' <;> cases hd'

/-- In every run whose releases give back, where others have units, only what
their own acquire added, no pool ever counts less than its leases added. -/
theorem backed_of_releases_its_own {config : AdmissionConfig} {g₀ g : Audited} {ops : List LateOp}
    (h₀ : Unused g₀)
    (hrun : Run (fun g op g' => LateStep config g op g' ∧ ReleasesItsOwn g op) g₀ ops g) :
    Backed g := by
  have hconsistent := hrun.invariant (I := Consistent)
    (fun g op g' hg hstep => late_step_consistent hg hstep.1 hstep.2) h₀.consistent
  exact hconsistent.backed

def twoTaskStore : Store where
  tasks := ((∅ : Docs String TaskDoc).insert "t1" { state := some .ready }).insert "t2"
    { state := some .ready }
  pools := ∅
  leases := ∅

def anthropicRequest (id : String) : AdmissionRequest :=
  ⟨⟨id, "eng", some "anthropic", "standard", "claude"⟩, 1, "gke"⟩

/-- The first lease is taken while `provider:anthropic` has no document. -/
def latePoolOps : List LateOp :=
  [.admission (.acquire (anthropicRequest "t1") ⟨"lease_1", "att_1"⟩ 0),
    .poolWrite "anthropic" none { quotaDerivedLimit := none } 50 1,
    .admission (.acquire (anthropicRequest "t2") ⟨"lease_2", "att_2"⟩ 2),
    .admission (.release "lease_1" "succeeded" 3)]

def latePoolState (n : Nat) : Audited :=
  (latePoolOps.take n).foldl (LateOp.apply {}) ⟨twoTaskStore, ∅⟩

theorem unused_twoTaskStore : Unused ⟨twoTaskStore, ∅⟩ := by
  refine ⟨rfl, rfl, ?_⟩
  intro name d hd
  cases hd

theorem latePool_fresh (n : Nat) (hn : n < 4) (o : Op)
    (h : latePoolOps[n]? = some (.admission o)) : o.Fresh (latePoolState n).store := by
  interval_cases n
  · cases h
    rfl
  · cases h
  · cases h
    change (latePoolState 2).store.leases.lookup "lease_2" = none
    decide
  · cases h
    trivial

theorem latePool_step (n : Nat) (hn : n < 4) :
    LateStep {} (latePoolState n) (latePoolOps[n]) (latePoolState (n + 1)) := by
  refine ⟨fun o ho => latePool_fresh n hn o ?_, ?_⟩
  · rw [← ho]
    exact List.getElem?_eq_getElem hn
  · interval_cases n <;> rfl

/-- The release of the first lease takes back the second one's session. -/
theorem not_backed_after_late_pool :
    ¬ ∀ (config : AdmissionConfig) (g₀ g : Audited) (ops : List LateOp), Unused g₀ →
      Run (LateStep config) g₀ ops g → Backed g := by
  intro hclaim
  have hrun : Run (LateStep {}) (latePoolState 0) latePoolOps (latePoolState 4) :=
    (((Run.nil.snoc (latePool_step 0 (by decide))).snoc (latePool_step 1 (by decide))).snoc
      (latePool_step 2 (by decide))).snoc (latePool_step 3 (by decide))
  have hbacked := hclaim {} _ _ _ unused_twoTaskStore hrun
  have howed : (latePoolState 4).owed "provider:anthropic" = 1 := by decide
  have hactive : ((latePoolState 4).store.pools.lookup "provider:anthropic").map
      PoolDoc.activeCount = some 0 := by decide
  obtain ⟨d, hd, hcount⟩ := Option.map_eq_some_iff.mp hactive
  have hle := hbacked "provider:anthropic" d hd
  rw [howed, hcount] at hle
  omega

/-- The second lease's own release is one the condition allows. -/
theorem backed_after_own_release :
    Backed (LateOp.apply {} (latePoolState 3) (.admission (.release "lease_2" "succeeded" 3))) := by
  have hkeys : (latePoolState 3).store.pools.keys = {"provider:anthropic"} := by decide
  have hadded : ((latePoolState 3).addedTo "lease_2" "provider:anthropic").isSome := by
    decide
  have hown : ReleasesItsOwn (latePoolState 3)
      (.admission (.release "lease_2" "succeeded" 3)) := by
    intro d _ _ name _ hpool
    have hmem : name ∈ (latePoolState 3).store.pools.keys := by
      rw [Finmap.mem_keys, ← Finmap.lookup_isSome]
      exact hpool
    rw [hkeys, Finset.mem_singleton] at hmem
    rw [hmem]
    exact .inl hadded
  have hlast : LateStep {} (latePoolState 3) (.admission (.release "lease_2" "succeeded" 3))
      (LateOp.apply {} (latePoolState 3) (.admission (.release "lease_2" "succeeded" 3))) := by
    refine ⟨fun o ho => ?_, rfl⟩
    cases ho
    trivial
  exact backed_of_releases_its_own unused_twoTaskStore
    (((Run.nil.snoc ⟨latePool_step 0 (by decide), trivial⟩).snoc
      ⟨latePool_step 1 (by decide), trivial⟩).snoc
      ⟨latePool_step 2 (by decide), trivial⟩ |>.snoc ⟨hlast, hown⟩)

end SwarmCloud.Admission
