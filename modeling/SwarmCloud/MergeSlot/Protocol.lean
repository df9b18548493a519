import SwarmCloud.MergeSlot.Slot
import SwarmCloud.Lib.Runs
import Mathlib.Data.List.Perm.Subperm

/-! # The merge slot protocol

Claimants call the three transitions in any order. `Transition` says once what
a call can do to the document; the protocol's properties are read off it. No
order of the instants and no agreement between calls is assumed.
-/

namespace SwarmCloud.MergeSlot

open Common Lib

inductive SlotOp
  | acquire (names : SlotNames) (updates : Int) (ended : Finset String)
  | renew (updates : Option Int)
  | release (reason : String) (ended : Finset String) (generation : Option Int)

structure Call where
  me : Claimant
  now : Instant
  op : SlotOp

def Call.ended (c : Call) : Finset String :=
  match c.op with
  | .acquire _ _ ended => ended
  | .renew _ => ∅
  | .release _ ended _ => ended

def Call.isAcquire (c : Call) : Prop := ∃ names updates ended, c.op = .acquire names updates ended

def Call.isRelease (c : Call) : Prop :=
  ∃ reason ended generation, c.op = .release reason ended generation

/-- The document after a call's transaction. -/
def Call.apply (c : Call) (doc : Option SlotDoc) : Option SlotDoc :=
  match c.op with
  | .acquire names updates ended => some (slotAcquire doc c.me names c.now updates ended).1
  | .renew updates => ((slotRenew doc c.me c.now updates).map Prod.fst) <|> doc
  | .release reason ended generation =>
      ((slotRelease doc c.me c.now reason ended generation).map Prod.fst) <|> doc

def Step (doc : Option SlotDoc) (c : Call) (doc' : Option SlotDoc) : Prop := c.apply doc = doc'

def holderOf (doc : Option SlotDoc) : Option SlotHolder := doc.bind SlotDoc.holder
def waitersOf (doc : Option SlotDoc) : List SlotWaiter := doc.elim [] SlotDoc.waiters
def generationOf (doc : Option SlotDoc) : Int := count (doc.bind SlotDoc.generation)

def Holds (doc : Option SlotDoc) (taskId : String) : Prop :=
  ∃ h ∈ holderOf doc, h.taskId = taskId

def Waits (doc : Option SlotDoc) (taskId : String) : Prop :=
  ∃ w ∈ waitersOf doc, w.taskId = taskId

/-- The slot goes to a task that did not hold it. -/
def Granted (doc doc' : Option SlotDoc) (h : SlotHolder) : Prop :=
  holderOf doc' = some h ∧ ¬ Holds doc h.taskId

/-- The entries a grant of this call chooses from. -/
def candidates (doc : Option SlotDoc) (c : Call) : List SlotWaiter :=
  (waitersOf doc).filter (isLive c.now c.ended c.me.taskId) ++
    match c.op with
    | .acquire names _ _ => [ownEntry (named doc names) c.me c.now]
    | _ => []

/-- What may end a holder's turn. -/
def MayReplace (c : Call) (h : SlotHolder) : Prop :=
  (c.isRelease ∧ c.me.taskId = h.taskId) ∨
    (c.isAcquire ∧ (holderExpired h c.now = true ∨ h.taskId ∈ c.ended))

/-- A queue rebuilt from `pool` after `served` left its front. The cut at the
queue's bound drops nothing from a pool within it. -/
structure Requeued (pool served after : List SlotWaiter) : Prop where
  subperm : (served ++ after).Subperm pool
  complete : pool.length ≤ mergeSlotMaxWaiters → (served ++ after).Perm pool
  least : ∀ first ∈ served, ∀ w ∈ pool, order first ≤ order w

/-- Which entries a rebuilt queue starts from. -/
structure PoolOf (doc : Option SlotDoc) (c : Call) (pool : List SlotWaiter) : Prop where
  sound : ∀ w ∈ pool, w ∈ waitersOf doc ∨
    (c.isAcquire ∧ w.taskId = c.me.taskId ∧ ¬ Holds doc c.me.taskId)
  nodup : ((waitersOf doc).map SlotWaiter.taskId).Nodup → (pool.map SlotWaiter.taskId).Nodup
  length_le : pool.length ≤ (waitersOf doc).length + 1
  live : ∀ w ∈ waitersOf doc, isLive c.now c.ended c.me.taskId w = true → w ∈ pool
  caller : c.isRelease ∨ Holds doc c.me.taskId ∨ ∃ w ∈ pool, w.taskId = c.me.taskId

inductive Transition (doc : Option SlotDoc) (c : Call) (doc' : Option SlotDoc) : Prop
  | idle (same : doc' = doc)
  | kept (pool : List SlotWaiter) (poolOf : PoolOf doc c pool)
      (queue : Requeued pool [] (waitersOf doc'))
      (holder : (holderOf doc').map (fun h => (h.taskId, h.generation)) =
        (holderOf doc).map (fun h => (h.taskId, h.generation)))
      (generation : generationOf doc' = generationOf doc)
  | vacated (poolOf : PoolOf doc c []) (queue : waitersOf doc' = [])
      (own : c.isRelease ∧ Holds doc c.me.taskId) (holder : holderOf doc' = none)
      (generation : generationOf doc' = generationOf doc)
  | granted (first : SlotWaiter) (h : SlotHolder) (poolOf : PoolOf doc c (candidates doc c))
      (queue : Requeued (candidates doc c) [first] (waitersOf doc'))
      (replaced : ∀ before ∈ holderOf doc, MayReplace c before)
      (holder : holderOf doc' = some h) (task : h.taskId = first.taskId)
      (submitted : h.submittedAt = first.submittedAt)
      (stamp : h.generation = some (generationOf doc'))
      (generation : generationOf doc' = generationOf doc + 1)

theorem isLive_iff {now : Instant} {ended : Finset String} {drop : String} {w : SlotWaiter} :
    isLive now ended drop w = true ↔
      w.taskId ≠ drop ∧ w.taskId ∉ ended ∧ isStale now w = false := by
  simp [isLive, and_assoc]

theorem Requeued.of_perm {pool pool' served after : List SlotWaiter}
    (h : Requeued pool served after) (hperm : pool.Perm pool') : Requeued pool' served after where
  subperm := h.subperm.trans hperm.subperm
  complete hlen := (h.complete (hperm.length_eq ▸ hlen)).trans hperm
  least first hfirst w hw := h.least first hfirst w (hperm.mem_iff.mpr hw)

theorem Requeued.refl (pool : List SlotWaiter) : Requeued pool [] pool where
  subperm := (List.Perm.refl pool).subperm
  complete _ := .refl pool
  least _ hfirst := absurd hfirst List.not_mem_nil

theorem Requeued.sorted (pool : List SlotWaiter) : Requeued pool [] (sortBy order pool) :=
  (Requeued.refl _).of_perm (sortBy_perm order pool)

theorem Requeued.cut (pool : List SlotWaiter) :
    Requeued pool [] ((sortBy order pool).take mergeSlotMaxWaiters) where
  subperm := (List.take_sublist _ _).subperm.trans (sortBy_perm order pool).subperm
  complete hlen := by
    rw [List.nil_append, List.take_of_length_le (by simpa using hlen)]
    exact sortBy_perm order pool
  least _ hfirst := absurd hfirst List.not_mem_nil

theorem Requeued.serve {pool rest after : List SlotWaiter} {first : SlotWaiter}
    (hsort : sortBy order pool = first :: rest) (hafter : after = rest ∨
      after = rest.take mergeSlotMaxWaiters) : Requeued pool [first] after where
  subperm := by
    have hsub : after.Sublist rest := by
      obtain rfl | rfl := hafter
      · exact List.Sublist.refl _
      · exact List.take_sublist _ _
    have hperm := sortBy_perm order pool
    rw [hsort] at hperm
    exact (hsub.cons_cons first).subperm.trans hperm.subperm
  complete hlen := by
    have hperm := sortBy_perm order pool
    rw [hsort] at hperm
    have hrest : after = rest := by
      obtain h | h := hafter
      · exact h
      · have hlength := hperm.length_eq
        rw [List.length_cons] at hlength
        rw [h, List.take_of_length_le (by omega)]
    rw [hrest]
    exact hperm
  least f hf w hw := by
    obtain rfl : f = first := by simpa using hf
    exact sortBy_head_least hsort hw

section Pools

variable {doc : Option SlotDoc} {c : Call}

/-- A queue of the live waiters alone: the caller leaves it, or holds the slot. -/
theorem PoolOf.live_only (hcaller : c.isRelease ∨ Holds doc c.me.taskId) :
    PoolOf doc c ((waitersOf doc).filter (isLive c.now c.ended c.me.taskId)) where
  sound _ hw := .inl (List.mem_of_mem_filter hw)
  nodup h := h.sublist (List.filter_sublist.map _)
  length_le := (List.length_filter_le _ _).trans (Nat.le_succ _)
  live _ hw hlive := List.mem_filter.mpr ⟨hw, hlive⟩
  caller := hcaller.imp_right .inl

/-- The whole queue, untouched: only a holder's renewal leaves it so. -/
theorem PoolOf.waiters (hheld : Holds doc c.me.taskId) : PoolOf doc c (waitersOf doc) where
  sound _ hw := .inl hw
  nodup h := h
  length_le := Nat.le_succ _
  live _ hw _ := hw
  caller := .inr (.inl hheld)

theorem PoolOf.candidates_acquire {names : SlotNames} {updates : Int} {ended : Finset String}
    (hop : c.op = .acquire names updates ended) (hheld : ¬ Holds doc c.me.taskId) :
    PoolOf doc c (candidates doc c) where
  sound w hw := by
    rw [candidates, hop, List.mem_append, List.mem_singleton] at hw
    obtain hw | rfl := hw
    · exact .inl (List.mem_of_mem_filter hw)
    · exact .inr ⟨⟨_, _, _, hop⟩, rfl, hheld⟩
  nodup h := by
    rw [candidates, hop, List.map_append, List.nodup_append]
    refine ⟨h.sublist (List.filter_sublist.map _), by simp, ?_⟩
    intro t ht u hu
    obtain ⟨w, hw, rfl⟩ := List.mem_map.mp ht
    obtain rfl : u = c.me.taskId := by simpa [ownEntry] using hu
    exact (isLive_iff.mp (List.mem_filter.mp hw).2).1
  length_le := by
    rw [candidates, hop, List.length_append, List.length_singleton]
    exact Nat.succ_le_succ (List.length_filter_le _ _)
  live w hw hlive := by
    rw [candidates]
    exact List.mem_append_left _ (List.mem_filter.mpr ⟨hw, hlive⟩)
  caller := by
    refine .inr (.inr ⟨ownEntry (named doc names) c.me c.now, ?_, rfl⟩)
    rw [candidates, hop]
    exact List.mem_append_right _ (List.mem_singleton.mpr rfl)

end Pools

theorem count_nonneg (n : Option Int) : 0 ≤ count n := by
  unfold count
  split
  · split <;> omega
  · exact le_rfl

theorem count_some {n : Int} (h : 0 ≤ n) : count (some n) = n := if_pos h

section Transitions

variable {doc : Option SlotDoc} {c : Call} {names : SlotNames} {updates : Int}
  {ended : Finset String}

theorem acquireFree_transition (hop : c.op = .acquire names updates ended)
    (hheld : ¬ Holds doc c.me.taskId) (hfree : ∀ h ∈ holderOf doc, MayReplace c h) :
    Transition doc c (some (acquireFree (named doc names) c.me c.now updates ended).1) := by
  have hended : c.ended = ended := by rw [Call.ended, hop]
  have hperm : (liveWaiters (named doc names) c.now ended c.me.taskId ++
      [ownEntry (named doc names) c.me c.now]).Perm (candidates doc c) := by
    rw [candidates, hop, hended]
    exact (sortBy_perm _ _).append_right _
  have hcount : count (some (generationOf doc + 1)) = generationOf doc + 1 :=
    count_some (by have := count_nonneg (doc.bind SlotDoc.generation); unfold generationOf; omega)
  have hbefore : count (named doc names).generation = generationOf doc :=
    count_some (count_nonneg _)
  obtain ⟨first, rest, hsort⟩ : ∃ first rest, sortBy order
      (liveWaiters (named doc names) c.now ended c.me.taskId ++
        [ownEntry (named doc names) c.me c.now]) = first :: rest :=
    List.exists_cons_of_length_pos (by simp)
  have hqueue := (Requeued.serve hsort (.inr rfl)).of_perm hperm
  have hown : first.taskId = c.me.taskId → first.submittedAt = c.me.submittedAt := by
    intro htask
    have hmem : first ∈ liveWaiters (named doc names) c.now ended c.me.taskId ++
        [ownEntry (named doc names) c.me c.now] := by
      rw [← @mem_sortBy _ _ _ order, hsort]
      exact List.mem_cons_self
    rw [List.mem_append, List.mem_singleton] at hmem
    obtain hmem | rfl := hmem
    · exact absurd htask (isLive_iff.mp (List.mem_filter.mp (mem_sortBy.mp hmem)).2).1
    · rfl
  unfold acquireFree
  simp only [hsort, List.headD_cons, List.tail_cons, hbefore]
  split
  · rename_i htask
    exact .granted first _ (.candidates_acquire hop hheld) hqueue hfree rfl htask.symm
      (hown htask).symm (congrArg some hcount.symm) hcount
  · exact .granted first _ (.candidates_acquire hop hheld) hqueue hfree rfl rfl
      rfl (congrArg some hcount.symm) hcount

theorem acquire_transition (hop : c.op = .acquire names updates ended) :
    Transition doc c (some (slotAcquire doc c.me names c.now updates ended).1) := by
  have hended : c.ended = ended := by rw [Call.ended, hop]
  have hbefore : generationOf (some (named doc names)) = generationOf doc :=
    count_some (count_nonneg _)
  unfold slotAcquire
  simp only
  split
  · rename_i hnone
    have hholder : holderOf doc = none := hnone
    apply acquireFree_transition hop
    · rintro ⟨h, hh, -⟩
      simp [hholder] at hh
    · simp [hholder]
  · rename_i h hsome
    have hholder : holderOf doc = some h := hsome
    split
    · rename_i hme
      have hheld : Holds doc c.me.taskId := ⟨h, hholder, hme⟩
      refine .kept _ (.live_only (.inr hheld)) ?_ ?_ hbefore
      · rw [hended]
        exact .sorted _
      · rw [hholder]
        rfl
    · rename_i hme
      have hheld : ¬ Holds doc c.me.taskId := by
        rintro ⟨h', hh', htask⟩
        obtain rfl : h = h' := by simpa [hholder] using hh'
        exact hme htask
      split
      · rename_i hfree
        apply acquireFree_transition hop hheld
        intro h' hh'
        obtain rfl : h = h' := by simpa [hholder] using hh'
        refine .inr ⟨⟨_, _, _, hop⟩, ?_⟩
        simpa [isFree, hended] using hfree
      · refine .kept _ (.candidates_acquire hop hheld) ?_ (congrArg _ rfl) hbefore
        refine (Requeued.cut _).of_perm ?_
        rw [candidates, hop, hended]
        exact (sortBy_perm _ _).append_right _

theorem renew_transition {updates : Option Int} :
    Transition doc c (((slotRenew doc c.me c.now updates).map Prod.fst) <|> doc) := by
  unfold slotRenew
  split
  · exact .idle rfl
  · rename_i doc
    split
    · exact .idle rfl
    · rename_i h hholder
      split
      · rename_i hme
        refine .kept _ (.waiters ⟨h, hholder, hme⟩) (.refl _) ?_ rfl
        change some _ = Option.map _ doc.holder
        rw [hholder]
        rfl
      · exact .idle rfl

theorem release_transition {reason : String} {generation : Option Int}
    (hop : c.op = .release reason ended generation) :
    Transition doc c
      (((slotRelease doc c.me c.now reason ended generation).map Prod.fst) <|> doc) := by
  have hended : c.ended = ended := by rw [Call.ended, hop]
  have hrelease : c.isRelease := ⟨_, _, _, hop⟩
  unfold slotRelease
  split
  · exact .idle rfl
  · rename_i doc
    have hcandidates : candidates (some doc) c =
        doc.waiters.filter (isLive c.now ended c.me.taskId) := by
      rw [candidates, hop, hended, List.append_nil]
      rfl
    have hpool : PoolOf (some doc) c (candidates (some doc) c) := by
      rw [hcandidates, ← hended]
      exact .live_only (.inl hrelease)
    simp only
    split
    · split
      · refine .kept _ hpool ?_ rfl rfl
        rw [hcandidates]
        exact .sorted _
      · exact .idle rfl
    · rename_i h hholds
      obtain ⟨hholder, hmine⟩ := Option.filter_eq_some_iff.mp hholds
      have hme : h.taskId = c.me.taskId := (of_decide_eq_true hmine).1
      split
      · rename_i hempty
        refine .vacated ?_ hempty ⟨hrelease, h, hholder, hme⟩ rfl rfl
        have hnil : candidates (some doc) c = [] := by
          rw [hcandidates, ← List.length_eq_zero_iff, ← @length_sortBy _ _ _ order]
          exact congrArg List.length hempty
        exact hnil ▸ hpool
      · rename_i first rest hqueue
        have hcount : count (some (count doc.generation + 1)) = count doc.generation + 1 :=
          count_some (by have := count_nonneg doc.generation; omega)
        refine .granted first _ hpool ?_ ?_ rfl rfl rfl (congrArg some hcount.symm) hcount
        · rw [hcandidates]
          exact .serve hqueue (.inl rfl)
        · intro h' hh'
          obtain rfl : h = h' := Option.some.inj (hholder.symm.trans hh')
          exact .inl ⟨hrelease, hme.symm⟩

theorem step_transition {doc' : Option SlotDoc} (h : Step doc c doc') : Transition doc c doc' := by
  subst h
  unfold Call.apply
  split
  · rename_i hop
    exact acquire_transition hop
  · exact renew_transition
  · rename_i hop
    exact release_transition hop

end Transitions

/-- The document's own consistency. A holder's generation is the document's, so
a generation a task was told names at most one turn. -/
structure Consistent (doc : Option SlotDoc) : Prop where
  nodup : ((waitersOf doc).map SlotWaiter.taskId).Nodup
  apart : ∀ w ∈ waitersOf doc, ¬ Holds doc w.taskId
  current : ∀ h ∈ holderOf doc, h.generation = some (generationOf doc)

structure StepProtocol (doc : Option SlotDoc) (c : Call) (doc' : Option SlotDoc) : Prop where
  grantRaises : ∀ h, Granted doc doc' h →
    generationOf doc' = generationOf doc + 1 ∧ h.generation = some (generationOf doc')
  otherwiseKept : (∀ h, ¬ Granted doc doc' h) → generationOf doc' = generationOf doc
  replaced : ∀ h ∈ holderOf doc, ¬ Holds doc' h.taskId → MayReplace c h
  grantsLeast : ∀ h, Granted doc doc' h → ∃ first ∈ candidates doc c,
    h.taskId = first.taskId ∧ h.submittedAt = first.submittedAt ∧
      ∀ w ∈ candidates doc c, order first ≤ order w
  leaves : (waitersOf doc).length < mergeSlotMaxWaiters → ∀ w ∈ waitersOf doc,
    ¬ Waits doc' w.taskId →
      (∃ h, Granted doc doc' h ∧ h.taskId = w.taskId) ∨
      (c.isRelease ∧ c.me.taskId = w.taskId) ∨ w.taskId ∈ c.ended ∨
      ∃ seen, w.seenAt = some seen ∧ seen + seconds mergeSlotWaiterStaleSeconds < c.now

structure SlotProtocol (doc : Option SlotDoc) : Prop where
  oneHolder : ∀ t u, Holds doc t → Holds doc u → t = u
  waitersDistinct : ((waitersOf doc).map SlotWaiter.taskId).Nodup
  neverBoth : ∀ t, Holds doc t → ¬ Waits doc t
  steps : ∀ c doc', Step doc c doc' → StepProtocol doc c doc'
  grantsDiffer : ∀ c₁ doc₁ h₁ calls doc₂ c₂ doc₃ h₂, Step doc c₁ doc₁ → Granted doc doc₁ h₁ →
    Run Step doc₁ calls doc₂ → Step doc₂ c₂ doc₃ → Granted doc₂ doc₃ h₂ →
      ∃ g₁ g₂, h₁.generation = some g₁ ∧ h₂.generation = some g₂ ∧ g₁ < g₂

section Properties

variable {doc doc' : Option SlotDoc} {c : Call}

theorem holds_congr (h : (holderOf doc').map (fun h => (h.taskId, h.generation)) =
    (holderOf doc).map (fun h => (h.taskId, h.generation))) (t : String) :
    Holds doc' t ↔ Holds doc t := by
  unfold Holds
  cases hdoc : holderOf doc <;> cases hdoc' : holderOf doc' <;> simp_all

theorem PoolOf.not_holds {pool : List SlotWaiter} {w : SlotWaiter} (hpool : PoolOf doc c pool)
    (h : Consistent doc) (hw : w ∈ pool) : ¬ Holds doc w.taskId := by
  obtain hw | ⟨-, htask, hheld⟩ := hpool.sound w hw
  · exact h.apart w hw
  · rwa [htask]

theorem Requeued.nodup {pool served after : List SlotWaiter} (hq : Requeued pool served after)
    (h : (pool.map SlotWaiter.taskId).Nodup) :
    ((served ++ after).map SlotWaiter.taskId).Nodup := by
  obtain ⟨l, hl, hsub⟩ := hq.subperm
  exact (hl.map _).nodup_iff.mp (h.sublist (hsub.map _))

theorem Transition.consistent (ht : Transition doc c doc') (h : Consistent doc) :
    Consistent doc' := by
  cases ht with
  | idle same => rwa [same]
  | kept pool hpool hqueue hholder hgeneration =>
    refine ⟨hqueue.nodup (hpool.nodup h.nodup), ?_, ?_⟩
    · intro w hw
      rw [holds_congr hholder]
      exact hpool.not_holds h (hqueue.subperm.subset hw)
    · intro before hbefore
      have hmap : (holderOf doc).map (fun h => (h.taskId, h.generation)) =
          some (before.taskId, before.generation) := by
        rw [← hholder, Option.mem_def.mp hbefore]
        rfl
      obtain ⟨old, hold, heq⟩ := Option.map_eq_some_iff.mp hmap
      rw [hgeneration, ← (Prod.mk.inj heq).2]
      exact h.current old hold
  | vacated _ hqueue _ hholder _ =>
    refine ⟨?_, ?_, ?_⟩
    · simp [hqueue]
    · simp [hqueue]
    · simp [hholder]
  | granted first granted hpool hqueue _ hholder htask _ hstamp _ =>
    have hnodup := hqueue.nodup (hpool.nodup h.nodup)
    rw [List.singleton_append, List.map_cons, List.nodup_cons] at hnodup
    refine ⟨hnodup.2, ?_, ?_⟩
    · rintro w hw ⟨holder, hmem, heq⟩
      obtain rfl : granted = holder := by simpa [hholder] using hmem
      apply hnodup.1
      rw [← htask, heq]
      exact List.mem_map_of_mem hw
    · intro holder hmem
      obtain rfl : granted = holder := by simpa [hholder] using hmem
      exact hstamp

/-- A grant in the observed sense is one of the transition's grants. -/
theorem Transition.grant_spec (ht : Transition doc c doc') {granted : SlotHolder}
    (hg : Granted doc doc' granted) :
    generationOf doc' = generationOf doc + 1 ∧ granted.generation = some (generationOf doc') ∧
      ∃ first, Requeued (candidates doc c) [first] (waitersOf doc') ∧
        granted.taskId = first.taskId ∧ granted.submittedAt = first.submittedAt := by
  obtain ⟨hholder, hnew⟩ := hg
  have hheld : Holds doc' granted.taskId := ⟨granted, hholder, rfl⟩
  cases ht with
  | idle same => exact absurd (same ▸ hheld) hnew
  | kept _ _ _ hsame _ => exact absurd ((holds_congr hsame _).mp hheld) hnew
  | vacated _ _ _ hnone _ => simp [hnone] at hholder
  | granted first other _ hqueue _ hother htask hsubmitted hstamp hgeneration =>
    obtain rfl : other = granted := Option.some.inj (hother.symm.trans hholder)
    exact ⟨hgeneration, hstamp, first, hqueue, htask, hsubmitted⟩

theorem Transition.left_queue (ht : Transition doc c doc') (h : Consistent doc)
    (hlen : (waitersOf doc).length < mergeSlotMaxWaiters) {w : SlotWaiter}
    (hw : w ∈ waitersOf doc) (hlive : isLive c.now c.ended c.me.taskId w = true ∨
      (w.taskId = c.me.taskId ∧ ¬ c.isRelease)) (hgone : ¬ Waits doc' w.taskId) :
    ∃ granted, Granted doc doc' granted ∧ granted.taskId = w.taskId := by
  have hentry : ∀ pool, PoolOf doc c pool → ∃ w' ∈ pool, w'.taskId = w.taskId := by
    intro pool hpool
    obtain hlive | ⟨hme, hrelease⟩ := hlive
    · exact ⟨w, hpool.live w hw hlive, rfl⟩
    · obtain h' | h' | ⟨w', hw', htask⟩ := hpool.caller
      · exact absurd h' hrelease
      · exact absurd (hme ▸ h') (h.apart w hw)
      · exact ⟨w', hw', htask.trans hme.symm⟩
  cases ht with
  | idle same => exact absurd ⟨w, same ▸ hw, rfl⟩ hgone
  | kept pool hpool hqueue _ _ =>
    obtain ⟨w', hw', htask⟩ := hentry pool hpool
    have hperm := hqueue.complete (hpool.length_le.trans hlen)
    exact absurd ⟨w', hperm.mem_iff.mpr hw', htask⟩ hgone
  | vacated hpool _ _ _ _ =>
    obtain ⟨w', hw', -⟩ := hentry [] hpool
    exact absurd hw' List.not_mem_nil
  | granted first granted hpool hqueue _ hholder htask _ _ _ =>
    obtain ⟨w', hw', heq⟩ := hentry _ hpool
    have hperm := hqueue.complete (hpool.length_le.trans hlen)
    have hmem := hperm.mem_iff.mpr hw'
    rw [List.singleton_append, List.mem_cons] at hmem
    obtain rfl | hmem := hmem
    · refine ⟨granted, ⟨hholder, ?_⟩, htask.trans heq⟩
      rw [htask]
      exact hpool.not_holds h hw'
    · exact absurd ⟨w', hmem, heq⟩ hgone

theorem Transition.protocol (ht : Transition doc c doc') (h : Consistent doc) :
    StepProtocol doc c doc' where
  grantRaises granted hg := by
    obtain ⟨hgeneration, hstamp, -⟩ := ht.grant_spec hg
    exact ⟨hgeneration, hstamp⟩
  otherwiseKept hnone := by
    cases ht with
    | idle same => rw [same]
    | kept _ _ _ _ hgeneration => exact hgeneration
    | vacated _ _ _ _ hgeneration => exact hgeneration
    | granted first granted hpool hqueue _ hholder htask _ _ _ =>
      refine absurd ⟨hholder, ?_⟩ (hnone granted)
      rw [htask]
      exact hpool.not_holds h (hqueue.subperm.subset List.mem_cons_self)
  replaced before hbefore hgone := by
    have hheld : Holds doc before.taskId := ⟨before, hbefore, rfl⟩
    cases ht with
    | idle same => exact absurd (same ▸ hheld) hgone
    | kept _ _ _ hsame _ => exact absurd ((holds_congr hsame _).mpr hheld) hgone
    | vacated _ _ hown _ _ =>
      obtain ⟨hrelease, holder, hholder, htask⟩ := hown
      obtain rfl : before = holder := by simpa using hbefore.symm.trans hholder
      exact .inl ⟨hrelease, htask.symm⟩
    | granted _ _ _ _ hreplaced _ _ _ _ _ => exact hreplaced before hbefore
  grantsLeast granted hg := by
    obtain ⟨-, -, first, hqueue, htask, hsubmitted⟩ := ht.grant_spec hg
    exact ⟨first, hqueue.subperm.subset List.mem_cons_self, htask, hsubmitted,
      hqueue.least first List.mem_cons_self⟩
  leaves hlen w hw hgone := by
    by_cases hrelease : c.isRelease ∧ c.me.taskId = w.taskId
    · exact .inr (.inl hrelease)
    by_cases hended : w.taskId ∈ c.ended
    · exact .inr (.inr (.inl hended))
    cases hstale : isStale c.now w with
    | true =>
      refine .inr (.inr (.inr ?_))
      unfold isStale at hstale
      split at hstale
      · exact absurd hstale Bool.false_ne_true
      · rename_i seen hseen
        have hold := of_decide_eq_true hstale
        exact ⟨seen, hseen, Int.add_lt_of_lt_sub_right hold⟩
    | false =>
      refine .inl (ht.left_queue h hlen hw ?_ hgone)
      by_cases hme : w.taskId = c.me.taskId
      · exact .inr ⟨hme, fun hr => hrelease ⟨hr, hme.symm⟩⟩
      · exact .inl (isLive_iff.mpr ⟨hme, hended, hstale⟩)

theorem Transition.generation_le (ht : Transition doc c doc') :
    generationOf doc ≤ generationOf doc' := by
  cases ht with
  | idle same => rw [same]
  | kept _ _ _ _ hgeneration => exact hgeneration.ge
  | vacated _ _ _ _ hgeneration => exact hgeneration.ge
  | granted _ _ _ _ _ _ _ _ _ hgeneration => omega

end Properties

theorem run_consistent {doc doc' : Option SlotDoc} {calls : List Call} (h : Consistent doc)
    (hrun : Run Step doc calls doc') : Consistent doc' :=
  hrun.invariant (I := Consistent)
    (fun _ _ _ hbefore hstep => (step_transition hstep).consistent hbefore) h

theorem run_generation_le {doc doc' : Option SlotDoc} {calls : List Call}
    (hrun : Run Step doc calls doc') : generationOf doc ≤ generationOf doc' :=
  hrun.invariant (I := fun later => generationOf doc ≤ generationOf later)
    (fun _ _ _ hle hstep => hle.trans (step_transition hstep).generation_le) le_rfl

theorem consistent_none : Consistent none where
  nodup := List.nodup_nil
  apart _ hw := absurd hw List.not_mem_nil
  current h hh := absurd hh (Option.not_mem_none h)

/-- Every document that any interleaving of calls produces from an absent one
keeps the protocol, and so does every further call on it. -/
theorem slot_protocol {calls : List Call} {doc : Option SlotDoc}
    (hrun : Run Step none calls doc) : SlotProtocol doc := by
  have h := run_consistent consistent_none hrun
  refine ⟨?_, h.nodup, ?_, ?_, ?_⟩
  · rintro t u ⟨holder, hholder, rfl⟩ ⟨other, hother, rfl⟩
    rw [Option.mem_def.mp hholder] at hother
    rw [Option.some.inj hother]
  · rintro t hheld ⟨w, hw, rfl⟩
    exact h.apart w hw hheld
  · intro c doc' hstep
    exact (step_transition hstep).protocol h
  · intro c₁ doc₁ h₁ later doc₂ c₂ doc₃ h₂ hstep₁ hg₁ hlater hstep₂ hg₂
    have hdoc₁ := (step_transition hstep₁).consistent h
    have hdoc₂ := run_consistent hdoc₁ hlater
    obtain ⟨-, hstamp₁⟩ := ((step_transition hstep₁).protocol h).grantRaises h₁ hg₁
    obtain ⟨hraise₂, hstamp₂⟩ := ((step_transition hstep₂).protocol hdoc₂).grantRaises h₂ hg₂
    refine ⟨_, _, hstamp₁, hstamp₂, ?_⟩
    have hle := run_generation_le hlater
    omega

/-- Two claimants, the later one queued behind the first. -/
theorem slot_protocol_two_claimants :
    ∃ doc, Run Step none
      [⟨⟨"a", "att-a", 0⟩, 10, .acquire ⟨"t", "o/r", "main"⟩ 0 ∅⟩,
        ⟨⟨"b", "att-b", 5⟩, 20, .acquire ⟨"t", "o/r", "main"⟩ 0 ∅⟩] doc ∧
      Holds doc "a" ∧ Waits doc "b" ∧ SlotProtocol doc := by
  refine ⟨_, .snoc (.one rfl) rfl, ⟨_, rfl, rfl⟩, ⟨_, List.mem_cons_self, rfl⟩,
    slot_protocol (.snoc (.one rfl) rfl)⟩

end SwarmCloud.MergeSlot
