import SwarmCloud.Accounts.HoldLedger

/-! # The hold transactions over whole runs

What each transaction does to the holds, in any order and with the cap, the
state and the lending of an account edited between two of them.
-/

namespace SwarmCloud.Accounts

open Common Lib

namespace Store

/-! ## The effect of each transaction -/

section Effects

variable {st : Store} {acc : String} {a a' : Account} {now : Instant}

/-- The expired holds and some of the live ones are dropped, each record closed. -/
theorem Effect.release (h : st.InStep) (ha : st.account acc = some a) {held : List Hold}
    (closing : Hold → Closing) (hheld : ∀ hold ∈ held, hold ∈ a.holds)
    (hids : a'.ids = ((a.liveHolds now).filter (· ∉ held)).map Hold.assignmentId)
    (hcount : a'.assigned = a'.holds.length) :
    Effect st (((st.update acc a').close acc closing held).closeExpired acc (a.expiredHolds now))
      (fun id => ∃ hold ∈ a.holds, (decide (hold ∉ held) && !hold.isExpired now) = false ∧
        hold.assignmentId = id) none := by
  apply Effect.rewrite h ha (fun hold => decide (hold ∉ held) && !hold.isExpired now) none
  · rw [closeExpired, close_accounts, close_accounts]
    rfl
  · rw [hids, Account.liveHolds, List.filter_filter]
    simp
  · exact hcount
  · simp
  · intro hold hin hdrop
    by_cases hexpired : hold.isExpired now
    · apply lookup_close_of_mem
      exact List.mem_map_of_mem (List.mem_filter.mpr ⟨hin, hexpired⟩)
    · have hmem : hold ∈ held := by simpa [hexpired] using hdrop
      by_cases hagain : hold.assignmentId ∈ (a.expiredHolds now).map Hold.assignmentId
      · exact lookup_close_of_mem hagain
      · rw [closeExpired, lookup_close_of_not_mem hagain]
        exact lookup_close_of_mem (List.mem_map_of_mem hmem)
  · simp
  · intro id hnot _
    rw [closeExpired, lookup_close_of_not_mem, lookup_close_of_not_mem]
    · rfl
    · intro hid
      obtain ⟨hold, hmem, rfl⟩ := List.mem_map.mp hid
      exact hnot hold (hheld hold hmem) (by simp [hmem]) rfl
    · intro hid
      obtain ⟨hold, hmem, rfl⟩ := List.mem_map.mp hid
      obtain ⟨hin, hexpired⟩ := List.mem_filter.mp hmem
      exact hnot hold hin (by simp [hexpired]) rfl

/-- The expired holds are dropped and one is added; `st'` is the store with its record open. -/
theorem Effect.take (h : st.InStep) (ha : st.account acc = some a) {st' : Store} {taken : Hold}
    (hnew : st.log.lookup taken.assignmentId = none)
    (haccounts : st'.accounts = st.accounts)
    (hlogged : ∀ id, id ≠ taken.assignmentId → st'.log.lookup id = st.log.lookup id)
    (hopen : st'.log.lookup taken.assignmentId = some (holdLogEntry taken acc none))
    (hholds : a'.holds = a.liveHolds now ++ [taken]) (hcount : a'.assigned = a'.holds.length) :
    Effect st ((st'.update acc a').closeExpired acc (a.expiredHolds now))
      (fun id => ∃ hold ∈ a.holds, (!hold.isExpired now) = false ∧ hold.assignmentId = id)
      (some (acc, taken.assignmentId)) := by
  have hnot : taken.assignmentId ∉ (a.expiredHolds now).map Hold.assignmentId := by
    intro hid
    apply h.not_held hnew acc
    rw [ids_of_account ha]
    exact (List.filter_sublist.map _).subset hid
  apply Effect.rewrite h ha (fun hold => !hold.isExpired now) (some taken.assignmentId)
  · rw [closeExpired, close_accounts, update, haccounts]
  · rw [Account.ids, hholds]
    simp [Account.liveHolds]
  · exact hcount
  · rintro id ⟨⟩
    exact hnew
  · intro hold hin hdrop
    apply lookup_close_of_mem
    exact List.mem_map_of_mem (List.mem_filter.mpr ⟨hin, by simpa using hdrop⟩)
  · rintro id ⟨⟩
    refine ⟨holdLogEntry taken acc none, ?_, rfl, rfl⟩
    rw [closeExpired, lookup_close_of_not_mem hnot]
    exact hopen
  · intro id helse hne
    rw [closeExpired, lookup_close_of_not_mem]
    · exact hlogged id fun heq => hne (heq ▸ rfl)
    · intro hid
      obtain ⟨hold, hmem, rfl⟩ := List.mem_map.mp hid
      obtain ⟨hin, hexpired⟩ := List.mem_filter.mp hmem
      exact helse hold hin (by simp [hexpired]) rfl

/-- The two halves of the holds of an account that may not be there. -/
def removedHolds (st : Store) (acc : String) (now : Instant) : List Hold × List Hold :=
  ((st.account acc).elim [] (·.liveHolds now), (st.account acc).elim [] (·.expiredHolds now))

theorem mem_removedHolds (st : Store) (acc : String) (now : Instant) (id : String) :
    id ∈ st.ids acc ↔ id ∈ (st.removedHolds acc now).1.map Hold.assignmentId ∨
      id ∈ (st.removedHolds acc now).2.map Hold.assignmentId := by
  rw [removedHolds, ids]
  cases st.account acc with
  | none => simp
  | some a =>
    simp only [Option.elim_some, Account.ids, Account.liveHolds, Account.expiredHolds, List.mem_map,
      List.mem_filter]
    constructor
    · rintro ⟨hold, hin, rfl⟩
      cases hexpired : hold.isExpired now with
      | true => exact .inr ⟨hold, ⟨hin, hexpired⟩, rfl⟩
      | false => exact .inl ⟨hold, ⟨hin, by simp [hexpired]⟩, rfl⟩
    · rintro (⟨hold, ⟨hin, -⟩, rfl⟩ | ⟨hold, ⟨hin, -⟩, rfl⟩)
      · exact ⟨hold, hin, rfl⟩
      · exact ⟨hold, hin, rfl⟩

/-- The log with the holds of a removed account closed. -/
def closeRemoved (st : Store) (acc : String) (now : Instant) : Store :=
  (st.close acc (fun _ => ⟨.accountRemoved, now, none, none⟩) (st.removedHolds acc now).1).closeExpired acc
    (st.removedHolds acc now).2

theorem lookup_closeRemoved_of_mem {id : String} (hid : id ∈ st.ids acc) :
    ∃ record, (st.closeRemoved acc now).log.lookup id = some record ∧ record.ending ≠ none := by
  by_cases hexpired : id ∈ (st.removedHolds acc now).2.map Hold.assignmentId
  · exact lookup_close_of_mem hexpired
  · obtain hlive | hexpired' := (mem_removedHolds st acc now id).mp hid
    · rw [closeRemoved, closeExpired, lookup_close_of_not_mem hexpired]
      exact lookup_close_of_mem hlive
    · exact absurd hexpired' hexpired

theorem lookup_closeRemoved_of_not_mem {id : String} (hid : id ∉ st.ids acc) :
    (st.closeRemoved acc now).log.lookup id = st.log.lookup id := by
  rw [mem_removedHolds st acc now, not_or] at hid
  rw [closeRemoved, closeExpired, lookup_close_of_not_mem hid.2, lookup_close_of_not_mem hid.1]

/-- Every open record of a removed account is one of its holds', so the query closes no other. -/
theorem lookup_remove (h : st.InStep) (id : String) :
    (st.removeAccountAndCloseHolds acc now).1.log.lookup id = (st.closeRemoved acc now).log.lookup id := by
  let covered := ((st.removedHolds acc now).1 ++ (st.removedHolds acc now).2).map Hold.assignmentId
  refine (Dict.lookup_map_items (st.closeRemoved acc now).log (fun id record =>
    if isLeft acc covered id record then
      { record with ending := some .accountRemoved, releasedAt := some now, expiresAt := now + holdLogRetention }
    else record) id).trans ?_
  cases hrecord : (st.closeRemoved acc now).log.lookup id with
  | none => rfl
  | some record =>
    rw [Option.map_some]
    apply congrArg
    apply if_neg
    intro hleft
    simp only [isLeft, covered, List.map_append, List.mem_append, Bool.and_eq_true, decide_eq_true_eq,
      Option.isNone_iff_eq_none, ← mem_removedHolds] at hleft
    obtain ⟨⟨rfl, hopen⟩, hnot⟩ := hleft
    rw [lookup_closeRemoved_of_not_mem hnot] at hrecord
    exact hnot (h.held id record hrecord hopen)

theorem account_remove (st : Store) (acc : String) (now : Instant) (acc' : String) :
    (st.removeAccountAndCloseHolds acc now).1.account acc' =
      if acc' = acc then none else st.account acc' :=
  Dict.lookup_filter_ne st.accounts acc acc'

theorem ids_remove (st : Store) (acc : String) (now : Instant) (acc' : String) :
    (st.removeAccountAndCloseHolds acc now).1.ids acc' = if acc' = acc then [] else st.ids acc' := by
  rw [ids, account_remove]
  split
  · rfl
  · rfl

theorem remove_effect (h : st.InStep) (acc : String) (now : Instant) :
    Effect st (st.removeAccountAndCloseHolds acc now).1 (· ∈ st.ids acc) none where
  mem := by
    intro acc' id
    rw [ids_remove]
    simp only [reduceCtorEq, or_false]
    split
    · rename_i hacc
      simp [hacc]
    · rename_i hacc
      constructor
      · intro hid
        exact ⟨hid, fun hid' => hacc (h.unique hid hid')⟩
      · exact And.left
  nodup := by
    intro acc'
    rw [ids_remove]
    split
    · exact List.nodup_nil
    · exact h.nodup acc'
  counts := by
    intro acc' a' ha'
    rw [account_remove] at ha'
    split at ha'
    · cases ha'
    · exact .inr ⟨a', ha', rfl, rfl⟩
  held := fun id hid => ⟨acc, hid⟩
  fresh := by simp
  log_closed := by
    intro id hid
    rw [lookup_remove h]
    exact lookup_closeRemoved_of_mem hid
  log_opened := by simp
  log_else := by
    intro id hid _
    rw [lookup_remove h, lookup_closeRemoved_of_not_mem hid]

/-- A transaction that adds no hold. -/
def Drops (st st' : Store) : Prop := ∃ closed, Effect st st' closed none

theorem Drops.refl (h : st.InStep) : Drops st st := ⟨_, Effect.refl h⟩

theorem releaseHold_drops (h : st.InStep) (acc : String) (r : Release) (now : Instant) :
    Drops st (st.releaseHold acc r now).1 := by
  rw [releaseHold]
  cases ha : st.account acc with
  | none => exact .refl h
  | some a =>
    dsimp only
    split
    · exact .refl h
    · refine ⟨_, Effect.release h ha _ ?_ rfl rfl⟩
      intro hold hin
      exact List.mem_of_mem_filter (List.mem_of_mem_filter hin)

theorem pruneHolds_drops (h : st.InStep) (acc : String) (now forgetUnreadableAfter : Instant) :
    Drops st (st.pruneHolds acc now forgetUnreadableAfter).1 := by
  rw [pruneHolds]
  cases ha : st.account acc with
  | none => exact .refl h
  | some a =>
    dsimp only
    split
    · exact .refl h
    · refine ⟨_, @Effect.release _ _ _ _ _ h ha [] (fun _ => ⟨.released, now, none, none⟩) (by simp) ?_ rfl⟩
      simp [Account.ids, Account.withHolds]

theorem releaseAttemptHolds_drops (h : st.InStep) (acc taskId attemptId : String) (now : Instant) :
    Drops st (st.releaseAttemptHolds acc taskId attemptId now).1 := by
  rw [releaseAttemptHolds]
  cases ha : st.account acc with
  | none => exact .refl h
  | some a =>
    dsimp only
    split
    · exact .refl h
    · refine ⟨_, Effect.release h ha _ ?_ rfl rfl⟩
      intro hold hin
      exact List.mem_of_mem_filter (List.mem_of_mem_filter hin)

theorem setStateAndMoves_drops (h : st.InStep) {state : AccountState} {reason : String} {st' : Store}
    {moved : Nat} (hset : st.setStateAndMoves acc state reason now = some (st', moved)) : Drops st st' := by
  rw [setStateAndMoves] at hset
  cases ha : st.account acc with
  | none =>
    rw [ha] at hset
    cases hset
  | some a =>
    rw [ha] at hset
    obtain ⟨rfl, -⟩ := Prod.mk.inj (Option.some.inj hset)
    refine ⟨_, @Effect.release _ _ _ _ _ h ha [] (fun _ => ⟨.released, now, none, none⟩) (by simp) ?_ rfl⟩
    simp [Account.ids, Account.withHolds]

theorem renewFirst_ids {test : Hold → Bool} {expiresAt : Instant} {holds holds' : List Hold}
    (hrenew : renewFirst test expiresAt holds = some holds') :
    holds'.map Hold.assignmentId = holds.map Hold.assignmentId := by
  induction holds generalizing holds' with
  | nil => cases hrenew
  | cons hold holds ih =>
    rw [renewFirst] at hrenew
    split at hrenew
    · obtain rfl := Option.some.inj hrenew
      rfl
    · obtain ⟨rest, hrest, rfl⟩ := Option.map_eq_some_iff.mp hrenew
      rw [List.map_cons, List.map_cons, ih hrest]

theorem renewVoiceHold_drops (h : st.InStep) (acc assignmentId voiceSessionId : String) (now ttl : Instant) :
    Drops st (st.renewVoiceHold acc assignmentId voiceSessionId now ttl).1 := by
  rw [renewVoiceHold]
  cases ha : st.account acc with
  | none => exact .refl h
  | some a =>
    dsimp only
    split
    · exact .refl h
    · rename_i holds hrenew
      refine ⟨_, Effect.rewrite h ha (fun _ => true) none rfl ?_ rfl (by simp) (by simp) (by simp) ?_⟩
      · simpa [Account.ids, Account.withHolds] using renewFirst_ids hrenew
      · intro id _ _
        rfl

theorem setAccountPools_drops (h : st.InStep) (acc : String) (pools voiceItPeople : List String)
    (now : Instant) : Drops st (st.setAccountPools acc pools voiceItPeople now).1 := by
  rw [setAccountPools]
  cases ha : st.account acc with
  | none => exact .refl h
  | some a =>
    dsimp only
    split
    · exact .refl h
    · split
      · exact .refl h
      · exact ⟨_, Effect.edit h ha rfl rfl⟩

/-! ## Adding a hold -/

/-- Whether a document may serve who the hold was taken for. -/
def MayServe (clean : String → String) (a : Account) (hold : Hold) : Prop :=
  if hold.pool = poolVoiceIt then
    a.rawInPool poolVoiceIt ∧ clean (hold.person.getD "") ∈ a.voiceItPeople.map clean
  else a.rawMayServe hold.tenantId

/-- The document with so many unexpired holds is within its cap: `max_agents`, and one
while it was never read, if its provider has windows to read. -/
def WithinCap (a : Account) (live : Nat) : Prop :=
  (live : Int) ≤ a.maxAgents ∧ (a.observedAt = none → a.isApiKey = false → live ≤ 1)

/-- Every hold that was not there before was taken on an available document that may serve
it, and the document stays within its cap. -/
def Admits (clean : String → String) (st st' : Store) (now : Instant) : Prop :=
  ∀ acc a', st'.account acc = some a' → ∀ hold ∈ a'.holds, hold.assignmentId ∉ st.ids acc →
    ∃ a, st.account acc = some a ∧ a.state = .available ∧ MayServe clean a hold ∧
      WithinCap a (a'.liveHolds now).length

theorem Drops.admits {st' : Store} (hdrops : Drops st st') (clean : String → String) (now : Instant) :
    Admits clean st st' now := by
  obtain ⟨closed, heffect⟩ := hdrops
  intro acc a' ha' hold hin hnot
  have hid : hold.assignmentId ∈ st'.ids acc := by
    rw [ids_of_account ha']
    exact List.mem_map_of_mem hin
  obtain ⟨hbefore, -⟩ | hopened := (heffect.mem acc _).mp hid
  · exact absurd hbefore hnot
  · cases hopened

theorem withinCap_of_hasRoom {live : List Hold} (hroom : a.rawHasRoom live) {n : Nat}
    (hn : n ≤ live.length + 1) : WithinCap a n := by
  rw [Account.rawHasRoom, Account.cap] at hroom
  split at hroom
  · simp only [Option.any_some, decide_eq_true_eq] at hroom
    constructor
    · split at hroom
      · omega
      · omega
    · intro hunread hwindows
      rw [if_pos ⟨by simp [hunread], hwindows⟩, maxAgentsBeforeReading] at hroom
      omega
  · simp at hroom

/-- The hold that one document took, under the checks of that commit. -/
theorem Effect.admits {st' : Store} {closed : String → Prop} {taken : Hold} {clean : String → String}
    (heffect : Effect st st' closed (some (acc, taken.assignmentId))) (ha : st.account acc = some a)
    (ha' : st'.account acc = some a') (hholds : a'.holds = a.liveHolds now ++ [taken])
    (hstate : a.state = .available) (hserve : MayServe clean a taken)
    (hroom : a.rawHasRoom (a.liveHolds now)) : Admits clean st st' now := by
  intro acc₁ a₁ ha₁ hold hin hnot
  have hid : hold.assignmentId ∈ st'.ids acc₁ := by
    rw [ids_of_account ha₁]
    exact List.mem_map_of_mem hin
  obtain ⟨hbefore, -⟩ | hopened := (heffect.mem acc₁ _).mp hid
  · exact absurd hbefore hnot
  · obtain ⟨rfl, -⟩ := Prod.mk.inj (Option.some.inj hopened)
    obtain rfl := Option.some.inj (ha'.symm.trans ha₁)
    refine ⟨a, ha, hstate, ?_, withinCap_of_hasRoom hroom ?_⟩
    · rw [hholds, List.mem_append, List.mem_singleton] at hin
      obtain hlive | rfl := hin
      · apply absurd _ hnot
        rw [ids_of_account ha]
        exact List.mem_map_of_mem (List.mem_of_mem_filter hlive)
      · exact hserve
    · rw [Account.liveHolds, hholds]
      refine (List.length_filter_le _ _).trans ?_
      simp

theorem account_written (st : Store) (acc : String) (a : Account) (expired : List Hold) :
    ((st.update acc a).closeExpired acc expired).account acc = some a := by
  rw [account, closeExpired, close_accounts]
  exact (account_update st acc a acc).trans (if_pos rfl)

/-- A transaction adds no hold, or adds the one with the fresh id under the checks. -/
def Moves (clean : String → String) (st st' : Store) (now : Instant) (newId : Option String) : Prop :=
  Drops st st' ∨ ∃ closed acc id, newId = some id ∧ Effect st st' closed (some (acc, id)) ∧
    Admits clean st st' now

theorem acquireHold_moves (h : st.InStep) (clean : String → String) (acc : String) (ask : Ask)
    (now : Instant) {newId : String} (hnew : st.log.lookup newId = none) :
    Moves clean st (st.acquireHold clean acc ask now newId).1 now (some newId) := by
  rw [acquireHold]
  cases ha : st.account acc with
  | none => exact .inl (.refl h)
  | some a =>
    dsimp only
    split
    · exact .inl (.refl h)
    · rename_i hchecked
      simp only [Bool.or_eq_true, Bool.not_eq_true', not_or, Bool.not_eq_false] at hchecked
      obtain ⟨hadmits, hroom⟩ := hchecked
      have hopened : ∀ id, ((st.setLog newId (holdLogEntry (ask.hold newId now) acc none))).log.lookup id =
          if id = newId then some (holdLogEntry (ask.hold newId now) acc none) else st.log.lookup id :=
        fun id => Dict.lookup_set st.log newId id _
      have heffect := @Effect.take st acc a
        { a.withHolds (a.liveHolds now ++ [ask.hold newId now]) with lastAssignedAt := some now } now h ha
        (st.setLog newId (holdLogEntry (ask.hold newId now) acc none)) (ask.hold newId now) hnew rfl
        (fun id hne => (hopened id).trans (if_neg hne)) ((hopened newId).trans (if_pos rfl)) rfl rfl
      refine .inr ⟨_, acc, newId, rfl, heffect, ?_⟩
      have hchecks : a.state = .available ∧ MayServe clean a (ask.hold newId now) := by
        rw [Ask.admits] at hadmits
        rw [MayServe]
        split at hadmits
        · rename_i hvoice
          simp only [Account.rawVoiceAssignable, Bool.and_eq_true, decide_eq_true_eq] at hadmits
          rw [if_pos (by simp [Ask.hold, hvoice])]
          exact ⟨hadmits.1.1.1, hadmits.1.1.2, hadmits.1.2⟩
        · rename_i hvoice
          simp only [Account.rawAssignable, Bool.and_eq_true, decide_eq_true_eq] at hadmits
          rw [if_neg (by simp [Ask.hold, hvoice, poolWorkspace, poolVoiceIt])]
          exact hadmits.1
      exact heffect.admits ha (account_written (st.setLog newId _) acc _ _) rfl hchecks.1 hchecks.2 hroom

theorem close_update (st : Store) (acc acc' : String) (a : Account) (closing : Hold → Closing)
    (holds : List Hold) :
    (st.update acc a).close acc' closing holds = (st.close acc' closing holds).update acc a := by
  induction holds generalizing st with
  | nil => rfl
  | cons hold holds ih => exact ih (st.setLog hold.assignmentId _)

/-- The left account after a swap: the one hold is gone, and nothing else that is live. -/
theorem swap_source_drops (h : st.InStep) (ha : st.account acc = some a) {held : Hold} {left : Account}
    (hheld : held ∈ a.liveHolds now) (closing : Hold → Closing)
    (hholds : left.holds = (a.liveHolds now).filter (·.assignmentId ≠ held.assignmentId))
    (hcount : left.assigned = left.holds.length) :
    Drops st (((st.update acc left).close acc closing [held]).closeExpired acc (a.expiredHolds now)) := by
  refine ⟨_, Effect.release h ha closing ?_ ?_ hcount⟩
  · intro hold hin
    rw [List.mem_singleton] at hin
    exact hin ▸ List.mem_of_mem_filter hheld
  · have hnodup : (a.holds.map Hold.assignmentId).Nodup := by
      have := h.nodup acc
      rwa [ids_of_account ha] at this
    have hsame : ∀ hold ∈ a.liveHolds now,
        decide (hold.assignmentId ≠ held.assignmentId) = decide (hold ∉ [held]) := by
      intro hold hin
      rw [decide_eq_decide, List.mem_singleton, not_iff_not]
      constructor
      · exact List.inj_on_of_nodup_map hnodup (List.mem_of_mem_filter hin) (List.mem_of_mem_filter hheld)
      · exact congrArg Hold.assignmentId
    rw [Account.ids, hholds, List.filter_congr hsame]

/-- A swap is a release on the one account and then a taking on the other. The new record is
written before the expired holds of the first are closed, which none of them notices. -/
theorem swap_effect (h : st.InStep) {fromAccount toAccount : String} (hdistinct : fromAccount ≠ toAccount)
    {source target left target' : Account} (hsource : st.account fromAccount = some source)
    (htarget : st.account toAccount = some target) {held taken : Hold} (hheld : held ∈ source.liveHolds now)
    (closing : Hold → Closing)
    (hleft : left.holds = (source.liveHolds now).filter (·.assignmentId ≠ held.assignmentId))
    (hleftCount : left.assigned = left.holds.length)
    (htaken : target'.holds = target.liveHolds now ++ [taken])
    (htakenCount : target'.assigned = target'.holds.length)
    (hnew : st.log.lookup taken.assignmentId = none) :
    ∃ closed, Effect st
      ((((((st.update fromAccount left).update toAccount target').close fromAccount closing [held]).setLog
        taken.assignmentId (holdLogEntry taken toAccount none)).closeExpired fromAccount
          (source.expiredHolds now)).closeExpired toAccount (target.expiredHolds now))
      closed (some (toAccount, taken.assignmentId)) := by
  obtain ⟨closed, hdrop⟩ := swap_source_drops h hsource hheld closing hleft hleftCount
  let moved := (st.update fromAccount left).close fromAccount closing [held]
  let released := moved.closeExpired fromAccount (source.expiredHolds now)
  let opened := (moved.setLog taken.assignmentId (holdLogEntry taken toAccount none)).closeExpired fromAccount
    (source.expiredHolds now)
  have hreleased : released.InStep := hdrop.inStep h
  have hnone : released.log.lookup taken.assignmentId = none := by
    rw [← hnew]
    apply hdrop.log_else
    · intro hclosed
      obtain ⟨acc, hin⟩ := hdrop.held _ hclosed
      exact h.not_held hnew acc hin
    · intro acc hopened
      cases hopened
  have hnot : taken.assignmentId ∉ (source.expiredHolds now).map Hold.assignmentId := by
    intro hid
    apply h.not_held hnew fromAccount
    rw [ids_of_account hsource]
    exact (List.filter_sublist.map _).subset hid
  have htarget' : released.account toAccount = some target := by
    rw [account, show released.accounts = (st.update fromAccount left).accounts from
      close_accounts.trans close_accounts]
    exact (account_update st fromAccount left toAccount).trans ((if_neg hdistinct.symm).trans htarget)
  have hset : ∀ id, (moved.setLog taken.assignmentId (holdLogEntry taken toAccount none)).log.lookup id =
      if id = taken.assignmentId then some (holdLogEntry taken toAccount none) else moved.log.lookup id :=
    fun id => Dict.lookup_set moved.log taken.assignmentId id _
  have hsame : ∀ id, id ≠ taken.assignmentId → opened.log.lookup id = released.log.lookup id := by
    intro id hne
    refine (lookup_close id).trans ?_
    rw [hset, if_neg hne]
    exact (lookup_close id).symm
  have hopen : opened.log.lookup taken.assignmentId = some (holdLogEntry taken toAccount none) :=
    (lookup_close_of_not_mem hnot).trans ((hset _).trans (if_pos rfl))
  have haccounts : opened.accounts = released.accounts := by
    rw [show opened.accounts = moved.accounts from close_accounts,
      show released.accounts = moved.accounts from close_accounts]
  have hwritten : ((((st.update fromAccount left).update toAccount target').close fromAccount closing
      [held]).setLog taken.assignmentId (holdLogEntry taken toAccount none)).closeExpired fromAccount
        (source.expiredHolds now) = opened.update toAccount target' :=
    close_update (moved.setLog taken.assignmentId (holdLogEntry taken toAccount none)) toAccount fromAccount
      target' _ _
  have htake := Effect.take hreleased htarget' hnone haccounts hsame hopen htaken htakenCount
  rw [hwritten]
  refine ⟨_, hdrop.trans htake ?_⟩
  rintro acc id ⟨⟩
  exact hnew

theorem swapHold_moves (h : st.InStep) (clean : String → String) (fromAccount toAccount : String) (s : Swap)
    (now : Instant) {newId : String} (hnew : st.log.lookup newId = none) :
    Moves clean st (st.swapHold fromAccount toAccount s now newId).1 now (some newId) := by
  rw [swapHold]
  split
  · exact .inl (.refl h)
  · rename_i hdistinct
    cases hsource : st.account fromAccount with
    | none => exact .inl (.refl h)
    | some source =>
      dsimp only
      cases hfind : (source.liveHolds now).find? s.names with
      | none => exact .inl (.refl h)
      | some held =>
        cases htarget : st.account toAccount with
        | none => exact .inl (.refl h)
        | some target =>
          dsimp only
          split
          · exact .inl (.refl h)
          · rename_i hchecked
            simp only [Bool.or_eq_true, Bool.not_eq_true', not_or, Bool.not_eq_false] at hchecked
            obtain ⟨hassignable, hroom⟩ := hchecked
            simp only [Account.rawAssignable, Bool.and_eq_true, decide_eq_true_eq] at hassignable
            let taken := s.taken fromAccount newId now
            let left := { source.withHolds ((source.liveHolds now).filter
              (·.assignmentId ≠ held.assignmentId)) with
              unreadableBy := if s.reason = swapUnusable then source.unreadableBy.set s.tenantId now
                else source.unreadableBy }
            let target' := { target.withHolds (target.liveHolds now ++ [taken]) with
              lastAssignedAt := some now }
            obtain ⟨closed, heffect⟩ := @swap_effect st now h fromAccount toAccount hdistinct source target
              left target' hsource htarget held taken (List.mem_of_find?_eq_some hfind)
              (fun _ => ⟨.swapped, now, some toAccount, some s.reason⟩) rfl rfl rfl rfl hnew
            refine .inr ⟨closed, toAccount, newId, rfl, heffect, ?_⟩
            apply @Effect.admits st toAccount target target' now _ closed taken clean heffect htarget _ _
              hassignable.1.1 _ hroom
            · rw [account, closeExpired, close_accounts, closeExpired, close_accounts, setLog, close_accounts]
              exact (account_update (st.update fromAccount left) toAccount target' toAccount).trans (if_pos rfl)
            · rfl
            · rw [MayServe, if_neg (show taken.pool ≠ poolVoiceIt from (by decide : poolWorkspace ≠ poolVoiceIt))]
              exact hassignable.1.2

end Effects

/-! ## Runs -/

/-- A committed transaction, or an edit of the cap, the state and the lending of an account. -/
inductive Op
  | acquire (accountId : String) (ask : Ask) (now : Instant) (newId : String)
  | release (accountId : String) (r : Release) (now : Instant)
  | releaseAttempt (accountId taskId attemptId : String) (now : Instant)
  | prune (accountId : String) (now forgetUnreadableAfter : Instant)
  | renew (accountId assignmentId voiceSessionId : String) (now ttl : Instant)
  | swap (fromAccount toAccount : String) (s : Swap) (now : Instant) (newId : String)
  | setState (accountId : String) (state : AccountState) (reason : String) (now : Instant)
  | setPools (accountId : String) (pools voiceItPeople : List String) (now : Instant)
  | remove (accountId : String) (now : Instant)
  | edit (accountId : String) (maxAgents : Int) (state : AccountState) (lendTo : List Raw)

/-- The assignment id the transaction made up. -/
def Op.newId : Op → Option String
  | .acquire _ _ _ newId => some newId
  | .swap _ _ _ _ newId => some newId
  | _ => none

/-- The instant of a transaction that may add a hold. -/
def Op.now : Op → Instant
  | .acquire _ _ now _ => now
  | .swap _ _ _ now _ => now
  | _ => 0

def step (clean : String → String) (st : Store) : Op → Store
  | .acquire accountId ask now newId => (st.acquireHold clean accountId ask now newId).1
  | .release accountId r now => (st.releaseHold accountId r now).1
  | .releaseAttempt accountId taskId attemptId now => (st.releaseAttemptHolds accountId taskId attemptId now).1
  | .prune accountId now forgetUnreadableAfter => (st.pruneHolds accountId now forgetUnreadableAfter).1
  | .renew accountId assignmentId voiceSessionId now ttl =>
    (st.renewVoiceHold accountId assignmentId voiceSessionId now ttl).1
  | .swap fromAccount toAccount s now newId => (st.swapHold fromAccount toAccount s now newId).1
  | .setState accountId state reason now => ((st.setStateAndMoves accountId state reason now).map Prod.fst).getD st
  | .setPools accountId pools voiceItPeople now => (st.setAccountPools accountId pools voiceItPeople now).1
  | .remove accountId now => (st.removeAccountAndCloseHolds accountId now).1
  | .edit accountId maxAgents state lendTo =>
    match st.account accountId with
    | none => st
    | some a => st.update accountId { a with maxAgents := maxAgents, state := state, lendTo := lendTo }

def run (clean : String → String) (st : Store) (ops : List Op) : Store := ops.foldl (step clean) st

section Runs

variable {clean : String → String} {st : Store} {op : Op}

theorem step_moves (h : st.InStep) (hnew : ∀ id, op.newId = some id → st.log.lookup id = none) :
    Moves clean st (step clean st op) op.now op.newId := by
  cases op with
  | acquire accountId ask now newId => exact acquireHold_moves h clean accountId ask now (hnew newId rfl)
  | release accountId r now => exact .inl (releaseHold_drops h accountId r now)
  | releaseAttempt accountId taskId attemptId now =>
    exact .inl (releaseAttemptHolds_drops h accountId taskId attemptId now)
  | prune accountId now forgetUnreadableAfter => exact .inl (pruneHolds_drops h accountId now forgetUnreadableAfter)
  | renew accountId assignmentId voiceSessionId now ttl =>
    exact .inl (renewVoiceHold_drops h accountId assignmentId voiceSessionId now ttl)
  | swap fromAccount toAccount s now newId =>
    exact swapHold_moves h clean fromAccount toAccount s now (hnew newId rfl)
  | setState accountId state reason now =>
    rw [step]
    cases hset : st.setStateAndMoves accountId state reason now with
    | none => exact .inl (.refl h)
    | some result => exact .inl (setStateAndMoves_drops h hset)
  | setPools accountId pools voiceItPeople now =>
    exact .inl (setAccountPools_drops h accountId pools voiceItPeople now)
  | remove accountId now => exact .inl ⟨_, remove_effect h accountId now⟩
  | edit accountId maxAgents state lendTo =>
    rw [step]
    cases ha : st.account accountId with
    | none => exact .inl (.refl h)
    | some a => exact .inl ⟨_, Effect.edit h ha rfl rfl⟩

theorem Moves.effect {st' : Store} {now : Instant} {newId : Option String}
    (hmoves : Moves clean st st' now newId) :
    ∃ closed opened, Effect st st' closed opened ∧ ∀ acc id, opened = some (acc, id) → newId = some id := by
  obtain ⟨closed, heffect⟩ | ⟨closed, acc, id, hid, heffect, -⟩ := hmoves
  · exact ⟨closed, none, heffect, by simp⟩
  · refine ⟨closed, _, heffect, ?_⟩
    rintro acc' id' ⟨⟩
    exact hid

theorem Moves.admits {st' : Store} {now : Instant} {newId : Option String}
    (hmoves : Moves clean st st' now newId) : Admits clean st st' now := by
  obtain hdrops | ⟨closed, acc, id, -, -, hadmits⟩ := hmoves
  · exact hdrops.admits clean now
  · exact hadmits

/-- The store agrees with itself, and every record is of an id that was made up. -/
structure Kept (st : Store) (made : List String) : Prop where
  inStep : st.InStep
  logged : ∀ id record, st.log.lookup id = some record → id ∈ made

theorem Kept.fresh {made : List String} (h : st.Kept made) {id : String} (hid : id ∉ made) :
    st.log.lookup id = none := by
  cases hrecord : st.log.lookup id with
  | none => rfl
  | some record => exact absurd (h.logged id record hrecord) hid

theorem Kept.step {made : List String} (h : st.Kept made) (hnew : ∀ id, op.newId = some id → id ∉ made) :
    (step clean st op).Kept (made ++ op.newId.toList) := by
  have hmoves : Moves clean st (Store.step clean st op) op.now op.newId :=
    step_moves h.inStep fun id hid => h.fresh (hnew id hid)
  obtain ⟨closed, opened, heffect, hopened⟩ := hmoves.effect
  refine ⟨heffect.inStep h.inStep, ?_⟩
  intro id record hrecord
  rw [List.mem_append, Option.mem_toList]
  by_cases hheld : ∃ acc, opened = some (acc, id)
  · obtain ⟨acc, hacc⟩ := hheld
    exact .inr (hopened acc id hacc)
  · left
    by_cases hclosed : closed id
    · obtain ⟨acc, hin⟩ := heffect.held id hclosed
      obtain ⟨before, hbefore, -⟩ := h.inStep.logged acc id hin
      exact h.logged id before hbefore
    · rw [heffect.log_else id hclosed fun acc hacc => hheld ⟨acc, hacc⟩] at hrecord
      exact h.logged id record hrecord

/-- Any number of accounts with no holds, and an empty log. -/
structure Unused (st : Store) : Prop where
  accounts : ∀ acc a, st.account acc = some a → a.holds = [] ∧ a.assigned = 0
  log : st.log = []

theorem Unused.ids_eq (h : st.Unused) (acc : String) : st.ids acc = [] := by
  rw [ids]
  cases ha : st.account acc with
  | none => rfl
  | some a => rw [Option.elim_some, Account.ids, (h.accounts acc a ha).1, List.map_nil]

theorem Unused.kept (h : st.Unused) : st.Kept [] where
  inStep :=
    { nodup := fun acc => by simp [h.ids_eq]
      counts := fun acc a ha => by simp [h.accounts acc a ha]
      logged := fun acc id hid => by simp [h.ids_eq] at hid
      held := fun id record hrecord => by simp [h.log] at hrecord }
  logged := fun id record hrecord => by simp [h.log] at hrecord

theorem Kept.run {ops : List Op} {made : List String} (h : st.Kept made)
    (hids : (made ++ ops.filterMap Op.newId).Nodup) :
    (run clean st ops).Kept (made ++ ops.filterMap Op.newId) := by
  induction ops generalizing st made with
  | nil => simpa [Store.run] using h
  | cons op ops ih =>
    have hsplit : made ++ (op :: ops).filterMap Op.newId =
        made ++ op.newId.toList ++ ops.filterMap Op.newId := by
      cases hnew : op.newId with
      | none => simp [hnew]
      | some id => simp [hnew]
    rw [hsplit] at hids ⊢
    apply ih (h.step _) hids
    intro id hid hmade
    rw [hid, Option.toList_some, List.append_assoc] at hids
    exact (List.nodup_append.mp hids).2.2 id hmade id (by simp) rfl

/-- What holds of every store: each assignment is on one account, the counts are the holds',
and the open records are those of the holds. -/
structure Accounted (st : Store) : Prop where
  unique : ∀ acc acc' id, id ∈ st.ids acc → id ∈ st.ids acc' → acc = acc'
  nodup : ∀ acc, (st.ids acc).Nodup
  counts : ∀ acc a, st.account acc = some a → a.assigned = a.holds.length
  open_iff : ∀ id, (∃ record, st.log.lookup id = some record ∧ record.ending = none) ↔ ∃ acc, id ∈ st.ids acc

theorem InStep.accounted (h : st.InStep) : st.Accounted where
  unique := fun _ _ _ hin hin' => h.unique hin hin'
  nodup := h.nodup
  counts := h.counts
  open_iff := by
    intro id
    constructor
    · rintro ⟨record, hrecord, hopen⟩
      exact ⟨record.accountId, h.held id record hrecord hopen⟩
    · rintro ⟨acc, hin⟩
      obtain ⟨record, hrecord, hopen, -⟩ := h.logged acc id hin
      exact ⟨record, hrecord, hopen⟩

/-- A swap that hands out no assignment writes nothing. -/
theorem swapHold_refused {fromAccount toAccount : String} {s : Swap} {now : Instant} {newId : String}
    (hrefused : ∀ result, (st.swapHold fromAccount toAccount s now newId).2 ≠ .ok (some result)) :
    (st.swapHold fromAccount toAccount s now newId).1 = st := by
  revert hrefused
  rw [swapHold]
  split
  · exact fun _ => rfl
  · cases st.account fromAccount with
    | none => exact fun _ => rfl
    | some source =>
      dsimp only
      cases (source.liveHolds now).find? s.names with
      | none => exact fun _ => rfl
      | some held =>
        cases st.account toAccount with
        | none => exact fun _ => rfl
        | some target =>
          dsimp only
          split
          · exact fun _ => rfl
          · exact fun hrefused => absurd rfl (hrefused _)

/-- Draining marks every hold that stays, and any other state clears the marks. -/
theorem setStateAndMoves_marks {acc : String} {state : AccountState} {reason : String} {now : Instant}
    {st' : Store} {moved : Nat} (hset : st.setStateAndMoves acc state reason now = some (st', moved)) :
    ∃ a', st'.account acc = some a' ∧ a'.state = state ∧
      ∀ hold ∈ a'.holds, hold.move = some swapDrain ↔ state = .draining := by
  rw [setStateAndMoves] at hset
  cases ha : st.account acc with
  | none =>
    rw [ha] at hset
    cases hset
  | some a =>
    rw [ha] at hset
    obtain ⟨rfl, -⟩ := Prod.mk.inj (Option.some.inj hset)
    refine ⟨_, account_written st acc _ _, rfl, ?_⟩
    intro hold hin
    obtain ⟨before, -, rfl⟩ := List.mem_map.mp hin
    by_cases hdraining : state = .draining
    · simp [hdraining]
    · by_cases hmarked : before.move = some swapDrain
      · simp [hdraining, hmarked]
      · simp [hdraining, hmarked]

/-- Over every run from accounts with no holds, at any instants and with distinct fresh ids:
the holds, the counts and the records agree before and after each step; no step writes a
closed record again; a hold is added only on an available document that may serve it and
stays within its cap; a refused swap writes nothing; and the drain marks follow the state. -/
theorem holds_accounted (clean : String → String) {st₀ : Store} (hunused : st₀.Unused) (ops : List Op) (op : Op)
    (hids : ((ops ++ [op]).filterMap Op.newId).Nodup) :
    (run clean st₀ ops).Accounted ∧ (step clean (run clean st₀ ops) op).Accounted ∧
    (∀ id record, (run clean st₀ ops).log.lookup id = some record → record.ending ≠ none →
      (step clean (run clean st₀ ops) op).log.lookup id = some record) ∧
    Admits clean (run clean st₀ ops) (step clean (run clean st₀ ops) op) op.now ∧
    (∀ fromAccount toAccount s now newId, op = .swap fromAccount toAccount s now newId →
      (∀ result, ((run clean st₀ ops).swapHold fromAccount toAccount s now newId).2 ≠ .ok (some result)) →
      step clean (run clean st₀ ops) op = run clean st₀ ops) ∧
    (∀ accountId state reason now, op = .setState accountId state reason now →
      (run clean st₀ ops).account accountId ≠ none →
      ∃ a', (step clean (run clean st₀ ops) op).account accountId = some a' ∧ a'.state = state ∧
        ∀ hold ∈ a'.holds, hold.move = some swapDrain ↔ state = .draining) := by
  rw [List.filterMap_append] at hids
  have hbefore : (run clean st₀ ops).Kept (ops.filterMap Op.newId) := by
    have hrun := @Kept.run clean st₀ ops [] hunused.kept
    rw [List.nil_append] at hrun
    exact hrun (List.nodup_append.mp hids).1
  have hnew : ∀ id, op.newId = some id → id ∉ ops.filterMap Op.newId := by
    intro id hid hmade
    exact (List.nodup_append.mp hids).2.2 id hmade id (by simp [hid]) rfl
  have hmoves : Moves clean (run clean st₀ ops) (step clean (run clean st₀ ops) op) op.now op.newId :=
    step_moves hbefore.inStep fun id hid => hbefore.fresh (hnew id hid)
  obtain ⟨closed, opened, heffect, -⟩ := hmoves.effect
  refine ⟨hbefore.inStep.accounted, (heffect.inStep hbefore.inStep).accounted, ?_, hmoves.admits, ?_, ?_⟩
  · intro id record hrecord hended
    exact heffect.closed_kept hbefore.inStep hrecord hended
  · rintro fromAccount toAccount s now newId rfl hrefused
    exact swapHold_refused hrefused
  · rintro accountId state reason now rfl hexists
    obtain ⟨a, ha⟩ := Option.ne_none_iff_exists'.mp hexists
    cases hset : (run clean st₀ ops).setStateAndMoves accountId state reason now with
    | none => simp [setStateAndMoves, ha] at hset
    | some result =>
      rw [step, hset]
      exact setStateAndMoves_marks hset

def sampleAsk : Ask := ⟨"t", 60, none, none, none, none⟩

def sampleOps : List Op := [.acquire "k" sampleAsk 0 "first", .acquire "k" sampleAsk 1 "second"]

/-- An account of a key without usage windows, which nothing reads. -/
def apiKeyStore : Store :=
  ⟨[("k", { accountId := .text "k", ownerTenant := .text "t", label := .text "key",
            provider := .text Account.openaiApiProvider })], []⟩

theorem apiKeyStore_unused : apiKeyStore.Unused where
  accounts := by
    intro acc a ha
    rw [account, apiKeyStore, List.lookup_cons] at ha
    split at ha
    · obtain rfl := Option.some.inj ha
      exact ⟨rfl, rfl⟩
    · cases ha
  log := rfl

theorem holds_accounted_on_one_key :
    (step id (run id apiKeyStore [.acquire "k" sampleAsk 0 "first"]) (.acquire "k" sampleAsk 1 "second")).Accounted :=
  (holds_accounted id apiKeyStore_unused [.acquire "k" sampleAsk 0 "first"] (.acquire "k" sampleAsk 1 "second")
    (by decide)).2.1

/-- A key that was never read takes a second hold. -/
theorem never_read_key_takes_two :
    apiKeyStore.Unused ∧ (sampleOps.filterMap Op.newId).Nodup ∧
    (run id apiKeyStore (sampleOps.take 1)).ids "k" = ["first"] ∧
    (run id apiKeyStore sampleOps).ids "k" = ["first", "second"] ∧
    ∃ a', (run id apiKeyStore sampleOps).account "k" = some a' ∧ a'.observedAt = none ∧
      (a'.liveHolds 1).length = 2 := by
  refine ⟨apiKeyStore_unused, by decide, by decide, by decide, ?_⟩
  exact ⟨_, rfl, rfl, by decide⟩

end Runs

end Store

end SwarmCloud.Accounts
