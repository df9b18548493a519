import SwarmCloud.Accounts.HoldRuns

/-! # Re-authentication marks and an operator's decisions

`mark_reauth_required` and `clear_reauth_required` of `accountstore.py` each
read the account and update it later, outside any transaction, while an operator's
`set_state_and_moves` commits at one instant. A world keeps the sweeps between
their read and their write, and the decisions that committed.
-/

namespace SwarmCloud.Accounts

open Common Lib

inductive Sweep
  | mark (reason : String)
  | clear

/-- A sweep that has read the account: what it saw, and how many decisions had committed. -/
structure Pending where
  sweep : Sweep
  seen : Account
  decided : Nat

/-- The state that recovery gives back. -/
def Account.restored (a : Account) : AccountState := a.stateBeforeReauth.getD .available

namespace Sweep

/-- The fields that `mark_reauth_required` and `clear_reauth_required` update, if they write. -/
def written (sweep : Sweep) (seen a : Account) : Option Account :=
  match sweep with
  | .mark reason =>
    if seen.state = .reauthRequired then none
    else some { a with
      state := .reauthRequired, reason := .text reason, stateBeforeReauth := some seen.state }
  | .clear =>
    if seen.state = .reauthRequired then
      some { a with state := seen.restored, reason := .text "", stateBeforeReauth := none }
    else none

/-- The state that a write remembers or gives back, by what the sweep saw. -/
def bringsBack (sweep : Sweep) (seen : Account) : Option AccountState :=
  match sweep with
  | .mark _ => if seen.state = .reauthRequired then none else some seen.state
  | .clear => if seen.state = .reauthRequired then some seen.restored else none

end Sweep

structure World where
  store : Store
  readings : List Pending
  decisions : List AccountState

inductive Action
  | decide (state : AccountState) (reason : String) (now : Instant)
  | read (sweep : Sweep)
  | write (reading : Pending)

/-- One step on one account. The update of a sweep goes to the document as it now is. -/
inductive World.Step (acc : String) : World → Action → World → Prop
  | decide {w : World} {st' : Store} {moved : Nat} {state : AccountState} {reason : String} {now : Instant}
      (hset : w.store.setStateAndMoves acc state reason now = some (st', moved)) :
      Step acc w (.decide state reason now) ⟨st', w.readings, w.decisions ++ [state]⟩
  | read {w : World} {a : Account} (sweep : Sweep) (ha : w.store.account acc = some a) :
      Step acc w (.read sweep) ⟨w.store, w.readings ++ [⟨sweep, a, w.decisions.length⟩], w.decisions⟩
  | write {w : World} {before after : List Pending} {reading : Pending} {a a' : Account}
      (hreading : w.readings = before ++ reading :: after) (ha : w.store.account acc = some a)
      (hwritten : reading.sweep.written reading.seen a = some a') :
      Step acc w (.write reading) ⟨w.store.update acc a', before ++ after, w.decisions⟩
  | leave {w : World} {before after : List Pending} {reading : Pending} {a : Account}
      (hreading : w.readings = before ++ reading :: after) (ha : w.store.account acc = some a)
      (hunwritten : reading.sweep.written reading.seen a = none) :
      Step acc w (.write reading) ⟨w.store, before ++ after, w.decisions⟩

/-- Whether a decision takes the account out of service. -/
def AccountState.withdrawn : AccountState → Bool
  | .paused => true
  | .draining => true
  | .available => false
  | .reauthRequired => false

/-- The last decision that committed took the account out of service. -/
def World.Withdrawn (w : World) : Prop := ∃ state, w.decisions.getLast? = some state ∧ state.withdrawn

/-- An account in service was put there by the last decision, if there was one. -/
def World.Honoured (acc : String) (w : World) : Prop :=
  ∀ a, w.store.account acc = some a → a.state = .available →
    ∀ state, w.decisions.getLast? = some state → state = .available ∨ state = .reauthRequired

/-- A write is timely unless the account was taken out of service since the sweep's read, and
the state it remembers or gives back is neither a pause nor a drain. -/
def World.Timely (w : World) : Action → Prop
  | .write reading => w.Withdrawn → reading.decided < w.decisions.length →
      ∀ state, reading.sweep.bringsBack reading.seen = some state → state.withdrawn
  | _ => True

/-- Recovery from this document gives back a pause or a drain. -/
def Account.Withheld (a : Account) : Prop :=
  a.state.withdrawn ∨ a.state = .reauthRequired ∧ a.restored.withdrawn

/-- Under a withdrawal the document is withheld, and so is what was read since. -/
structure World.Guarded (acc : String) (w : World) : Prop where
  dated : ∀ reading ∈ w.readings, reading.decided ≤ w.decisions.length
  document : w.Withdrawn → ∀ a, w.store.account acc = some a → a.Withheld
  readings : w.Withdrawn → ∀ reading ∈ w.readings, w.decisions.length ≤ reading.decided → reading.seen.Withheld

section Steps

variable {acc : String} {w w' : World} {action : Action}

theorem Account.Withheld.not_available {a : Account} (h : a.Withheld) : a.state ≠ .available := by
  intro havailable
  rw [Account.Withheld, havailable] at h
  simp [AccountState.withdrawn] at h

theorem Account.Withheld.bringsBack {a : Account} (h : a.Withheld) {sweep : Sweep} {state : AccountState}
    (hstate : sweep.bringsBack a = some state) : state.withdrawn := by
  cases sweep with
  | mark reason =>
    rw [Sweep.bringsBack] at hstate
    split at hstate
    · cases hstate
    · rename_i hmarked
      obtain rfl := Option.some.inj hstate
      obtain hstate | ⟨hreauth, -⟩ := h
      · exact hstate
      · exact absurd hreauth hmarked
  | clear =>
    rw [Sweep.bringsBack] at hstate
    split at hstate
    · rename_i hmarked
      obtain rfl := Option.some.inj hstate
      obtain hstate | ⟨-, hrestored⟩ := h
      · rw [hmarked] at hstate
        simp [AccountState.withdrawn] at hstate
      · exact hrestored
    · cases hstate

/-- What a sweep writes is withheld just when it brings back a pause or a drain. -/
theorem withheld_written {sweep : Sweep} {seen a a' : Account} (hwritten : sweep.written seen a = some a') :
    ∃ state, sweep.bringsBack seen = some state ∧ (a'.Withheld ↔ state.withdrawn) ∧
      (a'.state = .available ∨ a'.state = .reauthRequired ∧ a'.restored = .available ∨ a'.Withheld) := by
  cases sweep with
  | mark reason =>
    rw [Sweep.written] at hwritten
    split at hwritten
    · cases hwritten
    · rename_i hmarked
      obtain rfl := Option.some.inj hwritten
      refine ⟨seen.state, if_neg hmarked, ?_, ?_⟩
      · simp [Account.Withheld, AccountState.withdrawn, Account.restored]
      · cases hstate : seen.state with
        | reauthRequired => exact absurd hstate hmarked
        | available => simp [Account.restored]
        | paused => simp [Account.Withheld, AccountState.withdrawn, Account.restored]
        | draining => simp [Account.Withheld, AccountState.withdrawn, Account.restored]
  | clear =>
    rw [Sweep.written] at hwritten
    split at hwritten
    · rename_i hmarked
      obtain rfl := Option.some.inj hwritten
      refine ⟨seen.restored, if_pos hmarked, ?_, ?_⟩
      · simp [Account.Withheld, AccountState.withdrawn, Account.restored]
      · cases hstate : seen.restored with
        | reauthRequired => simp [Account.restored]
        | available => simp
        | paused => simp [Account.Withheld, AccountState.withdrawn]
        | draining => simp [Account.Withheld, AccountState.withdrawn]
    · cases hwritten

theorem withdrawn_iff {state : AccountState} : state.withdrawn = true ↔ state ≠ .available ∧ state ≠ .reauthRequired := by
  cases state with
  | available => simp [AccountState.withdrawn]
  | paused => simp [AccountState.withdrawn]
  | draining => simp [AccountState.withdrawn]
  | reauthRequired => simp [AccountState.withdrawn]

theorem account_update_self (st : Store) (acc : String) (a : Account) : (st.update acc a).account acc = some a :=
  (Store.account_update st acc a acc).trans (if_pos rfl)

/-- A decision is written on the document, with nothing remembered. -/
theorem setStateAndMoves_decides {st st' : Store} {state : AccountState} {reason : String} {now : Instant}
    {moved : Nat} (hset : st.setStateAndMoves acc state reason now = some (st', moved)) :
    ∃ a', st'.account acc = some a' ∧ a'.state = state ∧ a'.stateBeforeReauth = none := by
  rw [Store.setStateAndMoves] at hset
  cases ha : st.account acc with
  | none =>
    rw [ha] at hset
    cases hset
  | some a =>
    rw [ha] at hset
    obtain ⟨rfl, -⟩ := Prod.mk.inj (Option.some.inj hset)
    exact ⟨_, Store.account_written st acc _ _, rfl, rfl⟩

theorem World.Guarded.honoured (h : w.Guarded acc) : w.Honoured acc := by
  intro a ha havailable state hlast
  by_contra hwithdrawn
  rw [not_or] at hwithdrawn
  exact (h.document ⟨state, hlast, withdrawn_iff.mpr hwithdrawn⟩ a ha).not_available havailable

theorem mem_readings_of_rest {before after : List Pending} {reading other : Pending}
    (hreading : w.readings = before ++ reading :: after) (hin : other ∈ before ++ after) : other ∈ w.readings := by
  rw [hreading]
  exact List.mem_append.mpr ((List.mem_append.mp hin).imp_right (List.mem_cons_of_mem reading))

theorem World.Guarded.step (h : w.Guarded acc) (hstep : World.Step acc w action w') (htimely : w.Timely action) :
    w'.Guarded acc := by
  cases hstep with
  | decide hset =>
    rename_i state reason now
    obtain ⟨a', ha', rfl, -⟩ := setStateAndMoves_decides hset
    constructor
    · intro reading hin
      have := h.dated reading hin
      simp only [List.length_append, List.length_singleton]
      omega
    · rintro ⟨last, hlast, hwithdrawn⟩ a ha
      rw [List.getLast?_concat] at hlast
      obtain rfl := Option.some.inj hlast
      obtain rfl := Option.some.inj (ha'.symm.trans ha)
      exact .inl hwithdrawn
    · intro hwithdrawn reading hin hdecided
      have := h.dated reading hin
      simp only [List.length_append, List.length_singleton] at hdecided
      omega
  | read sweep ha =>
    constructor
    · intro reading hin
      obtain hin | hin := List.mem_append.mp hin
      · exact h.dated reading hin
      · obtain rfl := List.mem_singleton.mp hin
        exact Nat.le_refl _
    · exact h.document
    · intro hwithdrawn reading hin hdecided
      obtain hin | hin := List.mem_append.mp hin
      · exact h.readings hwithdrawn reading hin hdecided
      · obtain rfl := List.mem_singleton.mp hin
        exact h.document hwithdrawn _ ha
  | write hreading ha hwritten =>
    rename_i before after reading a a'
    obtain ⟨state, hstate, hwithheld, -⟩ := withheld_written hwritten
    constructor
    · exact fun other hin => h.dated other (mem_readings_of_rest hreading hin)
    · intro hwithdrawn b hb
      obtain rfl := Option.some.inj ((account_update_self w.store acc a').symm.trans hb)
      apply hwithheld.mpr
      -- a fresh reading saw a withheld document, and a stale one is timely
      by_cases hstale : reading.decided < w.decisions.length
      · exact htimely hwithdrawn hstale state hstate
      · have hin : reading ∈ w.readings := by simp [hreading]
        exact (h.readings hwithdrawn reading hin (by omega)).bringsBack hstate
    · intro hwithdrawn other hin hdecided
      exact h.readings hwithdrawn other (mem_readings_of_rest hreading hin) hdecided
  | leave hreading ha hunwritten =>
    constructor
    · exact fun other hin => h.dated other (mem_readings_of_rest hreading hin)
    · exact h.document
    · intro hwithdrawn other hin hdecided
      exact h.readings hwithdrawn other (mem_readings_of_rest hreading hin) hdecided

theorem bringsBack_of_unwritten {sweep : Sweep} {seen a : Account} (hunwritten : sweep.written seen a = none) :
    sweep.bringsBack seen = none := by
  cases sweep with
  | mark reason =>
    rw [Sweep.written] at hunwritten
    split at hunwritten
    · rename_i hmarked
      exact if_pos hmarked
    · cases hunwritten
  | clear =>
    rw [Sweep.written] at hunwritten
    split at hunwritten
    · cases hunwritten
    · rename_i hmarked
      exact if_neg hmarked

/-- A document that recovery puts in service is in service after one more clear. -/
theorem clear_run {a : Account} (ha : w.store.account acc = some a)
    (hrecovers : a.state = .available ∨ a.state = .reauthRequired ∧ a.restored = .available) :
    ∃ actions w', Run (World.Step acc) w actions w' ∧ w'.decisions = w.decisions ∧
      ∃ a', w'.store.account acc = some a' ∧ a'.state = .available := by
  obtain hstate | ⟨hmarked, hrestored⟩ := hrecovers
  · exact ⟨[], w, .nil, rfl, a, ha, hstate⟩
  · let reading : Pending := ⟨.clear, a, w.decisions.length⟩
    let cleared : Account := { a with state := a.restored, reason := .text "", stateBeforeReauth := none }
    have hread : World.Step acc w (.read .clear) ⟨w.store, w.readings ++ [reading], w.decisions⟩ := .read .clear ha
    have hwrite : World.Step acc ⟨w.store, w.readings ++ [reading], w.decisions⟩ (.write reading)
        ⟨w.store.update acc cleared, w.readings ++ [], w.decisions⟩ := .write rfl ha (if_pos hmarked)
    refine ⟨_, _, .snoc (.one hread) hwrite, rfl, cleared, account_update_self _ _ _, hrestored⟩

theorem World.untimely_undone (hstep : World.Step acc w action w') (huntimely : ¬ w.Timely action) :
    ∃ actions w'', Run (World.Step acc) w' actions w'' ∧ ¬ w''.Honoured acc := by
  cases hstep with
  | decide hset => exact absurd trivial huntimely
  | read sweep ha => exact absurd trivial huntimely
  | leave hreading ha hunwritten =>
    apply absurd _ huntimely
    intro _ _ state hstate
    rw [bringsBack_of_unwritten hunwritten] at hstate
    cases hstate
  | write hreading ha hwritten =>
    rename_i before after reading a a'
    obtain ⟨state, hstate, hwithheld, hcases⟩ := withheld_written hwritten
    simp only [World.Timely, not_forall] at huntimely
    obtain ⟨⟨last, hlast, hwithdrawn⟩, -, other, hother, hnot⟩ := huntimely
    obtain rfl := Option.some.inj (hstate.symm.trans hother)
    have hrecovers : a'.state = .available ∨ a'.state = .reauthRequired ∧ a'.restored = .available := by
      obtain hstate | hrecovers | hwithheld' := hcases
      · exact .inl hstate
      · exact .inr hrecovers
      · exact absurd (hwithheld.mp hwithheld') hnot
    obtain ⟨actions, w'', hrun, hdecisions, b, hb, havailable⟩ :=
      @clear_run acc ⟨w.store.update acc a', before ++ after, w.decisions⟩ a'
        (account_update_self w.store acc a') hrecovers
    refine ⟨actions, w'', hrun, ?_⟩
    intro hhonoured
    obtain h | h := hhonoured b hb havailable last (hdecisions ▸ hlast)
    · simp [h, AccountState.withdrawn] at hwithdrawn
    · simp [h, AccountState.withdrawn] at hwithdrawn

def World.start (st : Store) : World := ⟨st, [], []⟩

theorem World.guarded_start (st : Store) : (World.start st).Guarded acc where
  dated := fun reading hin => by cases hin
  document := by
    rintro ⟨state, hlast, -⟩
    cases hlast
  readings := by
    rintro ⟨state, hlast, -⟩
    cases hlast

/-- While every sweep's write is timely, an account in service was last put there by a decision
or had none. After a write that is not timely, one more clear puts a withdrawn account back. -/
theorem decisions_honoured_of_timely (acc : String) (st : Store) :
    (∀ actions w, Run (fun w action w' => World.Step acc w action w' ∧ w.Timely action) (World.start st) actions w →
      w.Honoured acc) ∧
    (∀ actions w action w', Run (World.Step acc) (World.start st) actions w → World.Step acc w action w' →
      ¬ w.Timely action → ∃ later w'', Run (World.Step acc) w' later w'' ∧ ¬ w''.Honoured acc) := by
  constructor
  · intro actions w hrun
    apply World.Guarded.honoured
    exact hrun.invariant (fun _ _ _ h hstep => h.step hstep.1 hstep.2) (World.guarded_start st)
  · intro actions w action w' _ hstep huntimely
    exact World.untimely_undone hstep huntimely

def servedAccount : Account := { accountId := .text "a", ownerTenant := .text "t", label := .text "main" }

def servedStore : Store := ⟨[("a", servedAccount)], []⟩

def markedAccount : Account :=
  { servedAccount with
    state := .reauthRequired, reason := .text "revoked", stateBeforeReauth := some .available }

def pausedAccount : Account := { servedAccount with state := .paused, reason := .text "incident" }

/-- An operator pauses the account and resumes it; a mark and a clear that read it afterwards leave it in service. -/
theorem decisions_honoured_after_clear :
    ∃ actions w, Run (fun w action w' => World.Step "a" w action w' ∧ w.Timely action) (World.start servedStore) actions w ∧
      w.decisions = [.paused, .available] ∧ (∃ a, w.store.account "a" = some a ∧ a.state = .available) ∧ w.Honoured "a" := by
  have hnever : ∀ st readings, ¬ (⟨st, readings, [.paused, .available]⟩ : World).Withdrawn := by
    rintro st readings ⟨state, hlast, hwithdrawn⟩
    cases hlast
    cases hwithdrawn
  have hrun : Run (fun w action w' => World.Step "a" w action w' ∧ w.Timely action) (World.start servedStore)
      [.decide .paused "incident" 0, .decide .available "" 0, .read (.mark "revoked"),
        .write ⟨.mark "revoked", servedAccount, 2⟩, .read .clear, .write ⟨.clear, markedAccount, 2⟩] _ :=
    Run.one ⟨.decide rfl, trivial⟩ |>.snoc ⟨.decide rfl, trivial⟩ |>.snoc ⟨.read _ rfl, trivial⟩
      |>.snoc ⟨@World.Step.write "a" _ [] [] _ _ _ rfl rfl rfl, fun h => absurd h (hnever _ _)⟩
      |>.snoc ⟨.read _ rfl, trivial⟩
      |>.snoc ⟨@World.Step.write "a" _ [] [] _ _ _ rfl rfl rfl, fun h => absurd h (hnever _ _)⟩
  exact ⟨_, _, hrun, rfl, ⟨_, rfl, rfl⟩, (decisions_honoured_of_timely "a" servedStore).1 _ _ hrun⟩

/-- A mark reads the account in service, an operator pauses it, the mark writes and remembers
the state it had read, and the next clear puts the paused account back in service. -/
theorem pause_undone_by_stale_mark :
    ∃ actions w, Run (World.Step "a") (World.start servedStore) actions w ∧
      w.decisions.getLast? = some .paused ∧ ∃ a, w.store.account "a" = some a ∧ a.state = .available := by
  have hread : World.Step "a" (World.start servedStore) (.read (.mark "revoked"))
      ⟨servedStore, [⟨.mark "revoked", servedAccount, 0⟩], []⟩ := .read _ rfl
  have hpause : World.Step "a" ⟨servedStore, [⟨.mark "revoked", servedAccount, 0⟩], []⟩
      (.decide .paused "incident" 0)
      ⟨servedStore.update "a" pausedAccount, [⟨.mark "revoked", servedAccount, 0⟩], [.paused]⟩ := .decide rfl
  have hmark : World.Step "a"
      ⟨servedStore.update "a" pausedAccount, [⟨.mark "revoked", servedAccount, 0⟩], [.paused]⟩
      (.write ⟨.mark "revoked", servedAccount, 0⟩)
      ⟨(servedStore.update "a" pausedAccount).update "a" markedAccount, [] ++ [], [.paused]⟩ :=
    .write rfl rfl rfl
  obtain ⟨actions, w, hrun, hdecisions, a, ha, hstate⟩ := @clear_run "a"
    ⟨(servedStore.update "a" pausedAccount).update "a" markedAccount, [] ++ [], [.paused]⟩ markedAccount rfl
    (.inr ⟨rfl, rfl⟩)
  refine ⟨_, w, (Run.snoc (.snoc (.one hread) hpause) hmark).append hrun, ?_, a, ha, hstate⟩
  rw [hdecisions]
  rfl

end Steps

end SwarmCloud.Accounts
