import Mathlib.Data.List.Infix
import Mathlib.Data.List.Induction
import Mathlib.Logic.Function.Basic
import SwarmCloud.Judge.Ledger

/-! # Several processes on one ledger

The worker, the agent's server and the contract judgment share one file, each
with a ledger of its own. In any order of their calls the task stays within its
calls, the shared ledgers leave the reserve alone, and the breaker opens with the
second of two failures in a row and stays open.
-/

namespace SwarmCloud.Judge

/-- The file, the processes' ledgers, and what has happened: calls admitted to ledgers without and with the
reserve, tokens recorded, the judged outcomes in order, and how often a record said the breaker opened. -/
structure Sharing where
  file : LedgerState
  ledger : Nat → Ledger
  shared : Nat
  reserved : Nat
  spent : Nat
  outcomes : List Bool
  announced : Nat

inductive SharedTurn
  | admitCall (process : Nat) (estimate : Int)
  | record (process : Nat) (row : AuditRow) (succeeded : Option Bool)
  | forReserve (process child : Nat)

namespace Sharing

def start (file : LedgerState) (grants : Nat → Option Grant) : Sharing :=
  ⟨file, fun process => .new (grants process), 0, 0, 0, [], 0⟩

def turn (w : Sharing) : SharedTurn → Sharing
  | .admitCall process estimate =>
    let answer := (w.ledger process).admitCall estimate w.file
    { w with
      file := answer.2.2, ledger := Function.update w.ledger process answer.2.1
      shared := if answer.1 = none ∧ (w.ledger process).reserve = false then w.shared + 1 else w.shared
      reserved := if answer.1 = none ∧ (w.ledger process).reserve = true then w.reserved + 1 else w.reserved }
  | .record process row succeeded =>
    let answer := (w.ledger process).record row succeeded w.file
    { w with
      file := answer.2.2, ledger := Function.update w.ledger process answer.2.1
      spent := w.spent + row.inputTokens
      outcomes := w.outcomes ++ succeeded.toList
      announced := if answer.1 then w.announced + 1 else w.announced }
  | .forReserve process child =>
    { w with ledger := Function.update w.ledger child (w.ledger process).forReserve }

/-! ## Failures in a row -/

/-- The failures since the last success. -/
def trailing (outcomes : List Bool) : Nat := outcomes.foldl (fun n succeeded => if succeeded then 0 else n + 1) 0

theorem trailing_append (outcomes : List Bool) (succeeded : Bool) :
    trailing (outcomes ++ [succeeded]) = if succeeded then 0 else trailing outcomes + 1 := by
  rw [trailing, List.foldl_append]
  rfl

theorem trailing_pos (outcomes : List Bool) : 0 < trailing outcomes ↔ [false] <:+ outcomes := by
  obtain rfl | ⟨outcomes, succeeded, rfl⟩ := List.eq_nil_or_concat outcomes
  · simp [trailing]
  rw [List.concat_eq_append, trailing_append]
  cases succeeded with
  | true =>
    refine iff_of_false (by simp) fun h => ?_
    have hlast := List.IsSuffix.getLast h (List.cons_ne_nil false [])
    simp at hlast
  | false => exact iff_of_true (by simp) (List.suffix_append outcomes [false])

/-- One more outcome makes two failures in a row where it is a failure after a failure. -/
theorem two_failures_append (outcomes : List Bool) (succeeded : Bool) :
    [false, false] <:+: outcomes ++ [succeeded] ↔
      [false, false] <:+: outcomes ∨ succeeded = false ∧ 0 < trailing outcomes := by
  rw [List.infix_concat_iff, trailing_pos, or_comm]
  refine or_congr_right ?_
  constructor
  · rintro ⟨before, h⟩
    have hsplit : (before ++ [false]) ++ [false] = outcomes ++ [succeeded] := by simpa using h
    obtain ⟨hfront, hlast⟩ := List.append_inj' hsplit rfl
    exact ⟨(List.singleton_inj.mp hlast).symm, before, hfront⟩
  · rintro ⟨rfl, before, h⟩
    exact ⟨before, by rw [← h]; simp⟩

/-! ## The invariant -/

structure Held (file₀ : LedgerState) (w : Sharing) : Prop where
  calls : w.file.calls = file₀.calls + w.shared + w.reserved
  tokens : w.file.inputTokens = file₀.inputTokens + w.spent
  floors : ∀ process, (w.ledger process).floorCalls ≤ w.file.calls ∧ (w.ledger process).floorTokens ≤ w.file.inputTokens
  cap : w.file.monthlyCapTokens = file₀.monthlyCapTokens
  narrowed : w.file.maxCalls ≤ file₀.maxCalls ∧ w.file.maxInputTokens ≤ file₀.maxInputTokens
  within : w.shared + w.reserved = 0 ∨ w.file.calls ≤ file₀.maxCalls
  shared : w.shared = 0 ∨ file₀.calls + w.shared ≤ file₀.maxCalls - reservedCalls
  failures : w.file.consecutiveFailures = trailing w.outcomes
  breaker : w.file.breakerOpen = true ↔ [false, false] <:+: w.outcomes
  once : w.announced = if w.file.unavailableLogged then 1 else 0
  logged : w.file.unavailableLogged = w.file.breakerOpen

/-- No grant is below what the file allows. -/
def Wide (file₀ : LedgerState) (w : Sharing) : Prop :=
  (∀ process, ∀ grant ∈ (w.ledger process).authority,
      file₀.maxCalls ≤ grant.calls ∧ file₀.maxInputTokens ≤ grant.inputTokens) ∧
    w.file.maxCalls = file₀.maxCalls ∧ w.file.maxInputTokens = file₀.maxInputTokens

variable {file₀ : LedgerState} {w : Sharing}

theorem held_start (maxCalls maxInputTokens : Int) (cap : Option Int) (used : Int) (calls tokens : Nat)
    (grants : Nat → Option Grant) :
    Held (.create maxCalls maxInputTokens cap used calls tokens)
      (start (.create maxCalls maxInputTokens cap used calls tokens) grants) where
  calls := by simp [start]
  tokens := by simp [start]
  floors process := ⟨Int.natCast_nonneg calls, Int.natCast_nonneg tokens⟩
  cap := rfl
  narrowed := ⟨le_rfl, le_rfl⟩
  within := .inl rfl
  shared := .inl rfl
  failures := rfl
  breaker := by simp [start, LedgerState.create]
  once := rfl
  logged := rfl

/-- The calls and tokens the file shows are what every process sees. -/
theorem Held.counts (h : Held file₀ w) (process : Nat) :
    max w.file.calls (w.ledger process).floorCalls = w.file.calls ∧
      max w.file.inputTokens (w.ledger process).floorTokens = w.file.inputTokens := by
  obtain ⟨hcalls, htokens⟩ := h.floors process
  exact ⟨max_eq_left hcalls, max_eq_left htokens⟩

/-- The floors of the process that has just called are the file's counts, and nobody's are above them. -/
theorem floors_update (h : Held file₀ w) {process : Nat} {l : Ledger} {file : LedgerState}
    (hl : l.floorCalls = file.calls ∧ l.floorTokens = file.inputTokens)
    (hup : w.file.calls ≤ file.calls ∧ w.file.inputTokens ≤ file.inputTokens) (other : Nat) :
    (Function.update w.ledger process l other).floorCalls ≤ file.calls ∧
      (Function.update w.ledger process l other).floorTokens ≤ file.inputTokens := by
  rw [Function.update_apply]
  split
  · exact ⟨hl.1.le, hl.2.le⟩
  · exact ⟨(h.floors other).1.trans hup.1, (h.floors other).2.trans hup.2⟩

theorem Held.admitCall (h : Held file₀ w) (process : Nat) (estimate : Int) : Held file₀ (w.turn (.admitCall process estimate)) := by
  obtain ⟨hcalls, hfloorCalls, htokens, hfloorTokens⟩ := Ledger.admit_counts (w.ledger process) estimate w.file
  obtain ⟨hopen, hfailures, hlogged, hcap, hmaxCalls, hmaxTokens⟩ :=
    Ledger.admit_rest (w.ledger process) estimate w.file
  obtain ⟨hsameCalls, hsameTokens⟩ := h.counts process
  rw [hsameCalls] at hcalls
  rw [hsameTokens] at htokens
  have hnarrowCalls := (Ledger.held_maxCalls_le (w.ledger process) w.file).1
  have hnarrowTokens := (Ledger.held_maxInputTokens_le (w.ledger process) w.file).1
  have hbooks := h.calls
  have hnarrow := h.narrowed
  -- an admission had room below the limit, and a shared one below the reserve
  have hroom : ((w.ledger process).admitCall estimate w.file).1 = none →
      w.file.calls + 1 ≤ file₀.maxCalls ∧
        ((w.ledger process).reserve = false → w.file.calls + 1 ≤ file₀.maxCalls - reservedCalls) := by
    intro hok
    obtain ⟨-, hlt, -⟩ := Ledger.admit_ok hok
    rw [hsameCalls] at hlt
    simp only [Ledger.callLimit, reservedCalls] at hlt ⊢
    cases hreserve : (w.ledger process).reserve with
    | true =>
      simp only [hreserve, if_true] at hlt
      refine ⟨by omega, nofun⟩
    | false =>
      simp only [hreserve, Bool.false_eq_true, if_false] at hlt
      exact ⟨by omega, fun _ => by omega⟩
  constructor
  · simp only [turn]
    rw [hcalls]
    by_cases hok : ((w.ledger process).admitCall estimate w.file).1 = none
    · cases hreserve : (w.ledger process).reserve <;> simp only [hok, if_true, true_and, reduceCtorEq, if_false] <;>
        push_cast <;> omega
    · simp only [hok, if_false, false_and]
      omega
  · simp only [turn]
    rw [htokens]
    exact h.tokens
  · have hup : w.file.calls ≤ ((w.ledger process).admitCall estimate w.file).2.2.calls := by
      rw [hcalls]
      split <;> omega
    exact floors_update h ⟨hfloorCalls, hfloorTokens⟩ ⟨hup, htokens.ge⟩
  · exact hcap.trans h.cap
  · exact ⟨hmaxCalls.le.trans (hnarrowCalls.trans hnarrow.1), hmaxTokens.le.trans (hnarrowTokens.trans hnarrow.2)⟩
  · simp only [turn]
    rw [hcalls]
    by_cases hok : ((w.ledger process).admitCall estimate w.file).1 = none
    · simp only [hok, if_true]
      exact .inr (hroom hok).1
    · simp only [hok, if_false, false_and, add_zero]
      exact h.within
  · simp only [turn]
    by_cases hok : ((w.ledger process).admitCall estimate w.file).1 = none ∧ (w.ledger process).reserve = false
    · have hlt := (hroom hok.1).2 hok.2
      rw [if_pos hok]
      push_cast
      omega
    · rw [if_neg hok]
      exact h.shared
  · exact hfailures.trans h.failures
  · simp only [turn]
    rw [hopen]
    exact h.breaker
  · simp only [turn, hlogged]
    exact h.once
  · simp only [turn]
    rw [hlogged, hopen]
    exact h.logged

theorem Held.record (h : Held file₀ w) (process : Nat) (row : AuditRow) (succeeded : Option Bool) :
    Held file₀ (w.turn (.record process row succeeded)) := by
  obtain ⟨hcalls, hfloorCalls, htokens, hfloorTokens⟩ := Ledger.record_counts (w.ledger process) row succeeded w.file
  obtain ⟨hfailures, hopen, hlogged, hsays, hcap, hmaxCalls, hmaxTokens⟩ :=
    Ledger.record_rest (w.ledger process) row succeeded w.file
  obtain ⟨hsameCalls, hsameTokens⟩ := h.counts process
  rw [hsameCalls] at hcalls
  rw [hsameTokens] at htokens
  have hnarrowCalls := (Ledger.held_maxCalls_le (w.ledger process) w.file).1
  have hnarrowTokens := (Ledger.held_maxInputTokens_le (w.ledger process) w.file).1
  have hnarrow := h.narrowed
  constructor
  · simp only [turn]
    rw [hcalls]
    exact h.calls
  · have hbooks := h.tokens
    simp only [turn]
    rw [htokens]
    push_cast
    omega
  · have hup : w.file.inputTokens ≤ ((w.ledger process).record row succeeded w.file).2.2.inputTokens := by
      rw [htokens]
      omega
    exact floors_update h ⟨hfloorCalls, hfloorTokens⟩ ⟨hcalls.ge, hup⟩
  · exact hcap.trans h.cap
  · exact ⟨hmaxCalls.le.trans (hnarrowCalls.trans hnarrow.1), hmaxTokens.le.trans (hnarrowTokens.trans hnarrow.2)⟩
  · simp only [turn]
    rw [hcalls]
    exact h.within
  · exact h.shared
  · simp only [turn]
    rw [hfailures, h.failures]
    obtain _ | ok := succeeded
    · simp
    · cases ok <;> simp [trailing_append]
  · simp only [turn, hopen, h.failures]
    obtain _ | ok := succeeded
    · simpa using h.breaker
    · rw [Option.toList_some, two_failures_append, Option.elim_some, Bool.or_eq_true, h.breaker]
      refine or_congr_right ?_
      simp only [Bool.and_eq_true, Bool.not_eq_true', decide_eq_true_eq]
      refine and_congr_right fun _ => ?_
      unfold breakerFailures
      omega
  · simp only [turn, hsays, hlogged, h.once]
    cases w.file.unavailableLogged <;> cases ((w.ledger process).record row succeeded w.file).2.2.breakerOpen <;> simp
  · simp only [turn]
    rw [hlogged, h.logged, hopen]
    cases w.file.breakerOpen <;> simp

theorem Held.turn (h : Held file₀ w) (t : SharedTurn) : Held file₀ (w.turn t) := by
  cases t with
  | admitCall process estimate => exact h.admitCall process estimate
  | record process row succeeded => exact h.record process row succeeded
  | forReserve process child =>
    refine { h with floors := fun other => ?_ }
    simp only [Sharing.turn, Function.update_apply]
    split
    · exact h.floors process
    · exact h.floors other

theorem Wide.turn (h : Wide file₀ w) (t : SharedTurn) : Wide file₀ (w.turn t) := by
  obtain ⟨hgrants, hcalls, htokens⟩ := h
  have hheld : ∀ process, ((w.ledger process).held w.file).maxCalls = file₀.maxCalls ∧
      ((w.ledger process).held w.file).maxInputTokens = file₀.maxInputTokens := by
    intro process
    unfold Ledger.held
    split
    · exact ⟨hcalls, htokens⟩
    · rename_i grant hsome
      obtain ⟨hwideCalls, hwideTokens⟩ := hgrants process grant hsome
      exact ⟨by simp only [hcalls]; omega, by simp only [htokens]; omega⟩
  have hupdate : ∀ process l, l.authority = (w.ledger process).authority → ∀ child,
      ∀ other, ∀ grant ∈ (Function.update w.ledger child l other).authority,
        file₀.maxCalls ≤ grant.calls ∧ file₀.maxInputTokens ≤ grant.inputTokens := by
    intro process l hl child other grant hgrant
    rw [Function.update_apply] at hgrant
    split at hgrant
    · rw [hl] at hgrant
      exact hgrants process grant hgrant
    · exact hgrants other grant hgrant
  cases t with
  | admitCall process estimate =>
    obtain ⟨-, -, -, -, hmaxCalls, hmaxTokens⟩ := Ledger.admit_rest (w.ledger process) estimate w.file
    exact ⟨hupdate process ((w.ledger process).admitCall estimate w.file).2.1 rfl process,
      hmaxCalls.trans (hheld process).1, hmaxTokens.trans (hheld process).2⟩
  | record process row succeeded =>
    obtain ⟨-, -, -, -, -, hmaxCalls, hmaxTokens⟩ := Ledger.record_rest (w.ledger process) row succeeded w.file
    exact ⟨hupdate process ((w.ledger process).record row succeeded w.file).2.1 rfl process,
      hmaxCalls.trans (hheld process).1, hmaxTokens.trans (hheld process).2⟩
  | forReserve process child => exact ⟨hupdate process (w.ledger process).forReserve rfl child, hcalls, htokens⟩

/-- A ledger with the reserve is admitted as long as one call is left and the tokens are within the task's. -/
theorem admit_reserve (h : Held file₀ w) (hwide : Wide file₀ w) {process : Nat}
    (hreserve : (w.ledger process).reserve = true) (hcap : file₀.monthlyCapTokens = none)
    (hopen : w.file.breakerOpen = false) {estimate : Int} (hcalls : w.file.calls < file₀.maxCalls)
    (htokens : w.file.inputTokens + Ledger.estimated estimate ≤ file₀.maxInputTokens) :
    ((w.ledger process).admitCall estimate w.file).1 = none := by
  obtain ⟨hgrants, hmaxCalls, hmaxTokens⟩ := hwide
  obtain ⟨hsameCalls, hsameTokens⟩ := h.counts process
  have hlimits : ((w.ledger process).held w.file).maxCalls = file₀.maxCalls ∧
      ((w.ledger process).held w.file).maxInputTokens = file₀.maxInputTokens := by
    unfold Ledger.held
    split
    · exact ⟨hmaxCalls, hmaxTokens⟩
    · rename_i grant hsome
      obtain ⟨hwideCalls, hwideTokens⟩ := hgrants process grant hsome
      exact ⟨by simp only [hmaxCalls]; omega, by simp only [hmaxTokens]; omega⟩
  have hbreaker : ((w.ledger process).held w.file).breakerOpen = false := by rw [Ledger.held_breakerOpen, hopen]
  have hmonth : ((w.ledger process).held w.file).monthlyCapTokens = none := by
    rw [(Ledger.held_rest _ _).2.2, h.cap, hcap]
  change refusal (w.ledger process).reserve _ _ = none
  simp only [refusal, hreserve, if_true, hlimits.1, hlimits.2, hbreaker, Bool.false_eq_true, if_false, hmonth,
    Ledger.held_calls, Ledger.held_inputTokens, hsameCalls, hsameTokens]
  rw [if_neg (by omega), if_neg (by omega)]

/-- In any order of the processes' calls: a task stays within its calls, all but the reserve for the shared
ledgers; each admission fits the tokens; the breaker is open exactly when two calls in a row have failed, admits
nothing then, and was announced once; and where no grant is narrower and no month is capped, the contract
judgment is admitted until the reserve is used, with the shared tokens spent and no more. -/
theorem ledger_of_run (maxCalls maxInputTokens used : Int) (cap : Option Int) (calls tokens : Nat)
    (grants : Nat → Option Grant) (turns : List SharedTurn) :
    let w := turns.foldl turn (start (.create maxCalls maxInputTokens cap used calls tokens) grants)
    (w.shared + w.reserved = 0 ∨ calls + w.shared + w.reserved ≤ maxCalls) ∧
      (w.shared = 0 ∨ calls + w.shared ≤ maxCalls - reservedCalls) ∧
      (∀ process estimate, ((w.ledger process).admitCall estimate w.file).1 = none →
        tokens + w.spent + Ledger.estimated estimate ≤ (w.ledger process).tokenLimit maxInputTokens) ∧
      ((w.file.breakerOpen = true ↔ [false, false] <:+: w.outcomes) ∧
        (w.file.breakerOpen = true → ∀ process estimate,
          ((w.ledger process).admitCall estimate w.file).1 = some .breakerOpen) ∧
        w.announced = if w.file.breakerOpen then 1 else 0) ∧
      ((∀ process, ∀ grant ∈ grants process, maxCalls ≤ grant.calls ∧ maxInputTokens ≤ grant.inputTokens) →
        cap = none → w.file.breakerOpen = false → w.reserved = 0 → calls < maxCalls →
        ∀ process estimate, (w.ledger process).reserve = true → estimate ≤ maxInputTokens - sharedInputTokensPerTask →
          measuredTokensPerCall ≤ maxInputTokens - sharedInputTokensPerTask →
          tokens + w.spent ≤ sharedInputTokensPerTask → ((w.ledger process).admitCall estimate w.file).1 = none) := by
  intro w
  have hheld : Held (.create maxCalls maxInputTokens cap used calls tokens) w := by
    refine List.foldlRecOn turns turn (held_start maxCalls maxInputTokens cap used calls tokens grants) ?_
    exact fun w h t _ => h.turn t
  have hcalls := hheld.calls
  have htokens := hheld.tokens
  simp only [LedgerState.create] at hcalls htokens
  refine ⟨?_, hheld.shared, ?_, ⟨hheld.breaker, ?_, ?_⟩, ?_⟩
  · refine hheld.within.imp_right fun h => ?_
    simp only [LedgerState.create] at h
    omega
  · intro process estimate hok
    obtain ⟨-, -, hfits, -⟩ := Ledger.admit_ok hok
    have hnarrow := (Ledger.held_maxInputTokens_le (w.ledger process) w.file).1.trans hheld.narrowed.2
    rw [(hheld.counts process).2] at hfits
    simp only [Ledger.tokenLimit, LedgerState.create] at hfits hnarrow ⊢
    cases hreserve : (w.ledger process).reserve with
    | true =>
      simp only [hreserve, if_true] at hfits ⊢
      omega
    | false =>
      simp only [hreserve, Bool.false_eq_true, if_false] at hfits ⊢
      omega
  · intro hopen process estimate
    change refusal _ _ _ = _
    rw [refusal, if_pos (by rw [Ledger.held_breakerOpen, hopen])]
  · rw [← hheld.logged]
    exact hheld.once
  · intro hgrants hcap hopen hreserved hroom process estimate hreserve hestimate hmeasured hspent
    have hwide : Wide (.create maxCalls maxInputTokens cap used calls tokens) w := by
      refine List.foldlRecOn turns turn ⟨hgrants, rfl, rfl⟩ ?_
      exact fun w h t _ => Wide.turn h t
    refine admit_reserve hheld hwide hreserve hcap hopen ?_ ?_
    · have hshared := hheld.shared
      simp only [LedgerState.create, reservedCalls] at hshared ⊢
      omega
    · simp only [LedgerState.create, Ledger.estimated]
      omega

end Sharing

end SwarmCloud.Judge
