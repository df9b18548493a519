import Mathlib.Algebra.Order.Group.Int
import Mathlib.Order.MinMax

/-! # The budget of a task's judgments

`judge/budget.py`, `Ledger`: one file of counts that the worker and the agent's
`jev_decide` server read and write under a lock. A call is admitted by taking
its slot; its tokens are added when its audit row is recorded. One call and
thirty thousand tokens are kept for the contract judgment, and two failures in a
row close the ledger.
-/

namespace SwarmCloud.Judge

def sharedInputTokensPerTask : Int := 120000

def reservedCalls : Int := 1

def measuredTokensPerCall : Int := 2850

def breakerFailures : Int := 2

def maxAuditRows : Nat := 200

structure AuditRow where
  kind : String
  outcome : String
  inputTokens : Nat
  outputTokens : Option Nat
deriving DecidableEq

/-- The file. -/
structure LedgerState where
  maxCalls : Int
  maxInputTokens : Int
  monthlyCapTokens : Option Int
  monthUsedTokens : Int
  calls : Int
  inputTokens : Int
  settledCalls : Int
  settledTokens : Int
  settledAudit : Int
  consecutiveFailures : Int
  breakerOpen : Bool
  unavailableLogged : Bool
  audit : List AuditRow
deriving DecidableEq

/-- `create`, for a task whose earlier attempts spent `calls` and `inputTokens`. -/
def LedgerState.create (maxCalls maxInputTokens : Int) (monthlyCapTokens : Option Int)
    (monthUsedTokens calls inputTokens : Int) : LedgerState :=
  { maxCalls := maxCalls, maxInputTokens := maxInputTokens, monthlyCapTokens := monthlyCapTokens
    monthUsedTokens := monthUsedTokens, calls := calls, inputTokens := inputTokens, settledCalls := calls
    settledTokens := inputTokens, settledAudit := 0, consecutiveFailures := 0, breakerOpen := false
    unavailableLogged := false, audit := [] }

structure Grant where
  calls : Nat
  inputTokens : Nat
deriving DecidableEq

/-- What one process holds of the ledger: the trusted grant, and the highest counts it has seen. -/
structure Ledger where
  authority : Option Grant
  reserve : Bool
  floorCalls : Int
  floorTokens : Int
deriving DecidableEq

inductive Refusal
  | breakerOpen | budgetCalls | budgetTokens | budgetMonthly
deriving DecidableEq

/-- `_refusal`. -/
def refusal (reserve : Bool) (estimate : Int) (s : LedgerState) : Option Refusal :=
  let maxCalls := if reserve then s.maxCalls else s.maxCalls - reservedCalls
  let maxTokens := if reserve then s.maxInputTokens else min s.maxInputTokens sharedInputTokensPerTask
  if s.breakerOpen then some .breakerOpen
  else if maxCalls ≤ s.calls then some .budgetCalls
  else if maxTokens < s.inputTokens + estimate then some .budgetTokens
  else match s.monthlyCapTokens with
    | none => none
    | some cap =>
      if cap < s.monthUsedTokens + (s.inputTokens - s.settledTokens) + estimate then some .budgetMonthly else none

namespace Ledger

/-- A ledger no process has used yet. -/
def new (authority : Option Grant) : Ledger := ⟨authority, false, 0, 0⟩

def forReserve (l : Ledger) : Ledger := { l with reserve := true }

/-- `_held`: the counts not below what this process saw, the limits not above its grant. -/
def held (l : Ledger) (s : LedgerState) : LedgerState :=
  let counted := { s with calls := max s.calls l.floorCalls, inputTokens := max s.inputTokens l.floorTokens }
  match l.authority with
  | none => counted
  | some grant =>
    { counted with
      maxCalls := min s.maxCalls grant.calls, maxInputTokens := min s.maxInputTokens grant.inputTokens }

def seen (l : Ledger) (s : LedgerState) : Ledger :=
  { l with floorCalls := max l.floorCalls s.calls, floorTokens := max l.floorTokens s.inputTokens }

def estimated (estimate : Int) : Int := max estimate measuredTokensPerCall

def admitCall (l : Ledger) (estimate : Int) (s : LedgerState) : Option Refusal × Ledger × LedgerState :=
  let s := l.held s
  let reason := refusal l.reserve (estimated estimate) s
  let s := if reason.isNone then { s with calls := s.calls + 1 } else s
  (reason, l.seen s, s)

def charge (row : AuditRow) (s : LedgerState) : LedgerState :=
  { s with
    inputTokens := s.inputTokens + row.inputTokens
    audit := if s.audit.length < maxAuditRows then s.audit ++ [row] else s.audit }

/-- The effect on the breaker; a skip is neither a success nor a failure. -/
def judge (succeeded : Option Bool) (s : LedgerState) : LedgerState :=
  match succeeded with
  | none => s
  | some true => { s with consecutiveFailures := 0 }
  | some false =>
    { s with
      consecutiveFailures := s.consecutiveFailures + 1
      breakerOpen := s.breakerOpen || breakerFailures ≤ s.consecutiveFailures + 1 }

def announce (s : LedgerState) : Bool × LedgerState :=
  if s.breakerOpen && !s.unavailableLogged then (true, { s with unavailableLogged := true }) else (false, s)

def record (l : Ledger) (row : AuditRow) (succeeded : Option Bool) (s : LedgerState) : Bool × Ledger × LedgerState :=
  let charged := charge row (l.held s)
  let announced := announce (judge succeeded charged)
  (announced.1, l.seen charged, announced.2)

/-! ## What the calls do -/

variable {l : Ledger} {s : LedgerState} {estimate : Int} {row : AuditRow} {succeeded : Option Bool}

/-- A ledger without the reserve stops short of it. -/
def callLimit (l : Ledger) (calls : Int) : Int := if l.reserve then calls else calls - reservedCalls

def tokenLimit (l : Ledger) (tokens : Int) : Int := if l.reserve then tokens else min tokens sharedInputTokensPerTask

theorem refusal_eq_none {reserve : Bool} (h : refusal reserve estimate s = none) :
    s.breakerOpen = false ∧ s.calls < (if reserve then s.maxCalls else s.maxCalls - reservedCalls) ∧
      s.inputTokens + estimate ≤ (if reserve then s.maxInputTokens else min s.maxInputTokens sharedInputTokensPerTask) := by
  simp only [refusal] at h
  cases hbreaker : s.breakerOpen with
  | true => simp [hbreaker] at h
  | false =>
    rw [if_neg (by simp [hbreaker])] at h
    by_cases hcalls : (if reserve then s.maxCalls else s.maxCalls - reservedCalls) ≤ s.calls
    · rw [if_pos hcalls] at h
      cases h
    · rw [if_neg hcalls] at h
      by_cases htokens : (if reserve then s.maxInputTokens else min s.maxInputTokens sharedInputTokensPerTask) <
          s.inputTokens + estimate
      · rw [if_pos htokens] at h
        cases h
      · exact ⟨rfl, not_le.mp hcalls, not_lt.mp htokens⟩

theorem held_calls (l : Ledger) (s : LedgerState) : (l.held s).calls = max s.calls l.floorCalls := by
  unfold held
  split <;> rfl

theorem held_inputTokens (l : Ledger) (s : LedgerState) : (l.held s).inputTokens = max s.inputTokens l.floorTokens := by
  unfold held
  split <;> rfl

theorem held_breakerOpen (l : Ledger) (s : LedgerState) : (l.held s).breakerOpen = s.breakerOpen := by
  unfold held
  split <;> rfl

theorem held_maxCalls_le (l : Ledger) (s : LedgerState) :
    (l.held s).maxCalls ≤ s.maxCalls ∧ ∀ grant ∈ l.authority, (l.held s).maxCalls ≤ grant.calls := by
  unfold held
  split
  · rename_i hnone
    exact ⟨le_rfl, by simp [hnone]⟩
  · rename_i grant hsome
    refine ⟨min_le_left _ _, ?_⟩
    simp [hsome]

theorem held_maxInputTokens_le (l : Ledger) (s : LedgerState) :
    (l.held s).maxInputTokens ≤ s.maxInputTokens ∧
      ∀ grant ∈ l.authority, (l.held s).maxInputTokens ≤ grant.inputTokens := by
  unfold held
  split
  · rename_i hnone
    exact ⟨le_rfl, by simp [hnone]⟩
  · rename_i grant hsome
    refine ⟨min_le_left _ _, ?_⟩
    simp [hsome]

/-- An admitted call has its slot, and was within what the file and the process allow. -/
theorem admit_ok (h : (l.admitCall estimate s).1 = none) :
    s.breakerOpen = false ∧
      max s.calls l.floorCalls < l.callLimit (l.held s).maxCalls ∧
      max s.inputTokens l.floorTokens + estimated estimate ≤ l.tokenLimit (l.held s).maxInputTokens ∧
      (l.admitCall estimate s).2.2.calls = max s.calls l.floorCalls + 1 ∧
      (l.admitCall estimate s).2.1.floorCalls = max s.calls l.floorCalls + 1 := by
  obtain ⟨hbreaker, hcalls, htokens⟩ := refusal_eq_none h
  rw [held_breakerOpen] at hbreaker
  rw [held_calls] at hcalls
  rw [held_inputTokens] at htokens
  have hslot : (l.admitCall estimate s).2.2.calls = max s.calls l.floorCalls + 1 := by
    have hreason : (refusal l.reserve (estimated estimate) (l.held s)).isNone = true := by
      rw [show refusal l.reserve (estimated estimate) (l.held s) = none from h]
      rfl
    simp only [admitCall, hreason, if_true, held_calls]
  refine ⟨hbreaker, hcalls, htokens, hslot, ?_⟩
  change max l.floorCalls (l.admitCall estimate s).2.2.calls = _
  rw [hslot]
  omega

theorem admit_counts (l : Ledger) (estimate : Int) (s : LedgerState) :
    (l.admitCall estimate s).2.2.calls =
        max s.calls l.floorCalls + (if (l.admitCall estimate s).1 = none then 1 else 0) ∧
      (l.admitCall estimate s).2.1.floorCalls = (l.admitCall estimate s).2.2.calls ∧
      (l.admitCall estimate s).2.2.inputTokens = max s.inputTokens l.floorTokens ∧
      (l.admitCall estimate s).2.1.floorTokens = (l.admitCall estimate s).2.2.inputTokens := by
  have hcalls : (l.admitCall estimate s).2.2.calls =
      max s.calls l.floorCalls + (if (l.admitCall estimate s).1 = none then 1 else 0) := by
    cases hreason : refusal l.reserve (estimated estimate) (l.held s) <;> simp [admitCall, hreason, held_calls]
  have htokens : (l.admitCall estimate s).2.2.inputTokens = max s.inputTokens l.floorTokens := by
    cases hreason : refusal l.reserve (estimated estimate) (l.held s) <;> simp [admitCall, hreason, held_inputTokens]
  refine ⟨hcalls, ?_, htokens, ?_⟩
  · change max l.floorCalls (l.admitCall estimate s).2.2.calls = _
    rw [hcalls]
    split <;> omega
  · change max l.floorTokens (l.admitCall estimate s).2.2.inputTokens = _
    rw [htokens]
    omega

theorem judge_counts (succeeded : Option Bool) (s : LedgerState) :
    (judge succeeded s).calls = s.calls ∧ (judge succeeded s).inputTokens = s.inputTokens := by
  obtain _ | _ | _ := succeeded <;> exact ⟨rfl, rfl⟩

theorem announce_counts (s : LedgerState) :
    (announce s).2.calls = s.calls ∧ (announce s).2.inputTokens = s.inputTokens := by
  unfold announce
  split <;> exact ⟨rfl, rfl⟩

theorem record_counts (l : Ledger) (row : AuditRow) (succeeded : Option Bool) (s : LedgerState) :
    (l.record row succeeded s).2.2.calls = max s.calls l.floorCalls ∧
      (l.record row succeeded s).2.1.floorCalls = (l.record row succeeded s).2.2.calls ∧
      (l.record row succeeded s).2.2.inputTokens = max s.inputTokens l.floorTokens + row.inputTokens ∧
      (l.record row succeeded s).2.1.floorTokens = (l.record row succeeded s).2.2.inputTokens := by
  have hcalls : (l.record row succeeded s).2.2.calls = max s.calls l.floorCalls := by
    rw [record, (announce_counts _).1, (judge_counts _ _).1, charge, held_calls]
  have htokens : (l.record row succeeded s).2.2.inputTokens = max s.inputTokens l.floorTokens + row.inputTokens := by
    rw [record, (announce_counts _).2, (judge_counts _ _).2, charge, held_inputTokens]
  refine ⟨hcalls, ?_, htokens, ?_⟩
  · change max l.floorCalls (charge row (l.held s)).calls = _
    rw [hcalls, charge, held_calls]
    omega
  · change max l.floorTokens ((l.held s).inputTokens + row.inputTokens) = _
    rw [htokens, held_inputTokens]
    omega

theorem held_rest (l : Ledger) (s : LedgerState) :
    (l.held s).consecutiveFailures = s.consecutiveFailures ∧ (l.held s).unavailableLogged = s.unavailableLogged ∧
      (l.held s).monthlyCapTokens = s.monthlyCapTokens := by
  unfold held
  split <;> exact ⟨rfl, rfl, rfl⟩

/-- An admission leaves the breaker and the limits as the process holds them. -/
theorem admit_rest (l : Ledger) (estimate : Int) (s : LedgerState) :
    (l.admitCall estimate s).2.2.breakerOpen = s.breakerOpen ∧
      (l.admitCall estimate s).2.2.consecutiveFailures = s.consecutiveFailures ∧
      (l.admitCall estimate s).2.2.unavailableLogged = s.unavailableLogged ∧
      (l.admitCall estimate s).2.2.monthlyCapTokens = s.monthlyCapTokens ∧
      (l.admitCall estimate s).2.2.maxCalls = (l.held s).maxCalls ∧
      (l.admitCall estimate s).2.2.maxInputTokens = (l.held s).maxInputTokens := by
  obtain ⟨hfailures, hlogged, hcap⟩ := held_rest l s
  have hbreaker := held_breakerOpen l s
  cases hreason : refusal l.reserve (estimated estimate) (l.held s) <;>
    simp [admitCall, hreason, hfailures, hlogged, hbreaker, hcap]

theorem judge_rest (succeeded : Option Bool) (s : LedgerState) :
    (judge succeeded s).consecutiveFailures =
        succeeded.elim s.consecutiveFailures (fun ok => if ok then 0 else s.consecutiveFailures + 1) ∧
      (judge succeeded s).breakerOpen =
        (s.breakerOpen || succeeded.elim false fun ok => !ok && breakerFailures ≤ s.consecutiveFailures + 1) ∧
      (judge succeeded s).unavailableLogged = s.unavailableLogged ∧
      (judge succeeded s).monthlyCapTokens = s.monthlyCapTokens ∧
      (judge succeeded s).maxCalls = s.maxCalls ∧ (judge succeeded s).maxInputTokens = s.maxInputTokens := by
  obtain _ | _ | _ := succeeded <;> simp [judge]

theorem announce_rest (s : LedgerState) :
    (announce s).2.consecutiveFailures = s.consecutiveFailures ∧ (announce s).2.breakerOpen = s.breakerOpen ∧
      (announce s).2.unavailableLogged = (s.unavailableLogged || s.breakerOpen) ∧
      (announce s).1 = (s.breakerOpen && !s.unavailableLogged) ∧
      (announce s).2.monthlyCapTokens = s.monthlyCapTokens ∧
      (announce s).2.maxCalls = s.maxCalls ∧ (announce s).2.maxInputTokens = s.maxInputTokens := by
  unfold announce
  cases hopen : s.breakerOpen <;> cases hlogged : s.unavailableLogged <;> simp [hopen, hlogged]

/-- What a record says of the breaker, and what it leaves. -/
theorem record_rest (l : Ledger) (row : AuditRow) (succeeded : Option Bool) (s : LedgerState) :
    (l.record row succeeded s).2.2.consecutiveFailures =
        succeeded.elim s.consecutiveFailures (fun ok => if ok then 0 else s.consecutiveFailures + 1) ∧
      (l.record row succeeded s).2.2.breakerOpen =
        (s.breakerOpen || succeeded.elim false fun ok => !ok && breakerFailures ≤ s.consecutiveFailures + 1) ∧
      (l.record row succeeded s).2.2.unavailableLogged =
        (s.unavailableLogged || (l.record row succeeded s).2.2.breakerOpen) ∧
      (l.record row succeeded s).1 = ((l.record row succeeded s).2.2.breakerOpen && !s.unavailableLogged) ∧
      (l.record row succeeded s).2.2.monthlyCapTokens = s.monthlyCapTokens ∧
      (l.record row succeeded s).2.2.maxCalls = (l.held s).maxCalls ∧
      (l.record row succeeded s).2.2.maxInputTokens = (l.held s).maxInputTokens := by
  obtain ⟨hfailures, hlogged, hcap⟩ := held_rest l s
  have hbreaker := held_breakerOpen l s
  obtain ⟨jfailures, jopen, jlogged, jcap, jcalls, jtokens⟩ := judge_rest succeeded (charge row (l.held s))
  obtain ⟨afailures, aopen, alogged, asays, acap, acalls, atokens⟩ :=
    announce_rest (judge succeeded (charge row (l.held s)))
  simp only [record, afailures, aopen, alogged, asays, acap, acalls, atokens, jfailures, jopen, jlogged, jcap, jcalls,
    jtokens]
  simp only [charge, hfailures, hlogged, hcap, hbreaker, and_self]

end Ledger

end SwarmCloud.Judge
