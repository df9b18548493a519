import SwarmCloud.Judge.ByKind
import SwarmCloud.Judge.Shared
import SwarmCloud.Lib.Runs

/-! # Charging a task's judgments to the month

`judge/budget.py`: an attempt takes what its ledger has not settled, and one
transaction, fenced by the attempt's generation, adds it to the month and to the
attempt's row; where that does not land it is given back. The next attempt starts
its ledger with what the rows say was spent. Whatever the order of calls, settles
and attempts, nothing is charged twice and nothing settled is lost.
-/

namespace SwarmCloud.Judge

open Lib

/-! ## The ledger's side -/

/-- What a settle has taken and not yet written. -/
structure Pending where
  calls : Nat
  tokens : Nat
  audit : List AuditRow

namespace LedgerState

/-- `take_unsettled_attempt`. -/
def takeUnsettled (s : LedgerState) : Pending × LedgerState :=
  let calls := (s.calls - s.settledCalls).toNat
  let tokens := (s.inputTokens - s.settledTokens).toNat
  let done := min s.audit.length s.settledAudit.toNat
  (⟨calls, tokens, s.audit.drop done⟩,
    { s with
      settledCalls := s.settledCalls + calls, settledTokens := s.settledTokens + tokens
      settledAudit := s.audit.length })

/-- `restore_unsettled`. -/
def restoreUnsettled (p : Pending) (s : LedgerState) : LedgerState :=
  { s with
    settledCalls := s.settledCalls - p.calls, settledTokens := s.settledTokens - p.tokens
    settledAudit := max 0 (s.settledAudit - p.audit.length) }

/-- A file after more calls: nothing of it is settled by them. -/
structure Grown (s s' : LedgerState) : Prop where
  calls : s.calls ≤ s'.calls
  audit : ∃ rows, s'.audit = s.audit ++ rows ∧ s.inputTokens + rowTokens rows ≤ s'.inputTokens
  settled : s'.settledCalls = s.settledCalls ∧ s'.settledTokens = s.settledTokens ∧ s'.settledAudit = s.settledAudit

end LedgerState

theorem grown_admit (l : Ledger) (estimate : Int) (s : LedgerState) : s.Grown (l.admitCall estimate s).2.2 := by
  obtain ⟨hcalls, -, htokens, -⟩ := Ledger.admit_counts l estimate s
  have hheld : (l.held s).audit = s.audit ∧ (l.held s).settledCalls = s.settledCalls ∧
      (l.held s).settledTokens = s.settledTokens ∧ (l.held s).settledAudit = s.settledAudit := by
    unfold Ledger.held
    split <;> exact ⟨rfl, rfl, rfl, rfl⟩
  have hsame : (l.admitCall estimate s).2.2.audit = s.audit ∧ (l.admitCall estimate s).2.2.settledCalls = s.settledCalls ∧
      (l.admitCall estimate s).2.2.settledTokens = s.settledTokens ∧
      (l.admitCall estimate s).2.2.settledAudit = s.settledAudit := by
    cases hreason : refusal l.reserve (Ledger.estimated estimate) (l.held s) <;> simp [Ledger.admitCall, hreason, hheld]
  constructor
  · rw [hcalls]
    split <;> omega
  · refine ⟨[], by rw [hsame.1, List.append_nil], ?_⟩
    rw [htokens]
    simp only [rowTokens, List.map_nil, List.sum_nil]
    omega
  · exact hsame.2

theorem grown_record (l : Ledger) (row : AuditRow) (succeeded : Option Bool) (s : LedgerState) :
    s.Grown (l.record row succeeded s).2.2 := by
  obtain ⟨hcalls, -, htokens, -⟩ := Ledger.record_counts l row succeeded s
  have hheld : (l.held s).audit = s.audit ∧ (l.held s).settledCalls = s.settledCalls ∧
      (l.held s).settledTokens = s.settledTokens ∧ (l.held s).settledAudit = s.settledAudit := by
    unfold Ledger.held
    split <;> exact ⟨rfl, rfl, rfl, rfl⟩
  have hjudge : ∀ s : LedgerState, (Ledger.judge succeeded s).audit = s.audit ∧
      (Ledger.judge succeeded s).settledCalls = s.settledCalls ∧
      (Ledger.judge succeeded s).settledTokens = s.settledTokens ∧
      (Ledger.judge succeeded s).settledAudit = s.settledAudit := by
    intro s
    obtain _ | _ | _ := succeeded <;> exact ⟨rfl, rfl, rfl, rfl⟩
  have hannounce : ∀ s : LedgerState, (Ledger.announce s).2.audit = s.audit ∧
      (Ledger.announce s).2.settledCalls = s.settledCalls ∧
      (Ledger.announce s).2.settledTokens = s.settledTokens ∧
      (Ledger.announce s).2.settledAudit = s.settledAudit := by
    intro s
    unfold Ledger.announce
    split <;> exact ⟨rfl, rfl, rfl, rfl⟩
  have haudit : (l.record row succeeded s).2.2.audit =
      if s.audit.length < maxAuditRows then s.audit ++ [row] else s.audit := by
    simp only [Ledger.record, hannounce, hjudge]
    simp only [Ledger.charge, hheld.1]
  constructor
  · rw [hcalls]
    omega
  · rw [haudit, htokens]
    split
    · refine ⟨[row], rfl, ?_⟩
      simp only [rowTokens, List.map_cons, List.map_nil, List.sum_cons, List.sum_nil]
      omega
    · refine ⟨[], (List.append_nil _).symm, ?_⟩
      simp only [rowTokens, List.map_nil, List.sum_nil]
      omega
  · simp only [Ledger.record, hannounce, hjudge]
    exact hheld.2

theorem grown_turn (w : Sharing) (t : SharedTurn) : w.file.Grown (w.turn t).file := by
  cases t with
  | admitCall process estimate => exact grown_admit _ _ _
  | record process row succeeded => exact grown_record _ _ _ _
  | forReserve process child =>
    exact ⟨le_rfl, ⟨[], (List.append_nil _).symm, by simp [rowTokens, Sharing.turn]⟩, rfl, rfl, rfl⟩

/-! ## What is settled -/

/-- The file says settled what was charged, `calls` and `tokens`, with what is on its way; the audit rows
that are not settled carry no more than the tokens that are not. -/
structure Booked (calls tokens : Nat) (pending : Option Pending) (s : LedgerState) : Prop where
  calls_eq : s.settledCalls = calls + (pending.elim 0 Pending.calls : Nat)
  tokens_eq : s.settledTokens = tokens + (pending.elim 0 Pending.tokens : Nat)
  calls_le : s.settledCalls ≤ s.calls
  tokens_le : s.settledTokens ≤ s.inputTokens
  audit : ∃ settled taken rest, s.audit = settled ++ taken ++ rest ∧ s.settledAudit = settled.length + taken.length ∧
    s.settledTokens + rowTokens rest ≤ s.inputTokens ∧
    pending.elim (taken = []) fun p => taken = p.audit ∧ rowTokens p.audit ≤ p.tokens

variable {calls tokens : Nat} {pending : Option Pending} {p : Pending} {s s' : LedgerState}

theorem rowTokens_append (audit rows : List AuditRow) : rowTokens (audit ++ rows) = rowTokens audit + rowTokens rows := by
  simp [rowTokens]

theorem booked_create (maxCalls maxInputTokens : Int) (cap : Option Int) (used : Int) (calls tokens : Nat) :
    Booked calls tokens none (.create maxCalls maxInputTokens cap used calls tokens) where
  calls_eq := by simp [LedgerState.create]
  tokens_eq := by simp [LedgerState.create]
  calls_le := le_rfl
  tokens_le := le_rfl
  audit := ⟨[], [], [], rfl, rfl, by simp [LedgerState.create, rowTokens], rfl⟩

theorem Booked.grown (h : Booked calls tokens pending s) (hgrown : s.Grown s') : Booked calls tokens pending s' := by
  obtain ⟨hcalls, htokens, haudit⟩ := hgrown.settled
  obtain ⟨rows, hrows, hmore⟩ := hgrown.audit
  obtain ⟨settled, taken, rest, hsplit, hdone, hrest, hpending⟩ := h.audit
  constructor
  · rw [hcalls]
    exact h.calls_eq
  · rw [htokens]
    exact h.tokens_eq
  · rw [hcalls]
    exact h.calls_le.trans hgrown.calls
  · have hle := h.tokens_le
    rw [htokens]
    omega
  · refine ⟨settled, taken, rest ++ rows, by rw [hrows, hsplit, List.append_assoc], by rw [haudit, hdone], ?_, hpending⟩
    rw [htokens, rowTokens_append]
    omega

theorem Booked.take (h : Booked calls tokens none s) :
    Booked calls tokens (some s.takeUnsettled.1) s.takeUnsettled.2 := by
  obtain ⟨settled, taken, rest, hsplit, hdone, hrest, rfl⟩ := h.audit
  rw [List.append_nil] at hsplit
  rw [List.length_nil] at hdone
  have hcalls := h.calls_eq
  have htokens := h.tokens_eq
  have hcallsLe := h.calls_le
  have htokensLe := h.tokens_le
  simp only [Option.elim_none] at hcalls htokens
  have hrows : s.audit.drop (min s.audit.length s.settledAudit.toNat) = rest := by
    have hmin : min s.audit.length s.settledAudit.toNat = settled.length := by
      rw [hsplit, List.length_append]
      omega
    rw [hmin, hsplit, List.drop_left]
  constructor
  · simp only [LedgerState.takeUnsettled, Option.elim_some]
    omega
  · simp only [LedgerState.takeUnsettled, Option.elim_some]
    omega
  · simp only [LedgerState.takeUnsettled]
    omega
  · simp only [LedgerState.takeUnsettled]
    omega
  · refine ⟨settled, rest, [], ?_, ?_, ?_, ?_, ?_⟩
    · rw [List.append_nil]
      exact hsplit
    · simp only [LedgerState.takeUnsettled, hsplit, List.length_append]
      push_cast
      rfl
    · simp only [LedgerState.takeUnsettled, rowTokens, List.map_nil, List.sum_nil]
      omega
    · exact hrows.symm
    · simp only [LedgerState.takeUnsettled, hrows]
      omega

theorem Booked.land (h : Booked calls tokens (some p) s) : Booked (calls + p.calls) (tokens + p.tokens) none s := by
  obtain ⟨settled, taken, rest, hsplit, hdone, hrest, -, -⟩ := h.audit
  constructor
  · rw [h.calls_eq]
    simp
  · rw [h.tokens_eq]
    simp
  · exact h.calls_le
  · exact h.tokens_le
  · refine ⟨settled ++ taken, [], rest, by rw [List.append_nil, hsplit], ?_, hrest, rfl⟩
    rw [hdone, List.length_append, List.length_nil]
    push_cast
    omega

theorem Booked.fail (h : Booked calls tokens (some p) s) : Booked calls tokens none (s.restoreUnsettled p) := by
  obtain ⟨settled, taken, rest, hsplit, hdone, hrest, rfl, hfits⟩ := h.audit
  have hcalls := h.calls_eq
  have htokens := h.tokens_eq
  have hcallsLe := h.calls_le
  have htokensLe := h.tokens_le
  simp only [Option.elim_some] at hcalls htokens
  constructor
  · simp only [LedgerState.restoreUnsettled, Option.elim_none]
    omega
  · simp only [LedgerState.restoreUnsettled, Option.elim_none]
    omega
  · simp only [LedgerState.restoreUnsettled]
    omega
  · simp only [LedgerState.restoreUnsettled]
    omega
  · refine ⟨settled, [], p.audit ++ rest, ?_, ?_, ?_, rfl⟩
    · rw [List.append_nil, ← List.append_assoc]
      exact hsplit
    · simp only [LedgerState.restoreUnsettled, List.length_nil]
      omega
    · rw [rowTokens_append]
      simp only [LedgerState.restoreUnsettled]
      omega

/-! ## The documents -/

structure AttemptRow where
  month : String
  calls : Nat
  inputTokens : Nat
  byKind : ByKind
deriving DecidableEq

/-- The month documents of a workspace, and the rows of one of its tasks by generation. -/
structure Usage where
  months : Dict String Nat
  rows : Dict Nat AttemptRow

namespace Usage

/-- `FirestoreMonthlyLedger.settle_attempt`, past its fence. -/
def settleAttempt (month : String) (generation : Nat) (p : Pending) (u : Usage) : Usage :=
  let row := (u.rows.lookup generation).getD ⟨month, 0, 0, []⟩
  { months := if p.tokens = 0 then u.months else u.months.set month ((u.months.lookup month).getD 0 + p.tokens)
    rows := u.rows.set generation
      { month := month
        calls := row.calls + p.calls
        inputTokens := row.inputTokens + p.tokens
        byKind := mergeByKind row.byKind (splitByKind p.audit p.calls p.tokens) } }

def charged (u : Usage) : Nat := u.months.total fun _ tokens => tokens

def callsSpent (u : Usage) : Nat := u.rows.total fun _ row => row.calls

def tokensSpent (u : Usage) : Nat := u.rows.total fun _ row => row.inputTokens

/-- A row files all its tokens by kind, and no fewer calls than it has. -/
def Filed (row : AttemptRow) : Prop := tokensOf row.byKind = row.inputTokens ∧ row.calls ≤ callsOf row.byKind

variable {u : Usage}

theorem charged_settleAttempt (month : String) (generation : Nat) (p : Pending) (u : Usage) :
    (u.settleAttempt month generation p).charged = u.charged + p.tokens := by
  simp only [settleAttempt, charged]
  split
  · omega
  · have htotal := Dict.total_set (fun _ tokens => tokens) u.months month ((u.months.lookup month).getD 0 + p.tokens)
    cases hold : u.months.lookup month with
    | none =>
      simp only [hold, Option.elim_none, Option.getD_none] at htotal ⊢
      omega
    | some old =>
      simp only [hold, Option.elim_some, Option.getD_some] at htotal ⊢
      omega

theorem spent_settleAttempt (month : String) (generation : Nat) (p : Pending) (u : Usage) :
    (u.settleAttempt month generation p).callsSpent = u.callsSpent + p.calls ∧
      (u.settleAttempt month generation p).tokensSpent = u.tokensSpent + p.tokens := by
  simp only [settleAttempt, callsSpent, tokensSpent]
  have hcalls := Dict.total_set (fun _ (row : AttemptRow) => row.calls) u.rows generation
  have htokens := Dict.total_set (fun _ (row : AttemptRow) => row.inputTokens) u.rows generation
  cases hold : u.rows.lookup generation with
  | none =>
    simp only [hold, Option.elim_none, Option.getD_none] at hcalls htokens ⊢
    constructor
    · have hset := hcalls ⟨month, 0 + p.calls, 0 + p.tokens, mergeByKind [] (splitByKind p.audit p.calls p.tokens)⟩
      simp only at hset
      omega
    · have hset := htokens ⟨month, 0 + p.calls, 0 + p.tokens, mergeByKind [] (splitByKind p.audit p.calls p.tokens)⟩
      simp only at hset
      omega
  | some row =>
    simp only [hold, Option.elim_some, Option.getD_some] at hcalls htokens ⊢
    constructor
    · have hset := hcalls
        ⟨month, row.calls + p.calls, row.inputTokens + p.tokens, mergeByKind row.byKind (splitByKind p.audit p.calls p.tokens)⟩
      simp only at hset
      omega
    · have hset := htokens
        ⟨month, row.calls + p.calls, row.inputTokens + p.tokens, mergeByKind row.byKind (splitByKind p.audit p.calls p.tokens)⟩
      simp only at hset
      omega

theorem filed_settleAttempt (month : String) (generation : Nat) {p : Pending} (hp : rowTokens p.audit ≤ p.tokens)
    (h : ∀ g row, u.rows.lookup g = some row → Filed row) :
    ∀ g row, (u.settleAttempt month generation p).rows.lookup g = some row → Filed row := by
  intro g row hrow
  simp only [settleAttempt, Dict.lookup_set] at hrow
  split at hrow
  · obtain ⟨hsplitTokens, hsplitCalls⟩ := splitByKind_sums p.calls hp
    have hold : Filed ((u.rows.lookup generation).getD ⟨month, 0, 0, []⟩) := by
      cases hlookup : u.rows.lookup generation with
      | none => exact ⟨rfl, le_rfl⟩
      | some old => exact h generation old hlookup
    obtain ⟨htokens, hcalls⟩ := hold
    obtain ⟨hmergeCalls, hmergeTokens⟩ := mergeByKind_sums
      ((u.rows.lookup generation).getD ⟨month, 0, 0, []⟩).byKind (splitByKind p.audit p.calls p.tokens)
    obtain rfl := Option.some.inj hrow
    simp only [Filed]
    omega
  · exact h g row hrow

end Usage

/-! ## The attempts of a task -/

structure Attempt where
  sharing : Sharing
  pending : Option Pending

/-- `current` is the generation the fence lets through. -/
structure TaskSpend where
  usage : Usage
  current : Nat
  attempts : Nat → Attempt

/-- What a task's ledger is made with. -/
structure Limits where
  maxCalls : Int
  maxInputTokens : Int
  cap : Option Int
  monthUsed : Int
  grants : Nat → Option Grant

namespace TaskSpend

/-- A first ledger, or the one of the next attempt: the rows' calls and tokens carried, as settled. -/
def carried (limits : Limits) (u : Usage) : Attempt :=
  ⟨.start (.create limits.maxCalls limits.maxInputTokens limits.cap limits.monthUsed u.callsSpent u.tokensSpent)
    limits.grants, none⟩

def start (limits : Limits) (months : Dict String Nat) : TaskSpend :=
  ⟨⟨months, []⟩, 0, fun _ => carried limits ⟨months, []⟩⟩

inductive Act
  | call (generation : Nat) (turn : SharedTurn)
  | take (generation : Nat)
  | land (generation : Nat) (month : String)
  | fail (generation : Nat)
  | next (generation : Nat) (limits : Limits)

def setAttempt (w : TaskSpend) (generation : Nat) (attempt : Attempt) : TaskSpend :=
  { w with attempts := Function.update w.attempts generation attempt }

/-- An attempt may go on after another has replaced it; its settle no longer lands. -/
inductive Step : TaskSpend → Act → TaskSpend → Prop
  | call (w : TaskSpend) (g : Nat) (t : SharedTurn) :
      Step w (.call g t) (w.setAttempt g { w.attempts g with sharing := (w.attempts g).sharing.turn t })
  | take {w : TaskSpend} {g : Nat} : (w.attempts g).pending = none →
      Step w (.take g) (w.setAttempt g
        ⟨{ (w.attempts g).sharing with file := (w.attempts g).sharing.file.takeUnsettled.2 },
          some (w.attempts g).sharing.file.takeUnsettled.1⟩)
  | land {w : TaskSpend} {g : Nat} {p : Pending} (month : String) : (w.attempts g).pending = some p → g = w.current →
      Step w (.land g month) { w.setAttempt g { w.attempts g with pending := none } with
        usage := w.usage.settleAttempt month g p }
  | fail {w : TaskSpend} {g : Nat} {p : Pending} : (w.attempts g).pending = some p →
      Step w (.fail g) (w.setAttempt g
        ⟨{ (w.attempts g).sharing with file := (w.attempts g).sharing.file.restoreUnsettled p }, none⟩)
  | next {w : TaskSpend} {g : Nat} (limits : Limits) : w.current < g →
      Step w (.next g limits) { w.setAttempt g (carried limits w.usage) with current := g }

structure Sound (base : Nat) (w : TaskSpend) : Prop where
  charged : w.usage.charged = base + w.usage.tokensSpent
  filed : ∀ g row, w.usage.rows.lookup g = some row → Usage.Filed row
  booked : Booked w.usage.callsSpent w.usage.tokensSpent (w.attempts w.current).pending
    (w.attempts w.current).sharing.file

variable {base : Nat} {w w' : TaskSpend} {act : Act} {limits : Limits} {months : Dict String Nat}

theorem sound_start : Sound (months.total fun _ tokens => tokens) (start limits months) where
  charged := rfl
  filed := nofun
  booked := booked_create _ _ _ _ 0 0

/-- An attempt that goes on for itself, the current one with its books right. -/
theorem Sound.setAttempt (h : Sound base w) {g : Nat} {attempt : Attempt}
    (hbooked : Booked w.usage.callsSpent w.usage.tokensSpent (w.attempts g).pending (w.attempts g).sharing.file →
      Booked w.usage.callsSpent w.usage.tokensSpent attempt.pending attempt.sharing.file) :
    Sound base (w.setAttempt g attempt) := by
  refine ⟨h.charged, h.filed, ?_⟩
  simp only [TaskSpend.setAttempt, Function.update_apply]
  split
  · rename_i heq
    refine hbooked ?_
    rw [← heq]
    exact h.booked
  · exact h.booked

theorem Sound.step (h : Sound base w) (hstep : Step w act w') : Sound base w' := by
  cases hstep with
  | call g t => exact h.setAttempt fun hbooked => hbooked.grown (grown_turn _ t)
  | take hpending =>
    refine h.setAttempt fun hbooked => ?_
    rw [hpending] at hbooked
    exact hbooked.take
  | fail hpending =>
    refine h.setAttempt fun hbooked => ?_
    rw [hpending] at hbooked
    exact hbooked.fail
  | land month hpending hcurrent =>
    rename_i g p
    subst hcurrent
    have hbooked := h.booked
    rw [hpending] at hbooked
    obtain ⟨settled, taken, rest, hsplit, hdone, hrest, htaken, hfits⟩ := hbooked.audit
    obtain ⟨hcalls, htokens⟩ := w.usage.spent_settleAttempt month w.current p
    constructor
    · have hcharged := h.charged
      simp only [Usage.charged_settleAttempt, htokens]
      omega
    · exact Usage.filed_settleAttempt month w.current hfits h.filed
    · simp only [TaskSpend.setAttempt, Function.update_self, hcalls, htokens]
      exact hbooked.land
  | next limits _ =>
    rename_i g hlater
    refine ⟨h.charged, h.filed, ?_⟩
    simp only [TaskSpend.setAttempt, Function.update_self]
    exact booked_create _ _ _ _ _ _

end TaskSpend

end SwarmCloud.Judge
