import Mathlib.Data.List.Induction
import SwarmCloud.Judge.Ledger

/-! # A ledger that somebody else may rewrite

The agent can write the ledger's file. A process that holds a grant takes its own
counts as a floor and the grant as a ceiling, so whatever the file is made to say
between two of its calls, it admits no more calls and spends no more tokens than
the grant allows.
-/

namespace SwarmCloud.Judge

/-- A process, the file it finds, and what it has done itself. -/
structure Holder where
  ledger : Ledger
  file : LedgerState
  admitted : Nat
  spent : Nat

inductive Turn
  | admitCall (estimate : Int)
  | record (row : AuditRow) (succeeded : Option Bool)
  | forReserve
  | rewrite (file : LedgerState)

namespace Holder

def start (grant : Grant) (file : LedgerState) : Holder := ⟨.new (some grant), file, 0, 0⟩

def turn (p : Holder) : Turn → Holder
  | .admitCall estimate =>
    let answer := p.ledger.admitCall estimate p.file
    { p with
      ledger := answer.2.1, file := answer.2.2
      admitted := if answer.1 = none then p.admitted + 1 else p.admitted }
  | .record row succeeded =>
    let answer := p.ledger.record row succeeded p.file
    { p with ledger := answer.2.1, file := answer.2.2, spent := p.spent + row.inputTokens }
  | .forReserve => { p with ledger := p.ledger.forReserve }
  | .rewrite file => { p with file := file }

variable {grant : Grant} {p : Holder}

/-- The calls a grant leaves to a ledger. -/
def callsOf (grant : Grant) (reserve : Bool) : Nat := if reserve then grant.calls else grant.calls - 1

structure Within (grant : Grant) (p : Holder) : Prop where
  authority : p.ledger.authority = some grant
  calls : (p.admitted : Int) ≤ p.ledger.floorCalls
  tokens : (p.spent : Int) ≤ p.ledger.floorTokens
  admitted : p.admitted ≤ callsOf grant p.ledger.reserve

theorem within_start (grant : Grant) (file : LedgerState) : Within grant (start grant file) :=
  ⟨rfl, le_rfl, le_rfl, Nat.zero_le _⟩

theorem Within.admitCall (h : Within grant p) {estimate : Int} (hok : (p.ledger.admitCall estimate p.file).1 = none) :
    p.admitted + 1 ≤ callsOf grant p.ledger.reserve ∧
      (p.spent : Int) + Ledger.estimated estimate ≤
        p.ledger.tokenLimit (grant.inputTokens : Int) := by
  obtain ⟨-, hcalls, htokens, -, -⟩ := Ledger.admit_ok hok
  have hmaxCalls := (Ledger.held_maxCalls_le p.ledger p.file).2 grant h.authority
  have hmaxTokens := (Ledger.held_maxInputTokens_le p.ledger p.file).2 grant h.authority
  have hfloor := h.calls
  have hspent := h.tokens
  simp only [Ledger.callLimit, Ledger.tokenLimit, callsOf, reservedCalls] at hcalls htokens ⊢
  cases hreserve : p.ledger.reserve with
  | true =>
    simp only [hreserve, if_true] at hcalls htokens ⊢
    omega
  | false =>
    simp only [hreserve, Bool.false_eq_true, if_false] at hcalls htokens ⊢
    omega

theorem Within.turn (h : Within grant p) (t : Turn) : Within grant (p.turn t) := by
  cases t with
  | admitCall estimate =>
    obtain ⟨hcalls, hfloorCalls, htokens, hfloorTokens⟩ := Ledger.admit_counts p.ledger estimate p.file
    have hfloor := h.calls
    have hspent := h.tokens
    constructor
    · exact h.authority
    · simp only [Holder.turn]
      rw [hfloorCalls, hcalls]
      split <;> omega
    · simp only [Holder.turn]
      rw [hfloorTokens, htokens]
      omega
    · simp only [Holder.turn]
      split
      · rename_i hok
        exact (h.admitCall hok).1
      · exact h.admitted
  | record row succeeded =>
    obtain ⟨hcalls, hfloorCalls, htokens, hfloorTokens⟩ := Ledger.record_counts p.ledger row succeeded p.file
    have hfloor := h.calls
    have hspent := h.tokens
    constructor
    · exact h.authority
    · simp only [Holder.turn]
      rw [hfloorCalls, hcalls]
      omega
    · simp only [Holder.turn]
      rw [hfloorTokens, htokens]
      omega
    · exact h.admitted
  | forReserve =>
    refine ⟨h.authority, h.calls, h.tokens, h.admitted.trans ?_⟩
    simp only [callsOf, Holder.turn, Ledger.forReserve, if_true]
    split <;> omega
  | rewrite file => exact ⟨h.authority, h.calls, h.tokens, h.admitted⟩

/-- However the file is rewritten between its calls, a process stays within its grant: in the calls it has
admitted, and at every call it admits in the tokens it has spent with the call's estimate. -/
theorem authority_of_run (grant : Grant) (file : LedgerState) (turns : List Turn) :
    let p := turns.foldl turn (start grant file)
    p.admitted ≤ callsOf grant p.ledger.reserve ∧
      ∀ estimate, (p.ledger.admitCall estimate p.file).1 = none →
        p.admitted + 1 ≤ callsOf grant p.ledger.reserve ∧
          (p.spent : Int) + Ledger.estimated estimate ≤ p.ledger.tokenLimit (grant.inputTokens : Int) := by
  have h : Within grant (turns.foldl turn (start grant file)) := by
    induction turns using List.reverseRecOn with
    | nil => exact within_start grant file
    | append_singleton turns t ih =>
      rw [List.foldl_append]
      exact ih.turn t
  exact ⟨h.admitted, fun estimate hok => h.admitCall hok⟩

end Holder

end SwarmCloud.Judge
