import Mathlib.Data.List.Induction
import SwarmCloud.Judge.Ledger
import SwarmCloud.Lib.Dict

/-! # What a settle charges, by kind

`judge/budget.py`, `split_by_kind` and `_merge_by_kind`: the audit rows of one
settle summed by their kind, and one settle's split added to what the row of the
attempt already says. The tokens of a split are the tokens settled, whatever the
audit kept of them.
-/

namespace SwarmCloud.Judge

open Lib

def unattributedKind : String := "unattributed"

def skippedPrefix : String := "skipped:"

structure KindEntry where
  calls : Nat
  inputTokens : Nat
  outputTokens : Option Nat
  outcomes : Option (Dict String Nat)
deriving DecidableEq

abbrev ByKind := Dict String KindEntry

/-- `_outcome`. -/
def outcomeOf (outcome : String) : String :=
  if outcome = "ok" ∨ skippedPrefix.isPrefixOf outcome then outcome else "failed"

def isSkip (row : AuditRow) : Bool := skippedPrefix.isPrefixOf (outcomeOf row.outcome)

def kindOf (row : AuditRow) : String := if row.kind = "" then unattributedKind else row.kind

/-- The entry of a kind with one more row. -/
def KindEntry.add (row : AuditRow) (entry : KindEntry) : KindEntry :=
  let outcomes := entry.outcomes.getD []
  let outcome := outcomeOf row.outcome
  { calls := if isSkip row then entry.calls else entry.calls + 1
    inputTokens := entry.inputTokens + row.inputTokens
    outputTokens := match row.outputTokens with
      | none => entry.outputTokens
      | some tokens => some (entry.outputTokens.getD 0 + tokens)
    outcomes := some (outcomes.set outcome ((outcomes.lookup outcome).getD 0 + 1)) }

def splitRow (split : ByKind) (row : AuditRow) : ByKind :=
  split.set (kindOf row) (((split.lookup (kindOf row)).getD ⟨0, 0, none, some []⟩).add row)

def callsOf (split : ByKind) : Nat := split.total fun _ entry => entry.calls

def tokensOf (split : ByKind) : Nat := split.total fun _ entry => entry.inputTokens

/-- `split_by_kind`: what is spent beyond the rows is unattributed. -/
def splitByKind (audit : List AuditRow) (calls tokens : Nat) : ByKind :=
  let split := audit.foldl splitRow []
  let restCalls := calls - callsOf split
  let restTokens := tokens - tokensOf split
  if 0 < restCalls ∨ 0 < restTokens then
    let entry := (split.lookup unattributedKind).getD ⟨0, 0, none, none⟩
    split.set unattributedKind
      { entry with calls := entry.calls + restCalls, inputTokens := entry.inputTokens + restTokens }
  else split

def mergedOutcomes (old added : Option (Dict String Nat)) : Option (Dict String Nat) :=
  match old, added with
  | none, none => none
  | _, _ => some ((old.getD [] ++ added.getD []).foldl
      (fun outcomes item => outcomes.set item.1 ((outcomes.lookup item.1).getD 0 + item.2)) [])

def mergeKind (merged : ByKind) (item : String × KindEntry) : ByKind :=
  let old := (merged.lookup item.1).getD ⟨0, 0, none, none⟩
  merged.set item.1
    { calls := old.calls + item.2.calls
      inputTokens := old.inputTokens + item.2.inputTokens
      outputTokens := match old.outputTokens, item.2.outputTokens with
        | none, none => none
        | old, added => some (old.getD 0 + added.getD 0)
      outcomes := mergedOutcomes old.outcomes item.2.outcomes }

/-- `_merge_by_kind`. -/
def mergeByKind (before added : ByKind) : ByKind := added.foldl mergeKind before

/-! ## The sums -/

def rowCalls (audit : List AuditRow) : Nat := (audit.filter fun row => !isSkip row).length

def rowTokens (audit : List AuditRow) : Nat := (audit.map AuditRow.inputTokens).sum

/-- Setting a key to its entry with an amount more adds the amount. -/
theorem total_set_add (w : KindEntry → Nat) (split : ByKind) (k : String) (fresh entry : KindEntry) (hfresh : w fresh = 0)
    (n : Nat) (hentry : w entry = w ((split.lookup k).getD fresh) + n) :
    Dict.total (fun _ => w) (split.set k entry) = Dict.total (fun _ => w) split + n := by
  have htotal := Dict.total_set (fun _ => w) split k entry
  cases hold : split.lookup k with
  | none =>
    simp only [hold, Option.elim_none, Option.getD_none] at htotal hentry
    omega
  | some old =>
    simp only [hold, Option.elim_some, Option.getD_some] at htotal hentry
    omega

theorem callsOf_splitRow (split : ByKind) (row : AuditRow) :
    callsOf (splitRow split row) = callsOf split + if isSkip row then 0 else 1 := by
  refine total_set_add KindEntry.calls split _ ⟨0, 0, none, some []⟩ _ rfl _ ?_
  simp only [KindEntry.add]
  split <;> rfl

theorem tokensOf_splitRow (split : ByKind) (row : AuditRow) :
    tokensOf (splitRow split row) = tokensOf split + row.inputTokens :=
  total_set_add KindEntry.inputTokens split _ ⟨0, 0, none, some []⟩ _ rfl _ rfl

theorem callsOf_rows (audit : List AuditRow) : callsOf (audit.foldl splitRow []) = rowCalls audit := by
  induction audit using List.reverseRecOn with
  | nil => rfl
  | append_singleton audit row ih =>
    rw [List.foldl_append, List.foldl_cons, List.foldl_nil, callsOf_splitRow, ih, rowCalls, rowCalls, List.filter_append,
      List.length_append]
    cases hskip : isSkip row <;> simp [hskip]

theorem tokensOf_rows (audit : List AuditRow) : tokensOf (audit.foldl splitRow []) = rowTokens audit := by
  induction audit using List.reverseRecOn with
  | nil => rfl
  | append_singleton audit row ih =>
    rw [List.foldl_append, List.foldl_cons, List.foldl_nil, tokensOf_splitRow, ih]
    simp [rowTokens]

/-- A split files every token settled, and no fewer calls than were settled. -/
theorem splitByKind_sums {audit : List AuditRow} (calls : Nat) {tokens : Nat} (h : rowTokens audit ≤ tokens) :
    tokensOf (splitByKind audit calls tokens) = tokens ∧
      callsOf (splitByKind audit calls tokens) = max calls (rowCalls audit) := by
  have hcalls := callsOf_rows audit
  have htokens := tokensOf_rows audit
  unfold splitByKind
  dsimp only
  split
  · constructor
    · rw [tokensOf, total_set_add KindEntry.inputTokens _ _ ⟨0, 0, none, none⟩ _ rfl _ rfl]
      change tokensOf _ + _ = _
      omega
    · rw [callsOf, total_set_add KindEntry.calls _ _ ⟨0, 0, none, none⟩ _ rfl _ rfl]
      change callsOf _ + _ = _
      omega
  · omega

theorem mergeByKind_sums (before added : ByKind) :
    callsOf (mergeByKind before added) = callsOf before + callsOf added ∧
      tokensOf (mergeByKind before added) = tokensOf before + tokensOf added := by
  induction added generalizing before with
  | nil => exact ⟨rfl, rfl⟩
  | cons item added ih =>
    obtain ⟨hcalls, htokens⟩ := ih (mergeKind before item)
    have hcallsItem : callsOf (mergeKind before item) = callsOf before + item.2.calls :=
      total_set_add KindEntry.calls before _ ⟨0, 0, none, none⟩ _ rfl _ rfl
    have htokensItem : tokensOf (mergeKind before item) = tokensOf before + item.2.inputTokens :=
      total_set_add KindEntry.inputTokens before _ ⟨0, 0, none, none⟩ _ rfl _ rfl
    have hconsCalls : callsOf (item :: added) = item.2.calls + callsOf added := List.sum_cons
    have hconsTokens : tokensOf (item :: added) = item.2.inputTokens + tokensOf added := List.sum_cons
    rw [mergeByKind, List.foldl_cons, ← mergeByKind]
    omega

end SwarmCloud.Judge
