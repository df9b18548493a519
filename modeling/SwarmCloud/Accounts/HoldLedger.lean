import Mathlib.Data.List.Nodup
import SwarmCloud.Accounts.Holds
import SwarmCloud.Lib.Runs

/-! # Holds and their records stay in step

Every transaction drops some holds of the store, closing their records, and
adds one at most, opening its record (`Effect`). From that alone follow the
count of each document, the single place of each assignment and the log.
-/

namespace SwarmCloud.Accounts

open Common Lib

def Account.ids (a : Account) : List String := a.holds.map Hold.assignmentId

namespace Store

/-- The assignments on an account, none where there is no document. -/
def ids (st : Store) (accountId : String) : List String := (st.account accountId).elim [] Account.ids

/-- What a transaction does to the holds and to their records: some are dropped and
closed, one at most is added and opened. -/
structure Effect (st st' : Store) (closed : String → Prop) (opened : Option (String × String)) : Prop where
  mem : ∀ acc id, id ∈ st'.ids acc ↔ id ∈ st.ids acc ∧ ¬ closed id ∨ opened = some (acc, id)
  nodup : ∀ acc, (st'.ids acc).Nodup
  counts : ∀ acc a', st'.account acc = some a' → a'.assigned = a'.holds.length ∨
    ∃ a, st.account acc = some a ∧ a'.assigned = a.assigned ∧ a'.holds.length = a.holds.length
  held : ∀ id, closed id → ∃ acc, id ∈ st.ids acc
  fresh : ∀ acc id, opened = some (acc, id) → st.log.lookup id = none
  log_closed : ∀ id, closed id → ∃ record, st'.log.lookup id = some record ∧ record.ending ≠ none
  log_opened : ∀ acc id, opened = some (acc, id) →
    ∃ record, st'.log.lookup id = some record ∧ record.ending = none ∧ record.accountId = acc
  log_else : ∀ id, ¬ closed id → (∀ acc, opened ≠ some (acc, id)) → st'.log.lookup id = st.log.lookup id

/-- The holds, the counts and the log agree. -/
structure InStep (st : Store) : Prop where
  nodup : ∀ acc, (st.ids acc).Nodup
  counts : ∀ acc a, st.account acc = some a → a.assigned = a.holds.length
  logged : ∀ acc, ∀ id ∈ st.ids acc, ∃ record, st.log.lookup id = some record ∧ record.ending = none ∧
    record.accountId = acc
  held : ∀ id record, st.log.lookup id = some record → record.ending = none → id ∈ st.ids record.accountId

section Effect

variable {st st' st'' : Store} {closed closed' : String → Prop} {opened : Option (String × String)}

theorem InStep.unique (h : st.InStep) {acc acc' id : String} (hin : id ∈ st.ids acc) (hin' : id ∈ st.ids acc') :
    acc = acc' := by
  obtain ⟨record, hrecord, -, rfl⟩ := h.logged acc id hin
  obtain ⟨record', hrecord', -, rfl⟩ := h.logged acc' id hin'
  rw [hrecord] at hrecord'
  rw [Option.some.inj hrecord']

theorem InStep.not_held (h : st.InStep) {id : String} (hfresh : st.log.lookup id = none) (acc : String) :
    id ∉ st.ids acc := by
  intro hin
  obtain ⟨record, hrecord, -⟩ := h.logged acc id hin
  rw [hfresh] at hrecord
  cases hrecord

theorem Effect.refl (h : st.InStep) : Effect st st (fun _ => False) none where
  mem := by simp
  nodup := h.nodup
  counts := fun _ a' ha' => .inr ⟨a', ha', rfl, rfl⟩
  held := by simp
  fresh := by simp
  log_closed := by simp
  log_opened := by simp
  log_else := fun _ _ _ => rfl

/-- A record that has an end is not written again. -/
theorem Effect.closed_kept (heffect : Effect st st' closed opened) (h : st.InStep) {id : String}
    {record : HoldRecord} (hrecord : st.log.lookup id = some record) (hended : record.ending ≠ none) :
    st'.log.lookup id = some record := by
  rw [← hrecord]
  apply heffect.log_else
  · intro hin
    obtain ⟨acc, hheld⟩ := heffect.held id hin
    obtain ⟨record', hrecord', hopen, -⟩ := h.logged acc id hheld
    rw [hrecord] at hrecord'
    exact hended (Option.some.inj hrecord' ▸ hopen)
  · intro acc hopened
    rw [heffect.fresh acc id hopened] at hrecord
    cases hrecord

theorem Effect.inStep (heffect : Effect st st' closed opened) (h : st.InStep) : st'.InStep where
  nodup := heffect.nodup
  counts := by
    intro acc a' ha'
    obtain hcount | ⟨a, ha, hassigned, hlength⟩ := heffect.counts acc a' ha'
    · exact hcount
    · rw [hassigned, hlength]
      exact h.counts acc a ha
  logged := by
    intro acc id hid
    obtain ⟨hheld, hkept⟩ | hopened := (heffect.mem acc id).mp hid
    · obtain ⟨record, hrecord, hrest⟩ := h.logged acc id hheld
      refine ⟨record, ?_, hrest⟩
      rw [heffect.log_else id hkept, hrecord]
      intro acc' hopened
      exact h.not_held (heffect.fresh acc' id hopened) acc hheld
    · exact heffect.log_opened acc id hopened
  held := by
    intro id record hrecord hopen
    by_cases hclosed : closed id
    · obtain ⟨record', hrecord', hended⟩ := heffect.log_closed id hclosed
      rw [hrecord] at hrecord'
      exact absurd (Option.some.inj hrecord' ▸ hopen) hended
    · by_cases hopened : ∃ acc, opened = some (acc, id)
      · obtain ⟨acc, hopened⟩ := hopened
        obtain ⟨record', hrecord', -, rfl⟩ := heffect.log_opened acc id hopened
        rw [hrecord] at hrecord'
        rw [Option.some.inj hrecord']
        exact (heffect.mem _ id).mpr (.inr hopened)
      · rw [heffect.log_else id hclosed fun acc hacc => hopened ⟨acc, hacc⟩] at hrecord
        exact (heffect.mem _ id).mpr (.inl ⟨h.held id record hrecord hopen, hclosed⟩)

/-- Dropping some holds, and then others while adding one. -/
theorem Effect.trans (hfirst : Effect st st' closed none) (hthen : Effect st' st'' closed' opened)
    (hfresh : ∀ acc id, opened = some (acc, id) → st.log.lookup id = none) :
    Effect st st'' (fun id => closed id ∨ closed' id) opened where
  mem := by
    intro acc id
    rw [hthen.mem, hfirst.mem]
    simp only [reduceCtorEq, or_false, not_or, and_assoc]
  nodup := hthen.nodup
  counts := by
    intro acc a'' ha''
    obtain hcount | ⟨a', ha', hassigned, hlength⟩ := hthen.counts acc a'' ha''
    · exact .inl hcount
    · obtain hcount | ⟨a, ha, hassigned', hlength'⟩ := hfirst.counts acc a' ha'
      · exact .inl (by rw [hassigned, hlength, hcount])
      · exact .inr ⟨a, ha, hassigned.trans hassigned', hlength.trans hlength'⟩
  held := by
    rintro id (hid | hid)
    · exact hfirst.held id hid
    · obtain ⟨acc, hin⟩ := hthen.held id hid
      obtain ⟨hin, -⟩ | hopened := (hfirst.mem acc id).mp hin
      · exact ⟨acc, hin⟩
      · cases hopened
  fresh := hfresh
  log_closed := by
    rintro id (hid | hid)
    · by_cases hagain : closed' id
      · exact hthen.log_closed id hagain
      · obtain ⟨record, hrecord, hended⟩ := hfirst.log_closed id hid
        refine ⟨record, ?_, hended⟩
        rw [hthen.log_else id hagain, hrecord]
        intro acc hopened
        rw [hthen.fresh acc id hopened] at hrecord
        cases hrecord
    · exact hthen.log_closed id hid
  log_opened := hthen.log_opened
  log_else := by
    intro id hid hopened
    rw [not_or] at hid
    rw [hthen.log_else id hid.2 hopened, hfirst.log_else id hid.1 fun acc h => by cases h]

end Effect

/-! ## The writes -/

section Writes

variable {st : Store} {acc : String} {closing : Hold → Closing} {holds : List Hold}

theorem account_update (st : Store) (acc : String) (a : Account) (acc' : String) :
    (st.update acc a).account acc' = if acc' = acc then some a else st.account acc' :=
  Dict.lookup_set st.accounts acc acc' a

theorem close_accounts : (st.close acc closing holds).accounts = st.accounts := by
  induction holds generalizing st with
  | nil => rfl
  | cons h holds ih => exact ih

/-- The log after a close: the last of the closed holds of that id, else what it was. -/
theorem lookup_close (id : String) :
    (st.close acc closing holds).log.lookup id =
      ((holds.reverse.find? (·.assignmentId = id)).map fun h =>
        holdLogEntry h acc (some (closing h))).or (st.log.lookup id) := by
  induction holds generalizing st with
  | nil => rfl
  | cons h holds ih =>
    have hcons : st.close acc closing (h :: holds) =
        (st.setLog h.assignmentId (holdLogEntry h acc (some (closing h)))).close acc closing holds := rfl
    rw [hcons, ih, List.reverse_cons, List.find?_append]
    cases holds.reverse.find? (·.assignmentId = id) with
    | some h' => rfl
    | none =>
      simp only [Option.none_or, Option.map_none, setLog, Dict.lookup_set]
      by_cases hid : id = h.assignmentId
      · simp [hid]
      · simp [hid, Ne.symm hid]

theorem lookup_close_of_mem {id : String} (hid : id ∈ holds.map Hold.assignmentId) :
    ∃ record, (st.close acc closing holds).log.lookup id = some record ∧ record.ending ≠ none := by
  obtain ⟨h, hh, rfl⟩ := List.mem_map.mp hid
  have hfound : (holds.reverse.find? (·.assignmentId = h.assignmentId)).isSome := by
    rw [List.find?_isSome]
    exact ⟨h, List.mem_reverse.mpr hh, by simp⟩
  obtain ⟨h', hfind⟩ := Option.isSome_iff_exists.mp hfound
  refine ⟨holdLogEntry h' acc (some (closing h')), ?_, by simp [holdLogEntry]⟩
  rw [lookup_close, hfind]
  rfl

theorem lookup_close_of_not_mem {id : String} (hid : id ∉ holds.map Hold.assignmentId) :
    (st.close acc closing holds).log.lookup id = st.log.lookup id := by
  have hnone : holds.reverse.find? (·.assignmentId = id) = none := by
    rw [List.find?_eq_none]
    intro h hh heq
    exact hid (List.mem_map.mpr ⟨h, List.mem_reverse.mp hh, by simpa using heq⟩)
  rw [lookup_close, hnone]
  rfl

end Writes

/-! ## The transactions -/

section Transactions

variable {st st' : Store} {acc : String} {a a' : Account} {now : Instant}

theorem ids_of_account (ha : st.account acc = some a) : st.ids acc = a.ids := by
  rw [ids, ha]
  rfl

theorem ids_of_accounts (haccounts : st'.accounts = st.accounts.set acc a') (acc' : String) :
    st'.ids acc' = if acc' = acc then a'.ids else st.ids acc' := by
  have haccount : st'.account acc' = if acc' = acc then some a' else st.account acc' := by
    rw [account, haccounts, Dict.lookup_set]
    rfl
  rw [ids, haccount]
  split
  · rfl
  · rfl

/-- What is left after some holds are dropped, where no assignment stands twice. -/
theorem mem_kept_iff {holds : List Hold} (hnodup : (holds.map Hold.assignmentId).Nodup) (keep : Hold → Bool) (id : String) :
    id ∈ (holds.filter keep).map Hold.assignmentId ↔
      id ∈ holds.map Hold.assignmentId ∧ ¬ ∃ hold ∈ holds, keep hold = false ∧ hold.assignmentId = id := by
  have hinj := List.inj_on_of_nodup_map hnodup
  constructor
  · intro hid
    obtain ⟨hold, hmem, rfl⟩ := List.mem_map.mp hid
    obtain ⟨hin, hkeep⟩ := List.mem_filter.mp hmem
    refine ⟨List.mem_map_of_mem hin, ?_⟩
    rintro ⟨other, hother, hdrop, hsame⟩
    rw [hinj hother hin hsame, hkeep] at hdrop
    cases hdrop
  · rintro ⟨hid, hnot⟩
    obtain ⟨hold, hin, rfl⟩ := List.mem_map.mp hid
    refine List.mem_map.mpr ⟨hold, List.mem_filter.mpr ⟨hin, ?_⟩, rfl⟩
    by_contra hdrop
    exact hnot ⟨hold, hin, by simpa using hdrop, rfl⟩

theorem InStep.nodup_holds (h : st.InStep) (ha : st.account acc = some a) : (a.holds.map Hold.assignmentId).Nodup := by
  have hnodup := h.nodup acc
  rwa [ids_of_account ha] at hnodup

/-- The assignments after a document's holds are written: those that were kept, and the new one. -/
theorem InStep.mem_rewrite (h : st.InStep) (ha : st.account acc = some a) {keep : Hold → Bool} {new : Option String}
    (haccounts : st'.accounts = st.accounts.set acc a')
    (hids : a'.ids = (a.holds.filter keep).map Hold.assignmentId ++ new.toList) (acc' id : String) :
    id ∈ st'.ids acc' ↔
      id ∈ st.ids acc' ∧ ¬ (∃ hold ∈ a.holds, keep hold = false ∧ hold.assignmentId = id) ∨
        new.map (acc, ·) = some (acc', id) := by
  rw [ids_of_accounts haccounts]
  by_cases hacc : acc' = acc
  · subst hacc
    rw [if_pos rfl, hids, List.mem_append, mem_kept_iff (h.nodup_holds ha), ids_of_account ha, Account.ids]
    apply or_congr_right
    cases new with
    | none => simp
    | some new => simp [eq_comm]
  · rw [if_neg hacc]
    constructor
    · intro hid
      refine .inl ⟨hid, ?_⟩
      rintro ⟨hold, hin, -, rfl⟩
      apply hacc
      apply h.unique hid
      rw [ids_of_account ha]
      exact List.mem_map_of_mem hin
    · rintro (⟨hid, -⟩ | hnew)
      · exact hid
      · cases new with
        | none => cases hnew
        | some new => exact absurd (Prod.mk.inj (Option.some.inj hnew)).1.symm hacc

theorem InStep.nodup_rewrite (h : st.InStep) (ha : st.account acc = some a) {keep : Hold → Bool} {new : Option String}
    (haccounts : st'.accounts = st.accounts.set acc a')
    (hids : a'.ids = (a.holds.filter keep).map Hold.assignmentId ++ new.toList)
    (hfresh : ∀ id, new = some id → st.log.lookup id = none) (acc' : String) : (st'.ids acc').Nodup := by
  rw [ids_of_accounts haccounts]
  split
  · rw [hids, List.nodup_append]
    refine ⟨(h.nodup_holds ha).sublist (List.filter_sublist.map _), ?_, ?_⟩
    · cases new with
      | none => exact List.nodup_nil
      | some new => exact List.nodup_singleton new
    · intro id hid id' hid' heq
      rw [Option.mem_toList] at hid'
      apply h.not_held (hfresh id' hid') acc
      rw [ids_of_account ha, ← heq]
      exact ((mem_kept_iff (h.nodup_holds ha) keep id).mp hid).1
  · exact h.nodup acc'

/-- One document rewritten: the holds that are not kept are closed, and a new one is opened. -/
theorem Effect.rewrite (h : st.InStep) (ha : st.account acc = some a) (keep : Hold → Bool)
    (new : Option String) (haccounts : st'.accounts = st.accounts.set acc a')
    (hids : a'.ids = (a.holds.filter keep).map Hold.assignmentId ++ new.toList)
    (hcount : a'.assigned = a'.holds.length)
    (hfresh : ∀ id, new = some id → st.log.lookup id = none)
    (hclosed : ∀ hold ∈ a.holds, keep hold = false →
      ∃ record, st'.log.lookup hold.assignmentId = some record ∧ record.ending ≠ none)
    (hopened : ∀ id, new = some id →
      ∃ record, st'.log.lookup id = some record ∧ record.ending = none ∧ record.accountId = acc)
    (helse : ∀ id, (∀ hold ∈ a.holds, keep hold = false → hold.assignmentId ≠ id) → new ≠ some id →
      st'.log.lookup id = st.log.lookup id) :
    Effect st st' (fun id => ∃ hold ∈ a.holds, keep hold = false ∧ hold.assignmentId = id)
      (new.map (acc, ·)) := by
  constructor
  · exact h.mem_rewrite ha haccounts hids
  · exact h.nodup_rewrite ha haccounts hids hfresh
  · intro acc' b hb
    rw [account, haccounts, Dict.lookup_set] at hb
    split at hb
    · exact .inl (Option.some.inj hb ▸ hcount)
    · exact .inr ⟨b, hb, rfl, rfl⟩
  · rintro id ⟨hold, hin, -, rfl⟩
    exact ⟨acc, by rw [ids_of_account ha]; exact List.mem_map_of_mem hin⟩
  · intro acc' id hnew
    cases new with
    | none => cases hnew
    | some new =>
      obtain ⟨-, rfl⟩ := Prod.mk.inj (Option.some.inj hnew)
      exact hfresh _ rfl
  · rintro id ⟨hold, hin, hdrop, rfl⟩
    exact hclosed hold hin hdrop
  · intro acc' id hnew
    cases new with
    | none => cases hnew
    | some new =>
      obtain ⟨rfl, rfl⟩ := Prod.mk.inj (Option.some.inj hnew)
      exact hopened _ rfl
  · intro id hnot hnew
    refine helse id (fun hold hin hdrop heq => hnot ⟨hold, hin, hdrop, heq⟩) ?_
    rintro rfl
    exact hnew acc rfl

/-- A write that leaves the holds and the count of a document as they were. -/
theorem Effect.edit (h : st.InStep) (ha : st.account acc = some a) (hholds : a'.holds = a.holds)
    (hassigned : a'.assigned = a.assigned) :
    Effect st (st.update acc a') (fun _ => False) none := by
  have hafter : ∀ acc', (st.update acc a').ids acc' = st.ids acc' := by
    intro acc'
    rw [ids_of_accounts rfl]
    split
    · rename_i hacc
      rw [hacc, ids_of_account ha, Account.ids, hholds]
      rfl
    · rfl
  constructor
  · simp [hafter]
  · simpa [hafter] using h.nodup
  · intro acc' b hb
    rw [account_update] at hb
    split at hb
    · rename_i hacc
      obtain rfl := Option.some.inj hb
      exact .inr ⟨a, hacc ▸ ha, hassigned, by rw [hholds]⟩
    · exact .inr ⟨b, hb, rfl, rfl⟩
  · simp
  · simp
  · simp
  · simp
  · intro id _ _
    rfl

end Transactions

end Store

end SwarmCloud.Accounts
