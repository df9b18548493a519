import SwarmCloud.Admins.Roles

/-! # What an audit may say

Who holds admin, as the entries of the audit alone have it: each entry is a change that
its action makes, under the guards of that action, to what the entries before it left.
-/

namespace SwarmCloud.Admins

open Common Lib
open Accounts (Python)

variable {py : Python}

/-- What a role document says that its audit entry says too. -/
structure Holding where
  role : Role
  grantedBy : String
deriving DecidableEq, Repr

abbrev Holders := String → Option Holding

def Holders.roleOf (held : Holders) (email : String) : Option Role := (held email).map (·.role)

def nobody : Holders := fun _ => none

/-- How an entry changes who holds what, in a process whose configuration is in `office`. -/
inductive Amends (office : AdminRoles py → Prop) : Holders → Entry → Holders → Prop
  | seedOwner {held : Holders} {roles : AdminRoles py} {now : Instant} :
      office roles → roles.owner ≠ "" → held.roleOf roles.owner ≠ some .owner →
      Amends office held ⟨.seedOwner (held.roleOf roles.owner), roles.owner, configOwner, now⟩
        (Function.update held roles.owner (some ⟨.owner, configOwner⟩))
  | ownerChanged {held : Holders} {roles : AdminRoles py} {email : String} {now : Instant} :
      office roles → email ≠ roles.owner → held.roleOf email = some .owner →
      Amends office held ⟨.ownerChanged .owner .admin, email, configOwner, now⟩
        (Function.update held email (some ⟨.admin, configOwner⟩))
  | migrateNew {held : Holders} {roles : AdminRoles py} {email : String} {now : Instant} :
      office roles → email ∈ roles.migrants → held email = none →
      Amends office held ⟨.migrate true, email, configMigration, now⟩
        (Function.update held email (some ⟨.admin, configMigration⟩))
  | migrateOld {held : Holders} {roles : AdminRoles py} {email : String} {now : Instant} :
      office roles → email ∈ roles.migrants → held email ≠ none →
      Amends office held ⟨.migrate false, email, configMigration, now⟩ held
  | grant {held : Holders} {roles : AdminRoles py} {email : Email py} {caller : String} {now : Instant} :
      office roles → held email.text = none → roles.checkGrantable email.text = .ok () →
      (email.text = roles.owner → roles.isOwner caller = true) →
      Amends office held ⟨.grant .admin, email.text, caller, now⟩
        (Function.update held email.text (some ⟨.admin, caller⟩))
  | remove {held : Holders} {roles : AdminRoles py} {email : Email py} {role : Role} {caller other : String}
      {now : Instant} :
      office roles → held.roleOf email.text = some role → email.text ≠ roles.owner →
      (role = .owner → roles.isOwner caller = true) → other ≠ email.text → held other ≠ none →
      Amends office held ⟨.remove role, email.text, caller, now⟩ (Function.update held email.text none)

variable {office : AdminRoles py → Prop} {held held' : Holders} {entry : Entry} {entries : List Entry}

/-- The entries in the order of their commits, from when nobody held anything. -/
abbrev Audits (office : AdminRoles py → Prop) (entries : List Entry) (held : Holders) : Prop :=
  Run (Amends office) nobody entries held

theorem Email.text_ne (email : Email py) : email.text ≠ "" := by
  intro h
  have hemail := email.isEmail_text
  rw [h] at hemail
  simp [isEmail] at hemail

theorem migrants_ne {roles : AdminRoles py} {email : String} (h : email ∈ roles.migrants) :
    email ≠ "" ∧ email ≠ roles.owner := by
  obtain ⟨-, h⟩ := List.mem_filter.mp h
  rw [Bool.and_eq_true, decide_eq_true_eq] at h
  refine ⟨?_, h.1⟩
  rintro rfl
  simp [isEmail] at h

/-- An entry changes what its target holds, and nothing else. -/
theorem Amends.frame (h : Amends office held entry held') {email : String} (hne : email ≠ entry.targetEmail) :
    held' email = held email := by
  cases h with
  | migrateOld => rfl
  | _ => exact Function.update_of_ne hne _ _

theorem Amends.target_ne (h : Amends office held entry held') (hempty : held "" = none) : entry.targetEmail ≠ "" := by
  cases h with
  | seedOwner _ hne => exact hne
  | ownerChanged _ _ hrole =>
    rintro rfl
    rw [Holders.roleOf, hempty] at hrole
    cases hrole
  | migrateNew _ hmem | migrateOld _ hmem => exact (migrants_ne hmem).1
  | grant | remove => exact Email.text_ne _

theorem Audits.empty (h : Audits office entries held) : held "" = none := by
  refine h.invariant (I := fun held => held "" = none) ?_ rfl
  intro held entry held' hempty hstep
  rw [hstep.frame (hstep.target_ne hempty).symm, hempty]

/-- Somebody goes on to hold a role. -/
theorem Amends.somebody (h : Amends office held entry held') (hsome : ∃ email, held email ≠ none) :
    ∃ email, held' email ≠ none := by
  cases h with
  | migrateOld => exact hsome
  | remove _ _ _ _ hne hother => exact ⟨_, ne_of_eq_of_ne (Function.update_of_ne hne _ _) hother⟩
  | _ => exact ⟨_, ne_of_eq_of_ne (Function.update_self _ _ _) (Option.some_ne_none _)⟩

/-- What an address comes to hold, it holds by a grant, by a migration or as an owner. -/
theorem Amends.gained (h : Amends office held entry held') {email : String} (hnone : held email = none)
    (hsome : held' email ≠ none) : entry.targetEmail = email ∧
      ((∃ previous roles, entry.action = .seedOwner previous ∧ office roles ∧ roles.owner = email) ∨
        entry.action = .migrate true ∨ entry.action = .grant .admin) := by
  have htarget : entry.targetEmail = email := by
    by_contra hne
    rw [h.frame (Ne.symm hne)] at hsome
    exact hsome hnone
  subst htarget
  refine ⟨rfl, ?_⟩
  cases h with
  | seedOwner hin => exact .inl ⟨_, _, rfl, hin, rfl⟩
  | ownerChanged _ _ hrole =>
    rw [Holders.roleOf, hnone] at hrole
    cases hrole
  | migrateNew => exact .inr (.inl rfl)
  | migrateOld => exact absurd hnone hsome
  | grant => exact .inr (.inr rfl)
  | remove => exact absurd (Function.update_self _ _ _) hsome

theorem gained_of_run (hrun : Run (Amends office) held entries held') {email : String} (hnone : held email = none)
    (hsome : held' email ≠ none) : ∃ entry ∈ entries, entry.targetEmail = email ∧
      ((∃ previous roles, entry.action = .seedOwner previous ∧ office roles ∧ roles.owner = email) ∨
        entry.action = .migrate true ∨ entry.action = .grant .admin) := by
  induction hrun with
  | nil => exact absurd hnone hsome
  | @snoc entries between held' entry hrun hstep ih =>
    by_cases hbetween : between email = none
    · exact ⟨entry, by simp, hstep.gained hbetween hsome⟩
    · obtain ⟨earlier, hmem, h⟩ := ih hbetween
      exact ⟨earlier, by simp [hmem], h⟩

/-! ## One owner -/

section Owner

variable {owner : String}

/-- Where one owner is configured, no other address is ever one. -/
theorem Amends.only_owner (howner : ∀ roles, office roles → roles.owner = owner) (h : Amends office held entry held')
    (honly : ∀ email, held.roleOf email = some .owner → email = owner) :
    ∀ email, held'.roleOf email = some .owner → email = owner := by
  intro email hrole
  by_cases htarget : email = entry.targetEmail
  · subst htarget
    cases h with
    | seedOwner hin => exact howner _ hin
    | migrateOld => exact honly _ hrole
    | _ => simp [Holders.roleOf] at hrole
  · rw [Holders.roleOf, h.frame htarget] at hrole
    exact honly email hrole

/-- An owner stays one, and no entry is about them any more but what a migration finds. -/
theorem Amends.keeps_owner (howner : ∀ roles, office roles → roles.owner = owner) (h : Amends office held entry held')
    (hrole : held.roleOf owner = some .owner) :
    held' owner = held owner ∧ entry.targetEmail ≠ owner := by
  have htarget : entry.targetEmail ≠ owner := by
    rintro rfl
    cases h with
    | seedOwner hin _ hnot => exact hnot hrole
    | ownerChanged hin hne => exact hne (howner _ hin).symm
    | migrateNew hin hmem | migrateOld hin hmem => exact (migrants_ne hmem).2 (howner _ hin).symm
    | grant _ hnone =>
      rw [Holders.roleOf, hnone] at hrole
      cases hrole
    | remove hin _ hne => exact hne (howner _ hin).symm
  exact ⟨h.frame htarget.symm, htarget⟩

theorem keeps_owner_of_run (howner : ∀ roles, office roles → roles.owner = owner)
    (hrun : Run (Amends office) held entries held') (hrole : held.roleOf owner = some .owner) :
    held' owner = held owner ∧ ∀ entry ∈ entries, entry.targetEmail ≠ owner := by
  induction hrun with
  | nil => simp
  | @snoc entries between held' entry hrun hstep ih =>
    have hbetween : between.roleOf owner = some .owner := by
      rwa [Holders.roleOf, ih.1]
    obtain ⟨hkept, htarget⟩ := hstep.keeps_owner howner hbetween
    refine ⟨hkept.trans ih.1, ?_⟩
    intro other hother
    rcases List.mem_append.mp hother with hother | hother
    · exact ih.2 other hother
    · rw [List.mem_singleton.mp hother]
      exact htarget

/-- Whoever was seeded is the owner since. -/
theorem owner_of_seed (howner : ∀ roles, office roles → roles.owner = owner) (hrun : Audits office entries held)
    (hmem : entry ∈ entries) (htarget : entry.targetEmail = owner) {previous : Option Role}
    (haction : entry.action = .seedOwner previous) : held.roleOf owner = some .owner := by
  induction hrun with
  | nil => cases hmem
  | @snoc entries between held last hrun hstep ih =>
    rcases List.mem_append.mp hmem with hmem | hmem
    · rw [Holders.roleOf, (hstep.keeps_owner howner (ih hmem)).1]
      exact ih hmem
    · obtain rfl := List.mem_singleton.mp hmem
      subst htarget
      cases hstep with
      | seedOwner => simp [Holders.roleOf]
      | _ => cases haction

end Owner

end SwarmCloud.Admins
