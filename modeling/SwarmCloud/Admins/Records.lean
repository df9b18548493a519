import SwarmCloud.Admins.History

/-! # Every document is accounted for

The transactions against the audit: what they write to `admin_roles` is the change that
their entry stands for, whichever threads of whichever processes they come from.
-/

namespace SwarmCloud.Admins

open Common Lib
open Accounts (Python)

variable {py : Python} {office : AdminRoles py → Prop} {db db' : Db} {roles : AdminRoles py} {now : Instant}

namespace Db

/-- Who holds what by the documents. -/
def held (db : Db) : Holders := fun email => (db.roles.lookup email).bind fun doc => doc.role.map (⟨·, doc.grantedBy⟩)

def entries (db : Db) : List Entry := db.audit.map Prod.snd

@[simp] theorem roleOf_held (db : Db) (email : String) : db.held.roleOf email = db.roleOf email := by
  rw [Holders.roleOf, held, Db.roleOf]
  cases db.roles.lookup email with
  | none => rfl
  | some doc => cases h : doc.role <;> simp [h]

theorem held_eq_none {email : String} : db.held email = none ↔ db.roleOf email = none := by
  rw [← roleOf_held, Holders.roleOf, Option.map_eq_none_iff]

theorem held_set (db : Db) (email grantedBy : String) (role : Role) (now : Instant) (audit : Dict EntryId Entry) :
    held ⟨db.roles.set email ⟨some role, grantedBy, now⟩, audit⟩ =
      Function.update db.held email (some ⟨role, grantedBy⟩) := by
  funext other
  rw [held, Dict.lookup_set, Function.update_apply]
  split <;> rfl

theorem held_filter (db : Db) (email : String) (audit : Dict EntryId Entry) :
    held ⟨db.roles.filter (·.1 ≠ email), audit⟩ = Function.update db.held email none := by
  funext other
  rw [held, Dict.lookup_filter_ne, Function.update_apply]
  split <;> rfl

/-- What only the writers' shape has to do with: the documents of the module's own making. -/
structure Shaped (db : Db) : Prop where
  emails : (db.roles.map Prod.fst).Nodup
  roled : ∀ email doc, db.roles.lookup email = some doc → doc.role ≠ none
  ids : (db.audit.map Prod.fst).Nodup
  auto_lt : ∀ n, EntryId.auto n ∈ db.audit.map Prod.fst → n < db.audit.length
  marked : ∀ item ∈ db.audit, (item.2.action.migrates = true ∧ item.1 = .marker item.2.targetEmail) ∨
    (item.2.action.migrates = false ∧ ∃ n, item.1 = .auto n)

theorem Shaped.start : Shaped {} :=
  ⟨List.nodup_nil, by simp, List.nodup_nil, by simp, by simp⟩

/-- The audit has grown, and by entries that account for the documents. -/
def Grows (office : AdminRoles py → Prop) (db db' : Db) : Prop :=
  ∃ added : Dict EntryId Entry, db'.audit = db.audit ++ added ∧
    Run (Amends office) db.held (added.map Prod.snd) db'.held

theorem Grows.refl (db : Db) : Grows office db db := ⟨[], by simp, .nil⟩

theorem Grows.trans {db'' : Db} (h : Grows office db db') (h' : Grows office db' db'') : Grows office db db'' := by
  obtain ⟨added, haudit, hrun⟩ := h
  obtain ⟨added', haudit', hrun'⟩ := h'
  refine ⟨added ++ added', by rw [haudit', haudit, List.append_assoc], ?_⟩
  rw [List.map_append]
  exact hrun.append hrun'

/-- What a transaction makes of the documents. -/
abbrev Advances (office : AdminRoles py → Prop) (db db' : Db) : Prop := db'.Shaped ∧ Grows office db db'

/-- A transaction that writes one entry under an id of its own. -/
theorem Shaped.write (h : db.Shaped) {id : EntryId} {entry : Entry} {docs : Dict String RoleDoc}
    (hemails : (docs.map Prod.fst).Nodup) (hroled : ∀ email doc, docs.lookup email = some doc → doc.role ≠ none)
    (hnew : id ∉ db.audit.map Prod.fst) (hid : ∀ n, id = .auto n → n = db.audit.length)
    (hmarked : (entry.action.migrates = true ∧ id = .marker entry.targetEmail) ∨
      (entry.action.migrates = false ∧ ∃ n, id = .auto n))
    (hamends : Amends office db.held entry (held ⟨docs, []⟩)) :
    Advances office db ⟨docs, db.audit.set id entry⟩ := by
  rw [Dict.set_of_new hnew]
  constructor
  · refine ⟨hemails, hroled, ?_, ?_, ?_⟩
    · rw [← Dict.set_of_new hnew]
      exact Dict.nodup_set h.ids _ _
    · intro n hn
      rw [List.length_append, List.length_singleton]
      rw [List.map_append, List.mem_append] at hn
      rcases hn with hn | hn
      · have := h.auto_lt n hn
        omega
      · have := hid n (List.mem_singleton.mp hn).symm
        omega
    · intro item hitem
      rcases List.mem_append.mp hitem with hitem | hitem
      · exact h.marked item hitem
      · rw [List.mem_singleton.mp hitem]
        exact hmarked
  · exact ⟨[(id, entry)], rfl, Run.one hamends⟩

theorem Shaped.audited (h : db.Shaped) {entry : Entry} {docs : Dict String RoleDoc}
    (hemails : (docs.map Prod.fst).Nodup) (hroled : ∀ email doc, docs.lookup email = some doc → doc.role ≠ none)
    (hmarked : entry.action.migrates = false) (hamends : Amends office db.held entry (held ⟨docs, []⟩)) :
    Advances office db ({ db with roles := docs }.audited entry) := by
  have hnew : EntryId.auto db.audit.length ∉ db.audit.map Prod.fst := fun hmem => absurd (h.auto_lt _ hmem) (by omega)
  refine h.write hemails hroled hnew (fun n hn => ?_) (.inr ⟨hmarked, _, rfl⟩) hamends
  cases hn
  rfl

theorem Shaped.of_marker (h : db.Shaped) {email : String} {entry : Entry} (hmem : (.marker email, entry) ∈ db.audit) :
    entry.action.migrates = true ∧ entry.targetEmail = email := by
  rcases h.marked _ hmem with ⟨hmigrates, hid⟩ | ⟨-, n, hid⟩
  · exact ⟨hmigrates, (EntryId.marker.inj hid).symm⟩
  · cases hid

theorem Shaped.roled_set (h : db.Shaped) (email grantedBy : String) (role : Role) (now : Instant) :
    ∀ other doc, (db.roles.set email ⟨some role, grantedBy, now⟩).lookup other = some doc → doc.role ≠ none := by
  intro other doc hdoc
  rw [Dict.lookup_set] at hdoc
  split at hdoc
  · cases hdoc
    simp
  · exact h.roled other doc hdoc

theorem Shaped.roled_filter (h : db.Shaped) (email : String) :
    ∀ other doc, List.lookup other (db.roles.filter (·.1 ≠ email)) = some doc → doc.role ≠ none := by
  intro other doc hdoc
  rw [Dict.lookup_filter_ne] at hdoc
  split at hdoc
  · cases hdoc
  · exact h.roled other doc hdoc

theorem Shaped.roleOf_eq_none (h : db.Shaped) {email : String} :
    db.roleOf email = none ↔ db.roles.lookup email = none := by
  rw [Db.roleOf]
  cases hdoc : db.roles.lookup email with
  | none => simp
  | some doc => simpa using h.roled email doc hdoc

/-! ## One transaction -/

theorem Shaped.seed (h : db.Shaped) (hin : office roles) (hne : roles.owner ≠ "") :
    Advances office db (db.seed roles.owner now) := by
  rw [Db.seed]
  split
  · exact ⟨h, .refl db⟩
  · rename_i hrole
    rw [← roleOf_held] at hrole ⊢
    refine h.audited (Dict.nodup_set h.emails _ _) (h.roled_set _ _ _ _) rfl ?_
    rw [held_set]
    exact .seedOwner hin hne hrole

theorem Shaped.demote (h : db.Shaped) (hin : office roles) {email : String} (hne : email ≠ roles.owner) :
    Advances office db (db.demote email now) := by
  rw [Db.demote]
  split
  · rename_i hrole
    rw [← roleOf_held] at hrole
    refine h.audited (Dict.nodup_set h.emails _ _) (h.roled_set _ _ _ _) rfl ?_
    rw [held_set]
    exact .ownerChanged hin hne hrole
  · exact ⟨h, .refl db⟩

theorem Shaped.migrateOne (h : db.Shaped) (hin : office roles) {email : String} (hmem : email ∈ roles.migrants) :
    Advances office db (db.migrateOne email now) := by
  rw [Db.migrateOne]
  split
  · exact ⟨h, .refl db⟩
  · rename_i hmarker
    have hnew : EntryId.marker email ∉ db.audit.map Prod.fst := by
      intro hmem
      obtain ⟨⟨id, entry⟩, hitem, heq⟩ := List.mem_map.mp hmem
      cases heq
      obtain ⟨found, hfound⟩ := Dict.exists_lookup hitem
      rw [hfound] at hmarker
      exact hmarker rfl
    cases hdoc : db.roles.lookup email with
    | none =>
      refine h.write (Dict.nodup_set h.emails _ _) (h.roled_set _ _ _ _) hnew (by simp) (.inl ⟨rfl, rfl⟩) ?_
      simp only [Option.isNone_none, if_true]
      rw [held_set]
      exact .migrateNew hin hmem (held_eq_none.mpr (h.roleOf_eq_none.mpr hdoc))
    | some doc =>
      refine h.write h.emails h.roled hnew (by simp) (.inl ⟨rfl, rfl⟩) ?_
      refine .migrateOld hin hmem fun hnone => ?_
      rw [held_eq_none, h.roleOf_eq_none, hdoc] at hnone
      cases hnone

theorem isOwner_iff (roles : AdminRoles py) (email : Email py) :
    roles.isOwner email.text = true ↔ email.text = roles.owner := by
  rw [AdminRoles.isOwner, email.normal_text, Bool.and_eq_true, decide_eq_true_eq, decide_eq_true_eq,
    and_iff_right_iff_imp]
  rintro heq
  exact heq ▸ email.text_ne

theorem Shaped.grant (h : db.Shaped) (hin : office roles) {email : Email py} {caller : String} {body : RoleDoc}
    {changed : Bool} (hgrantable : roles.checkGrantable email.text = .ok ())
    (howner : email.text = roles.owner → roles.isOwner caller = true)
    (hgrant : db.grant roles email caller now = .ok (db', body, changed)) : Advances office db db' := by
  rw [Db.grant] at hgrant
  split at hgrant
  · split at hgrant
    · cases hgrant
      exact ⟨h, .refl db⟩
    · cases hgrant
  · cases hgrant
    exact ⟨h, .refl db⟩
  · rename_i hnot hnot'
    cases hgrant
    have hnone : db.held email.text = none := by
      rw [held_eq_none, h.roleOf_eq_none]
      cases hdoc : db.roles.lookup email.text with
      | none => rfl
      | some doc =>
        obtain ⟨role, grantedBy, grantedAt⟩ := doc
        cases role with
        | none => exact absurd rfl (h.roled _ _ hdoc)
        | some role => cases role <;> simp_all
    refine h.audited (Dict.nodup_set h.emails _ _) (h.roled_set _ _ _ _) rfl ?_
    rw [held_set]
    exact .grant hin hnone hgrantable howner

/-- The query's answer about one address. -/
theorem lookup_holders (h : db.Shaped) (email : String) : db.holders.lookup email = db.roleOf email :=
  Dict.lookup_filterMap_items h.emails (·.role) email

theorem Shaped.remove (h : db.Shaped) (hin : office roles) {email : Email py} {caller : String}
    (howner : email.text ≠ roles.owner) (hremove : db.remove roles email caller now = .ok db') :
    Advances office db db' := by
  rw [Db.remove] at hremove
  split at hremove
  · cases hremove
  · rename_i role hrole
    rw [lookup_holders h, ← roleOf_held] at hrole
    split at hremove
    · cases hremove
    split at hremove
    · cases hremove
    rename_i hguard hother
    cases hremove
    obtain ⟨⟨other, otherRole⟩, hmem⟩ := List.exists_mem_of_ne_nil _ (mt List.isEmpty_iff.mpr hother)
    rw [List.mem_filter, decide_eq_true_eq] at hmem
    have hholds : db.held other ≠ none := by
      rw [Ne, held_eq_none, ← lookup_holders h]
      obtain ⟨found, hfound⟩ := Dict.exists_lookup hmem.1
      rw [hfound]
      simp
    refine h.audited (h.emails.sublist (List.filter_sublist.map _)) (h.roled_filter _) rfl ?_
    rw [held_filter]
    exact .remove hin hrole howner (by simpa using hguard) hmem.2 hholds

end Db

end SwarmCloud.Admins
