import SwarmCloud.Accounts.Registration
import SwarmCloud.Admins.Records

/-! # The safeguards over whole runs

Any number of processes, each with its own settings, go on between each other's steps;
calls fail anywhere. What the audit says is then still what the documents are, and the
safeguards hold of any two moments of a run.
-/

namespace SwarmCloud.Admins

open Common Lib
open Accounts (Python samplePython)

variable {py : Python} {services : Deployment py} {roles : AdminRoles py} {db db' : Db} {w w' : World py} {t : Nat}

/-- A configuration that some process has. -/
def Deployment.office (services : Deployment py) (roles : AdminRoles py) : Prop := ∃ p, services.roles p = roles

theorem Deployment.office_home (services : Deployment py) (p : Nat) : services.office (services.roles p) := ⟨p, rfl⟩

def Chore.Fits (roles : AdminRoles py) : Chore → Prop
  | .formerOwners => True
  | .demote email => email ≠ roles.owner
  | .seed => roles.owner ≠ ""
  | .migrate email => email ∈ roles.migrants

def Db.Seeded (db : Db) (owner : String) : Prop :=
  ∃ entry ∈ db.entries, entry.targetEmail = owner ∧ ∃ previous, entry.action = .seedOwner previous

/-- What the audit has of a chore once it is done. -/
def Chore.DoneIn (roles : AdminRoles py) (db : Db) : Chore → Prop
  | .formerOwners | .demote _ => True
  | .seed => db.Seeded roles.owner
  | .migrate email => EntryId.marker email ∈ db.audit.map Prod.fst

def Request.Fits (roles : AdminRoles py) : Request py → Prop
  | .grant email _ => roles.checkGrantable email.text = .ok ()
  | _ => True

/-- What a thread may be at. -/
def Task.Fits (roles : AdminRoles py) (db : Db) : Task py → Prop
  | .ensuring request | .waiting request | .ready request => request.Fits roles
  | .migrating chores request | .forgetting _ chores request => request.Fits roles ∧
      (∀ chore ∈ chores, chore.Fits roles) ∧ ∀ chore ∈ roles.chores, chore ∈ chores ∨ chore.DoneIn roles db
  | _ => True

structure World.Sound (services : Deployment py) (w : World py) : Prop where
  shaped : w.db.Shaped
  audits : Db.Grows services.office {} w.db
  tasks : ∀ t, (w.thread t).Fits (services.roles (services.home t)) w.db
  migrated : ∀ p, (w.process p).migrated = true →
    ∀ chore ∈ (services.roles p).chores, chore.DoneIn (services.roles p) w.db

theorem Db.Grows.audits {office : AdminRoles py → Prop} (h : Db.Grows office {} db) :
    Audits office db.entries db.held := by
  obtain ⟨added, haudit, hrun⟩ := h
  rw [Db.entries, haudit]
  exact hrun

/-- An owner is one by a seed. -/
theorem Audits.seeded {office : AdminRoles py → Prop} {held : Holders} {entries : List Entry}
    (h : Audits office entries held) {email : String} (hrole : held.roleOf email = some .owner) :
    ∃ entry ∈ entries, entry.targetEmail = email ∧ ∃ previous, entry.action = .seedOwner previous := by
  induction h with
  | nil => cases hrole
  | @snoc entries held held' entry hrun hstep ih =>
    by_cases hbefore : held.roleOf email = some .owner
    · obtain ⟨earlier, hmem, h⟩ := ih hbefore
      exact ⟨earlier, by simp [hmem], h⟩
    · have htarget : entry.targetEmail = email := by
        by_contra hne
        rw [Holders.roleOf, hstep.frame (Ne.symm hne)] at hrole
        exact hbefore hrole
      refine ⟨entry, by simp, htarget, ?_⟩
      subst htarget
      cases hstep with
      | seedOwner => exact ⟨_, rfl⟩
      | migrateOld => exact absurd hrole hbefore
      | _ => simp [Holders.roleOf] at hrole

/-! ## What is done stays done -/

theorem Chore.DoneIn.mono {office : AdminRoles py → Prop} {chore : Chore} (h : Db.Grows office db db')
    (hdone : chore.DoneIn roles db) : chore.DoneIn roles db' := by
  obtain ⟨added, haudit, -⟩ := h
  cases chore with
  | formerOwners | demote => trivial
  | seed =>
    obtain ⟨entry, hmem, hseed⟩ := hdone
    refine ⟨entry, ?_, hseed⟩
    rw [Db.entries, haudit, List.map_append]
    exact List.mem_append_left _ hmem
  | migrate email =>
    rw [DoneIn, haudit, List.map_append]
    exact List.mem_append_left _ hdone

theorem Task.Fits.mono {office : AdminRoles py → Prop} {task : Task py} (h : Db.Grows office db db')
    (hfits : task.Fits roles db) : task.Fits roles db' := by
  cases task with
  | migrating | forgetting =>
    exact ⟨hfits.1, hfits.2.1, fun chore hchore => (hfits.2.2 chore hchore).imp_right (.mono h)⟩
  | _ => exact hfits

theorem fits_chores (roles : AdminRoles py) : ∀ chore ∈ roles.chores, chore.Fits roles := by
  intro chore hchore
  rw [AdminRoles.chores, List.cons_append, List.mem_cons, List.mem_append] at hchore
  rcases hchore with rfl | hchore | hchore
  · trivial
  · split at hchore
    · cases hchore
    · rename_i howner
      obtain rfl := List.mem_singleton.mp hchore
      exact howner
  · obtain ⟨email, hemail, rfl⟩ := List.mem_map.mp hchore
    exact hemail

/-! ## One step -/

namespace World

/-- A step of one thread: the documents grow, and the thread is where it may be. -/
theorem Sound.goOn (h : w.Sound services) (hdb : Db.Advances services.office w.db db') {clock : Instant}
    {process : Nat → Process} {task : Task py}
    (hprocess : ∀ p, (process p).migrated = true → (w.process p).migrated = true ∨
      ∀ chore ∈ (services.roles p).chores, chore.DoneIn (services.roles p) db')
    (htask : task.Fits (services.roles (services.home t)) db') :
    Sound services ⟨db', clock, process, Function.update w.thread t task⟩ ∧ Db.Grows services.office w.db db' := by
  refine ⟨⟨hdb.1, h.audits.trans hdb.2, fun t' => ?_, fun p hp => ?_⟩, hdb.2⟩
  · by_cases ht : t' = t
    · subst ht
      simpa using htask
    · simpa [Function.update_of_ne ht] using (h.tasks t').mono hdb.2
  · exact (hprocess p hp).elim (fun hbefore chore hchore => (h.migrated p hbefore chore hchore).mono hdb.2) id

/-- A thread that leaves the documents alone. -/
theorem Sound.turn (h : w.Sound services) {task : Task py} {process : Nat → Process}
    (hprocess : ∀ p, (process p).migrated = true → (w.process p).migrated = true ∨
      ∀ chore ∈ (services.roles p).chores, chore.DoneIn (services.roles p) w.db)
    (htask : task.Fits (services.roles (services.home t)) w.db) :
    Sound services ⟨w.db, w.clock, process, Function.update w.thread t task⟩ ∧ Db.Grows services.office w.db w.db :=
  h.goOn ⟨h.shaped, .refl _⟩ hprocess htask

/-- A thread that leaves its process alone too. -/
theorem Sound.stay (h : w.Sound services) {task : Task py} (htask : task.Fits (services.roles (services.home t)) w.db) :
    Sound services ⟨w.db, w.clock, w.process, Function.update w.thread t task⟩ ∧ Db.Grows services.office w.db w.db :=
  h.turn (fun _ hp => .inl hp) htask

theorem migrated_update {own : Process} {P : Nat → Prop}
    (hown : own.migrated = true → (w.process (services.home t)).migrated = true ∨ P (services.home t)) :
    ∀ p, ((Function.update w.process (services.home t) own) p).migrated = true →
      (w.process p).migrated = true ∨ P p := by
  intro p hp
  by_cases hhome : p = services.home t
  · subst hhome
    rw [Function.update_self] at hp
    exact hown hp
  · rw [Function.update_of_ne hhome] at hp
    exact .inl hp

/-- What is left of the migration after one chore of it. -/
theorem fits_next {chore : Chore} {chores : List Chore} {request : Request py}
    (h : (Task.migrating (chore :: chores) request).Fits roles db) {office : AdminRoles py → Prop}
    (hgrows : Db.Grows office db db') (hdone : chore.DoneIn roles db') (more : List Chore)
    (hmore : ∀ chore ∈ more, chore.Fits roles) :
    request.Fits roles ∧ (∀ chore ∈ more ++ chores, chore.Fits roles) ∧
      ∀ chore ∈ roles.chores, chore ∈ more ++ chores ∨ chore.DoneIn roles db' := by
  obtain ⟨hrequest, hfits, hchores⟩ := h
  refine ⟨hrequest, ?_, fun other hother => ?_⟩
  · rw [List.forall_mem_append]
    exact ⟨hmore, fun other hother => hfits other (List.mem_cons_of_mem _ hother)⟩
  · rcases hchores other hother with hmem | hbefore
    · rcases List.mem_cons.mp hmem with rfl | hmem
      · exact .inr hdone
      · exact .inl (List.mem_append_right _ hmem)
    · exact .inr (hbefore.mono hgrows)

theorem seeded_seed (hdb : Db.Advances services.office db (db.seed roles.owner w.clock))
    (h : Db.Grows services.office {} db) : (db.seed roles.owner w.clock).Seeded roles.owner := by
  refine (h.trans hdb.2).audits.seeded ?_
  rw [Db.roleOf_held, Db.seed]
  split
  · rename_i hrole
    exact hrole
  · rw [Db.roleOf, Db.audited, Dict.lookup_set, if_pos rfl]
    rfl

theorem marked_migrateOne (email : String) (now : Instant) :
    EntryId.marker email ∈ (db.migrateOne email now).audit.map Prod.fst := by
  rw [Db.migrateOne]
  split
  · rename_i hmarker
    obtain ⟨entry, hentry⟩ := Option.isSome_iff_exists.mp hmarker
    exact List.mem_map_of_mem (Dict.mem_of_lookup hentry)
  · exact (Dict.mem_keys_set_iff _ _ _ _).mpr (.inl rfl)

theorem Sound.chore (h : w.Sound services) {chore : Chore} {chores : List Chore} {request : Request py}
    (hthread : w.thread t = .migrating (chore :: chores) request) :
    (w.chore t (services.roles (services.home t)) chores request chore).Sound services ∧
      Db.Grows services.office w.db (w.chore t (services.roles (services.home t)) chores request chore).db := by
  have hin := services.office_home (services.home t)
  have hfits := h.tasks t
  rw [hthread] at hfits
  have hchore := hfits.2.1 chore List.mem_cons_self
  cases chore with
  | formerOwners =>
    have hsame : Db.Grows services.office w.db w.db := .refl _
    refine h.stay (fits_next hfits hsame trivial _ fun chore hmem => ?_)
    obtain ⟨item, hitem, rfl⟩ := List.mem_map.mp hmem
    have hne := (List.mem_filter.mp hitem).2
    rw [Bool.and_eq_true, decide_eq_true_eq, decide_eq_true_eq] at hne
    exact hne.2
  | demote email =>
    have hdb : Db.Advances services.office w.db (w.db.demote email w.clock) :=
      h.shaped.demote hin hchore
    exact h.goOn hdb (fun p hp => .inl hp) (fits_next hfits hdb.2 trivial [] (by simp))
  | seed =>
    have hdb : Db.Advances services.office w.db (w.db.seed (services.roles (services.home t)).owner w.clock) :=
      h.shaped.seed hin hchore
    exact h.goOn hdb (fun p hp => .inl hp) (fits_next hfits hdb.2 (seeded_seed hdb h.audits) [] (by simp))
  | migrate email =>
    have hdb : Db.Advances services.office w.db (w.db.migrateOne email w.clock) :=
      h.shaped.migrateOne hin hchore
    exact h.goOn hdb (fun p hp => .inl hp) (fits_next hfits hdb.2 (marked_migrateOne email w.clock) [] (by simp))

theorem Sound.served (h : w.Sound services) {request : Request py} (hthread : w.thread t = .ready request)
    (cache : Dict String (Instant × Option Role)) :
    (w.served t (services.roles (services.home t)) cache request).Sound services ∧
      Db.Grows services.office w.db (w.served t (services.roles (services.home t)) cache request).db := by
  have hin := services.office_home (services.home t)
  have hfits := h.tasks t
  rw [hthread] at hfits
  cases request with
  | roleOf email fresh =>
    rw [World.served]
    split
    · split <;> exact h.stay trivial
    · exact h.stay trivial
  | grant email caller =>
    rw [World.served]
    split
    · exact h.stay trivial
    · rename_i howner
      split
      · exact h.stay trivial
      · rename_i hgrant
        refine h.goOn (h.shaped.grant hin hfits (fun heq => ?_) hgrant) (fun p hp => .inl hp) trivial
        rw [not_and, not_not, Db.isOwner_iff] at howner
        exact howner heq
  | remove email caller =>
    rw [World.served]
    split
    · split <;> exact h.stay trivial
    · rename_i howner
      split
      · exact h.stay trivial
      · rename_i hremove
        rw [Db.isOwner_iff] at howner
        exact h.goOn (h.shaped.remove hin howner hremove) (fun p hp => .inl hp) trivial

theorem fits_opened (own : AdminRoles py) (clock : Instant) (call : Call) (db : Db) :
    (opened own clock call : Task py).Fits own db := by
  cases call with
  | roleOf raw fresh =>
    rw [opened]
    split <;> trivial
  | grant raw caller =>
    rw [opened]
    split
    · trivial
    · split
      · trivial
      · rename_i hgrantable
        exact hgrantable
  | remove raw caller =>
    rw [opened]
    split <;> trivial

theorem Sound.go (h : w.Sound services) (hgo : w.go services t = some w') :
    w'.Sound services ∧ Db.Grows services.office w.db w'.db := by
  have hfits := h.tasks t
  rw [World.go] at hgo
  split at hgo
  · rename_i request hthread
    cases hgo
    rw [hthread] at hfits
    refine h.stay ?_
    split <;> exact hfits
  · rename_i request hthread
    rw [hthread] at hfits
    split at hgo
    · cases hgo
    · split at hgo
      · cases hgo
        exact h.stay hfits
      · cases hgo
        exact h.turn (migrated_update .inl) ⟨hfits, fits_chores _, fun chore hchore => .inl hchore⟩
  · rename_i request hthread
    cases hgo
    rw [hthread] at hfits
    refine h.turn (migrated_update fun _ => .inr ?_) hfits.1
    intro chore hchore
    exact (hfits.2.2 chore hchore).resolve_left List.not_mem_nil
  · rename_i hthread
    cases hgo
    exact h.chore hthread
  · rename_i hthread
    cases hgo
    rw [hthread] at hfits
    exact h.turn (migrated_update .inl) hfits
  · rename_i hthread
    cases hgo
    exact h.served hthread _
  · cases hgo
    exact h.stay trivial
  · cases hgo
    exact h.turn (migrated_update .inl) trivial
  · cases hgo
    exact h.turn (migrated_update .inl) trivial
  all_goals cases hgo

theorem Sound.step (h : w.Sound services) {act : Act} (hstep : w.step services act = some w') :
    w'.Sound services ∧ Db.Grows services.office w.db w'.db := by
  cases act with
  | call t call =>
    rw [World.step] at hstep
    split at hstep
    · cases hstep
      exact h.stay (fits_opened _ _ call _)
    · cases hstep
  | go t => exact h.go hstep
  | fail t =>
    rw [World.step] at hstep
    split at hstep
    · cases hstep
      exact h.turn (migrated_update fun hp => .inl (by simpa using hp)) trivial
    · cases hstep
      exact h.turn (migrated_update fun hp => .inl (by simpa using hp)) trivial
    · cases hstep
      exact h.stay trivial
    · cases hstep
      exact h.stay trivial
    · cases hstep
      exact h.stay trivial
    · cases hstep
  | tick now =>
    rw [World.step] at hstep
    split at hstep
    · cases hstep
      exact ⟨⟨h.shaped, h.audits, h.tasks, h.migrated⟩, .refl _⟩
    · cases hstep

theorem Sound.start (services : Deployment py) (now : Instant) : Sound services { clock := now } :=
  ⟨.start, .refl _, fun _ => trivial, fun _ hp => absurd hp Bool.false_ne_true⟩

theorem Sound.run (h : w.Sound services) {acts : List Act} (hrun : Run (Steps services) w acts w') :
    w'.Sound services ∧ Db.Grows services.office w.db w'.db := by
  induction hrun with
  | nil => exact ⟨h, .refl _⟩
  | snoc _ hlast ih =>
    have hnext := ih.1.step hlast
    exact ⟨hnext.1, ih.2.trans hnext.2⟩

end World

/-! ## What holds of a run -/

theorem Db.Shaped.migrations_nodup (h : db.Shaped) :
    ((db.entries.filter (·.action.migrates)).map Entry.targetEmail).Nodup := by
  have hids : (db.audit.filter (·.2.action.migrates)).map Prod.fst =
      ((db.entries.filter (·.action.migrates)).map Entry.targetEmail).map EntryId.marker := by
    rw [Db.entries, List.filter_map, List.map_map, List.map_map]
    refine List.map_congr_left fun item hitem => ?_
    obtain ⟨hmem, hmigrates⟩ := List.mem_filter.mp hitem
    rcases h.marked item hmem with ⟨-, hid⟩ | ⟨hnot, -⟩
    · exact hid
    · rw [hnot] at hmigrates
      cases hmigrates
  have hnodup : ((db.audit.filter (·.2.action.migrates)).map Prod.fst).Nodup :=
    h.ids.sublist (List.filter_sublist.map _)
  rw [hids] at hnodup
  exact hnodup.of_map _

variable {acts later : List World.Act} {now : Instant}

section Sample

open World

/-- One configuration, with an owner and one address of `ADMIN_USERS`, in one process. -/
def sampleDeployment : Deployment samplePython where
  roles _ := .init samplePython "o@x.y" ["a@x.y"] ["x.y"] [] []
  home _ := 0

/-- The first call of the process migrates. -/
def sampleMigrated : List Act :=
  .call 0 (.roleOf "a@x.y" false) :: List.replicate 11 (.go 0)

def sampleRemoved : List Act := [.call 1 (.remove "a@x.y" "o@x.y"), .go 1, .go 1, .go 1]

def sampleGranted : List Act := [.call 2 (.grant "a@x.y" "o@x.y"), .go 2, .go 2, .go 2]

def sampleAfter (acts : List Act) : World samplePython := (acts.foldlM (World.step sampleDeployment) {}).getD {}

end Sample

/-- The role documents are what the audit says, entry by entry in the order of the commits: each entry is a
change that its action makes, in a process that is configured for it, and no address is migrated twice. -/
theorem audit_of_run (hrun : Run (World.Steps services) { clock := now } acts w) :
    Audits services.office w.db.entries w.db.held ∧
      ((w.db.entries.filter (·.action.migrates)).map Entry.targetEmail).Nodup ∧
      ∀ p, (w.process p).migrated = true → ∀ email ∈ (services.roles p).migrants,
        ∃ entry ∈ w.db.entries, entry.action.migrates = true ∧ entry.targetEmail = email := by
  obtain ⟨h, -⟩ := (World.Sound.start services now).run hrun
  refine ⟨h.audits.audits, h.shaped.migrations_nodup, fun p hp email hemail => ?_⟩
  have hdone := h.migrated p hp (.migrate email) (by simp [AdminRoles.chores, hemail])
  obtain ⟨⟨id, entry⟩, hitem, heq⟩ := List.mem_map.mp hdone
  cases heq
  obtain ⟨hmigrates, htarget⟩ := h.shaped.of_marker hitem
  exact ⟨entry, List.mem_map_of_mem hitem, hmigrates, htarget⟩

theorem audit_of_run_sample : ∃ w,
    Run (World.Steps sampleDeployment) { clock := 0 } (sampleMigrated ++ sampleRemoved) w ∧
    w.db.entries.map Entry.action = [.seedOwner none, .migrate true, .remove .admin] ∧
      Audits sampleDeployment.office w.db.entries w.db.held := by
  have hrun : Run (World.Steps sampleDeployment) { clock := 0 } (sampleMigrated ++ sampleRemoved) _ := Run.of_foldlM rfl
  exact ⟨_, hrun, rfl, (audit_of_run hrun).1⟩

/-- Where every process has the same owner, nobody else ever is one; they are one from the end of the first
migration on, and from then nothing is written about them. -/
theorem owner_of_run {owner : String} (howner : ∀ p, (services.roles p).owner = owner) (hne : owner ≠ "")
    (hrun : Run (World.Steps services) { clock := now } acts w) (hrun' : Run (World.Steps services) w later w') :
    (∀ email, w.db.roleOf email = some .owner → email = owner) ∧
      (∀ p, (w.process p).migrated = true → w.db.roleOf owner = some .owner) ∧
      (w.db.roleOf owner = some .owner → w'.db.held owner = w.db.held owner ∧
        ∀ entry ∈ w'.db.entries.drop w.db.entries.length, entry.targetEmail ≠ owner) := by
  have hoffice : ∀ roles, services.office roles → roles.owner = owner := by
    rintro roles ⟨p, rfl⟩
    exact howner p
  obtain ⟨h, -⟩ := (World.Sound.start services now).run hrun
  obtain ⟨-, added, haudit, hadded⟩ := h.run hrun'
  refine ⟨?_, fun p hp => ?_, fun hrole => ?_⟩
  · have honly := h.audits.audits.invariant
      (I := fun held => ∀ email, held.roleOf email = some .owner → email = owner)
      (fun _ _ _ hbefore hstep => hstep.only_owner hoffice hbefore) (by rintro email ⟨⟩)
    simpa using honly
  · have hdone := h.migrated p hp .seed (by simp [AdminRoles.chores, howner p, hne])
    rw [Chore.DoneIn, howner p] at hdone
    obtain ⟨entry, hmem, htarget, previous, haction⟩ := hdone
    rw [← Db.roleOf_held]
    exact owner_of_seed hoffice h.audits.audits hmem htarget haction
  · rw [← Db.roleOf_held] at hrole
    have hdrop : w'.db.entries.drop w.db.entries.length = added.map Prod.snd := by
      rw [Db.entries, Db.entries, haudit, List.map_append, List.drop_left]
    rw [hdrop]
    exact keeps_owner_of_run hoffice hadded hrole

theorem owner_of_run_sample : ∃ w w', Run (World.Steps sampleDeployment) { clock := 0 } sampleMigrated w ∧
    Run (World.Steps sampleDeployment) w sampleRemoved w' ∧ w'.db.held "o@x.y" = w.db.held "o@x.y" := by
  have hrun : Run (World.Steps sampleDeployment) { clock := 0 } sampleMigrated (sampleAfter sampleMigrated) :=
    Run.of_foldlM rfl
  have hrun' : Run (World.Steps sampleDeployment) (sampleAfter sampleMigrated) sampleRemoved _ := Run.of_foldlM rfl
  exact ⟨_, _, hrun, hrun', ((owner_of_run (fun _ => rfl) (by decide) hrun hrun').2.2 rfl).1⟩

/-- Once somebody holds a role somebody always does, whoever removes whom at the same time; and whoever comes to
hold one again was granted it by a person, or is a configured owner, or had never been migrated before. -/
theorem safeguards_of_run (hrun : Run (World.Steps services) { clock := now } acts w)
    (hrun' : Run (World.Steps services) w later w') :
    ((∃ email, w.db.roleOf email ≠ none) → ∃ email, w'.db.roleOf email ≠ none) ∧
      ∀ email, w.db.roleOf email = none → w'.db.roleOf email ≠ none →
        ∃ item ∈ w'.db.audit.drop w.db.audit.length, item.2.targetEmail = email ∧
          ((∃ previous p, item.2.action = .seedOwner previous ∧ (services.roles p).owner = email) ∨
            (item.2.action = .migrate true ∧
              ∀ entry ∈ w.db.entries, entry.action.migrates = true → entry.targetEmail ≠ email) ∨
            item.2.action = .grant .admin) := by
  obtain ⟨h, -⟩ := (World.Sound.start services now).run hrun
  obtain ⟨h', added, haudit, hadded⟩ := h.run hrun'
  constructor
  · simp only [ne_eq, ← Db.held_eq_none]
    exact hadded.invariant (I := fun held => ∃ email, held email ≠ none)
      fun _ _ _ hbefore hstep => hstep.somebody hbefore
  · intro email hnone hsome
    rw [haudit, List.drop_left]
    obtain ⟨entry, hmem, htarget, hkind⟩ :=
      gained_of_run hadded (Db.held_eq_none.mpr hnone) (mt Db.held_eq_none.mp hsome)
    obtain ⟨item, hitem, rfl⟩ := List.mem_map.mp hmem
    refine ⟨item, hitem, htarget, ?_⟩
    rcases hkind with ⟨previous, roles, haction, ⟨p, rfl⟩, howner⟩ | haction | haction
    · exact .inl ⟨previous, p, haction, howner⟩
    · refine .inr (.inl ⟨haction, fun earlier hearlier hmigrates hsame => ?_⟩)
      have hnodup := h'.shaped.migrations_nodup
      rw [Db.entries, haudit, List.map_append, List.filter_append, List.map_append, List.nodup_append] at hnodup
      refine hnodup.2.2 email ?_ email ?_ rfl
      · exact List.mem_map.mpr ⟨earlier, List.mem_filter.mpr ⟨hearlier, hmigrates⟩, hsame⟩
      · exact List.mem_map.mpr ⟨item.2, List.mem_filter.mpr ⟨hmem, by rw [haction]; rfl⟩, htarget⟩
    · exact .inr (.inr haction)

theorem safeguards_of_run_sample : ∃ w w',
    Run (World.Steps sampleDeployment) { clock := 0 } (sampleMigrated ++ sampleRemoved) w ∧
      Run (World.Steps sampleDeployment) w sampleGranted w' ∧ w.db.roleOf "a@x.y" = none ∧
      ∃ item ∈ w'.db.audit.drop w.db.audit.length, item.2.targetEmail = "a@x.y" := by
  have hrun : Run (World.Steps sampleDeployment) { clock := 0 } (sampleMigrated ++ sampleRemoved)
      (sampleAfter (sampleMigrated ++ sampleRemoved)) := Run.of_foldlM rfl
  have hrun' : Run (World.Steps sampleDeployment) (sampleAfter (sampleMigrated ++ sampleRemoved)) sampleGranted _ :=
    Run.of_foldlM rfl
  obtain ⟨item, hitem, htarget, -⟩ := (safeguards_of_run hrun hrun').2 "a@x.y" rfl (Option.some_ne_none Role.admin)
  exact ⟨_, _, hrun, hrun', rfl, item, hitem, htarget⟩

end SwarmCloud.Admins
