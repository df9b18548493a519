import SwarmCloud.Admins.Safeguards

/-! # How old an answer may be

`role_of` answers from its process's cache. The moment that an entry counts from is
taken before the document is read, so that a thread which is held up, or writes over
what a removal has just forgotten, does not lengthen the life of an answer.
-/

namespace SwarmCloud.Admins

open Common Lib
open Accounts (Python)

variable {py : Python} {services : Deployment py} {w w' : World py} {now : Instant} {acts : List World.Act}
  {act : World.Act} {email : String} {role : Option Role} {since : Instant} {t : Nat}

/-- At some moment of the run, no earlier than `since`, the documents gave the email this role. -/
def Was (services : Deployment py) (now : Instant) (acts : List World.Act) (email : String) (role : Option Role)
    (since : Instant) : Prop :=
  ∃ before w, before <+: acts ∧ Run (World.Steps services) { clock := now } before w ∧ w.db.roleOf email = role ∧
    since ≤ w.clock

theorem was_now (hrun : Run (World.Steps services) { clock := now } acts w) (hsince : since ≤ w.clock) :
    Was services now acts email (w.db.roleOf email) since :=
  ⟨acts, w, List.prefix_rfl, hrun, rfl, hsince⟩

theorem Was.snoc (h : Was services now acts email role since) : Was services now (acts ++ [act]) email role since := by
  obtain ⟨before, w, hbefore, h⟩ := h
  exact ⟨before, w, hbefore.trans (List.prefix_append acts [act]), h⟩

/-- A role that is read now, or one that an entry of the cache still counts for. -/
def Answer.Honest (services : Deployment py) (now : Instant) (acts : List World.Act) (cacheSeconds : Int) :
    Answer → Prop
  | .role email fresh stamp role => Was services now acts email role stamp ∨
      fresh = false ∧ ∃ since, stamp < since + seconds cacheSeconds ∧ Was services now acts email role since
  | _ => True

def Task.Honest (services : Deployment py) (now : Instant) (acts : List World.Act) (cacheSeconds : Int)
    (clock : Instant) : Task py → Prop
  | .reading _ _ stamp => stamp ≤ clock
  | .keeping email _ stamp role => Was services now acts email role stamp
  | .done answer | .dropping _ answer => answer.Honest services now acts cacheSeconds
  | _ => True

theorem Answer.Honest.snoc {cacheSeconds : Int} {answer : Answer} (h : answer.Honest services now acts cacheSeconds) :
    answer.Honest services now (acts ++ [act]) cacheSeconds := by
  cases answer with
  | role email fresh stamp role =>
    rcases h with h | ⟨hfresh, since, hsince, h⟩
    · exact .inl h.snoc
    · exact .inr ⟨hfresh, since, hsince, h.snoc⟩
  | _ => trivial

theorem Task.Honest.snoc {cacheSeconds : Int} {clock clock' : Instant} {task : Task py} (hclock : clock ≤ clock')
    (h : task.Honest services now acts cacheSeconds clock) :
    task.Honest services now (acts ++ [act]) cacheSeconds clock' := by
  cases task with
  | reading => exact h.trans hclock
  | keeping => exact Was.snoc h
  | done | dropping => exact Answer.Honest.snoc h
  | _ => trivial

namespace World

/-- The configured age of an answer, in the process of a thread. -/
def age (services : Deployment py) (p : Nat) : Int := (services.roles p).cacheSeconds

structure Honest (services : Deployment py) (now : Instant) (acts : List Act) (w : World py) : Prop where
  tasks : ∀ t, (w.thread t).Honest services now acts (age services (services.home t)) w.clock
  caches : ∀ p email expiry role, (w.process p).cache.lookup email = some (expiry, role) →
    ∃ since, expiry = since + seconds (age services p) ∧ Was services now acts email role since

/-- A step of one thread, whose process keeps in its cache what it had or what was so. -/
theorem Honest.goOn (h : w.Honest services now acts) {db : Db} {process : Nat → Process} {task : Task py}
    (hprocess : ∀ p email expiry role, (process p).cache.lookup email = some (expiry, role) →
      (w.process p).cache.lookup email = some (expiry, role) ∨
        ∃ since, expiry = since + seconds (age services p) ∧ Was services now acts email role since)
    (htask : task.Honest services now (acts ++ [act]) (age services (services.home t)) w.clock) :
    Honest services now (acts ++ [act]) ⟨db, w.clock, process, Function.update w.thread t task⟩ := by
  constructor
  · intro t'
    by_cases ht : t' = t
    · subst ht
      simpa using htask
    · simpa [Function.update_of_ne ht] using (h.tasks t').snoc le_rfl
  · intro p email expiry role hlookup
    rcases hprocess p email expiry role hlookup with hbefore | ⟨since, hexpiry, hwas⟩
    · obtain ⟨since, hexpiry, hwas⟩ := h.caches p email expiry role hbefore
      exact ⟨since, hexpiry, hwas.snoc⟩
    · exact ⟨since, hexpiry, hwas.snoc⟩

theorem Honest.stay (h : w.Honest services now acts) {db : Db} {task : Task py}
    (htask : task.Honest services now (acts ++ [act]) (age services (services.home t)) w.clock) :
    Honest services now (acts ++ [act]) ⟨db, w.clock, w.process, Function.update w.thread t task⟩ :=
  h.goOn (fun _ _ _ _ hlookup => .inl hlookup) htask

/-- What one process's entry changes to, the caches of the others being left. -/
theorem caches_update {own : Process} {P : Nat → String → Instant → Option Role → Prop}
    (hown : ∀ email expiry role, own.cache.lookup email = some (expiry, role) →
      (w.process (services.home t)).cache.lookup email = some (expiry, role) ∨ P (services.home t) email expiry role) :
    ∀ p email expiry role,
      ((Function.update w.process (services.home t) own) p).cache.lookup email = some (expiry, role) →
      (w.process p).cache.lookup email = some (expiry, role) ∨ P p email expiry role := by
  intro p email expiry role hlookup
  by_cases hhome : p = services.home t
  · subst hhome
    rw [Function.update_self] at hlookup
    exact hown email expiry role hlookup
  · rw [Function.update_of_ne hhome] at hlookup
    exact .inl hlookup

theorem lookup_forgotten {cache : Dict String (Instant × Option Role)} {email other : String}
    {found : Instant × Option Role} (h : List.lookup other (cache.filter (·.1 ≠ email)) = some found) :
    cache.lookup other = some found := by
  rw [Dict.lookup_filter_ne] at h
  split at h
  · cases h
  · exact h

theorem Honest.chore (h : w.Honest services now acts) (own : AdminRoles py) (chores : List Chore) (request : Request py)
    (chore : Chore) : (w.chore t own chores request chore).Honest services now (acts ++ [act]) := by
  cases chore <;> exact h.stay trivial

theorem Honest.served (h : w.Honest services now acts) (own : AdminRoles py) (request : Request py) :
    (w.served t own (w.process (services.home t)).cache request).Honest services now (acts ++ [act]) := by
  cases request with
  | roleOf email fresh =>
    rw [World.served]
    split
    · rename_i expiry role hlookup
      split
      · rename_i hfound
        cases fresh with
        | true => cases hlookup
        | false =>
          obtain ⟨since, rfl, hwas⟩ := h.caches _ email expiry role hlookup
          exact h.stay (.inr ⟨rfl, since, hfound, hwas.snoc⟩)
      · exact h.stay le_rfl
    · exact h.stay le_rfl
  | grant email caller =>
    rw [World.served]
    split
    · exact h.stay trivial
    · split <;> exact h.stay trivial
  | remove email caller =>
    rw [World.served]
    split
    · split <;> exact h.stay trivial
    · split <;> exact h.stay trivial

theorem Honest.go (h : w.Honest services now acts) (hrun : Run (Steps services) { clock := now } acts w)
    (hgo : w.go services t = some w') : w'.Honest services now (acts ++ [act]) := by
  have htask := h.tasks t
  rw [World.go] at hgo
  split at hgo
  · cases hgo
    refine h.stay ?_
    split <;> trivial
  · split at hgo
    · cases hgo
    · split at hgo
      · cases hgo
        exact h.stay trivial
      · cases hgo
        exact h.goOn (caches_update fun _ _ _ hlookup => .inl hlookup) trivial
  · cases hgo
    exact h.goOn (caches_update fun _ _ _ hlookup => .inl hlookup) trivial
  · cases hgo
    exact h.chore _ _ _ _
  · cases hgo
    exact h.goOn (caches_update fun _ _ _ hlookup => .inl (lookup_forgotten hlookup)) trivial
  · cases hgo
    exact h.served _ _
  · rename_i hthread
    cases hgo
    rw [hthread] at htask
    exact h.stay (was_now hrun htask).snoc
  · rename_i email fresh stamp role hthread
    cases hgo
    rw [hthread] at htask
    refine h.goOn (caches_update fun other expiry found hlookup => ?_) (.inl (Was.snoc htask))
    rw [Dict.lookup_set] at hlookup
    split at hlookup
    · rename_i heq
      cases hlookup
      exact .inr ⟨stamp, rfl, heq ▸ htask⟩
    · exact .inl hlookup
  · rename_i hthread
    cases hgo
    rw [hthread] at htask
    exact h.goOn (caches_update fun _ _ _ hlookup => .inl (lookup_forgotten hlookup)) (Answer.Honest.snoc htask)
  all_goals cases hgo

theorem Honest.step (h : w.Honest services now acts) (hrun : Run (Steps services) { clock := now } acts w)
    (hstep : w.step services act = some w') : w'.Honest services now (acts ++ [act]) := by
  cases act with
  | call t call =>
    rw [World.step] at hstep
    split at hstep
    · cases hstep
      refine h.stay ?_
      cases call with
      | roleOf raw fresh =>
        rw [opened]
        split
        · rename_i hempty
          -- No document stands under the empty address.
          have hnone : w.db.roleOf (normal py raw) = none := by
            rw [hempty, ← Db.held_eq_none]
            exact ((Sound.start services now).run hrun).1.audits.audits.empty
          rw [← hnone]
          exact .inl (was_now hrun le_rfl).snoc
        · trivial
      | grant raw caller =>
        rw [opened]
        split
        · trivial
        · split <;> trivial
      | remove raw caller =>
        rw [opened]
        split <;> trivial
    · cases hstep
  | go t => exact h.go hrun hstep
  | fail t =>
    rw [World.step] at hstep
    split at hstep
    · cases hstep
      exact h.goOn (caches_update fun _ _ _ hlookup => .inl hlookup) trivial
    · cases hstep
      exact h.goOn (caches_update fun _ _ _ hlookup => .inl hlookup) trivial
    · cases hstep
      exact h.stay trivial
    · cases hstep
      exact h.stay trivial
    · cases hstep
      exact h.stay trivial
    · cases hstep
  | tick later =>
    rw [World.step] at hstep
    split at hstep
    · rename_i hlater
      cases hstep
      refine ⟨fun t => (h.tasks t).snoc hlater, fun p email expiry role hlookup => ?_⟩
      obtain ⟨since, hexpiry, hwas⟩ := h.caches p email expiry role hlookup
      exact ⟨since, hexpiry, hwas.snoc⟩
    · cases hstep

theorem Honest.start (services : Deployment py) (now : Instant) : Honest services now [] { clock := now } :=
  ⟨fun _ => trivial, fun _ _ _ _ hlookup => absurd hlookup (Option.some_ne_none _).symm⟩

theorem honest_of_run (hrun : Run (Steps services) { clock := now } acts w) : w.Honest services now acts := by
  induction hrun with
  | nil => exact .start services now
  | snoc hrun hlast ih => exact ih.step hrun hlast

end World

/-- A role that `role_of` answers is one the documents gave the email: after the call's own stamp, or, without
`fresh`, less than the age of a cached answer before it, however the threads and the removals of all
processes fall. -/
theorem answer_of_run (hrun : Run (World.Steps services) { clock := now } acts w) {fresh : Bool} {stamp : Instant}
    (hanswer : w.thread t = .done (.role email fresh stamp role)) :
    ∃ before w', before <+: acts ∧ Run (World.Steps services) { clock := now } before w' ∧ w'.db.roleOf email = role ∧
      (stamp ≤ w'.clock ∨
        fresh = false ∧ stamp < w'.clock + seconds (services.roles (services.home t)).cacheSeconds) := by
  have h := (World.honest_of_run hrun).tasks t
  rw [hanswer] at h
  rcases h with ⟨before, w', hbefore, hrun', hrole, hstamp⟩ | ⟨hfresh, since, hstamp, hwas⟩
  · exact ⟨before, w', hbefore, hrun', hrole, .inl hstamp⟩
  · obtain ⟨before, w', hbefore, hrun', hrole, hsince⟩ := hwas
    refine ⟨before, w', hbefore, hrun', hrole, .inr ⟨hfresh, ?_⟩⟩
    exact hstamp.trans_le (Int.add_le_add_right hsince _)

/-- The answer of the call that migrated, asked for by another thread while the cache has it. -/
def sampleAsked : List World.Act := sampleMigrated ++ [.tick 9, .call 1 (.roleOf "a@x.y" false), .go 1, .go 1]

theorem answer_of_run_sample : Run (World.Steps sampleDeployment) {} sampleAsked (sampleAfter sampleAsked) ∧
    (sampleAfter sampleAsked).thread 1 = .done (.role "a@x.y" false 9 (some .admin)) ∧
    ∃ before w', before <+: sampleAsked ∧ Run (World.Steps sampleDeployment) {} before w' ∧
      w'.db.roleOf "a@x.y" = some .admin := by
  have hrun : Run (World.Steps sampleDeployment) {} sampleAsked (sampleAfter sampleAsked) := Run.of_foldlM rfl
  have hdone : (sampleAfter sampleAsked).thread 1 = .done (.role "a@x.y" false 9 (some .admin)) := rfl
  obtain ⟨before, w', hbefore, hrun', hrole, -⟩ := answer_of_run hrun hdone
  exact ⟨hrun, hdone, before, w', hbefore, hrun', hrole⟩

end SwarmCloud.Admins
