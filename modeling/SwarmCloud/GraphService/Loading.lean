import Mathlib.Logic.Function.Basic
import SwarmCloud.GraphService.Shards

/-! # Loading a shard once

`ShardCache.get_or_load` as its callers run it, each on a thread of its own: a
step is what one of them does while it holds the lock, or sets the event of its
load once it has let the lock go. Whatever the order of the steps, a key is
loaded by one caller at a time, and no caller waits for an event that nobody is
going to set.
-/

namespace SwarmCloud.GraphService

open Lib

inductive Phase (ρ : Type)
  | idle
  | waiting (key : ShardKey) (event : Nat)
  | loading (key : ShardKey) (event : Nat)
  | leaving (key : ShardKey) (event : Nat) (shard : Option (Shard ρ))
  | returned (key : ShardKey) (shard : Shard ρ) (hit : Bool)
  | raised
  | broken
deriving DecidableEq

namespace Phase

variable {ρ : Type}

/-- The event a caller has made and not yet set. -/
def event : Phase ρ → Option Nat
  | loading _ event => some event
  | leaving _ event _ => some event
  | _ => none

/-- The shard a caller has for the key it asked for. -/
def answer : Phase ρ → Option (ShardKey × Shard ρ)
  | leaving key _ (some shard) => some (key, shard)
  | returned key shard _ => some (key, shard)
  | _ => none

/-- A caller that is not in a call. -/
def free : Phase ρ → Bool
  | idle | returned .. | raised => true
  | _ => false

end Phase

structure Loads (ρ : Type) where
  cache : ShardCache ρ
  loading : Dict ShardKey Nat
  events : Nat
  signalled : List Nat
  caller : Nat → Phase ρ

namespace Loads

variable {ρ : Type} (bound : Nat) (content : String → Shard ρ)

def start : Loads ρ := ⟨.empty, [], 0, [], fun _ => .idle⟩

/-- A turn of the `while True`, under the lock. -/
def look (caller : Nat) (key : ShardKey) (s : Loads ρ) : Loads ρ :=
  match s.cache.get key with
  | (some shard, cache) =>
    { s with cache := cache, caller := Function.update s.caller caller (.returned key shard true) }
  | (none, _) => match s.loading.lookup key with
    | some event => { s with caller := Function.update s.caller caller (.waiting key event) }
    | none =>
      { s with
        loading := s.loading.set key s.events, events := s.events + 1
        caller := Function.update s.caller caller (.loading key s.events) }

/-- The load came back. Where `_put` raises, the key stays in `_loading` and the event is never set. -/
def stored (caller : Nat) (key : ShardKey) (event : Nat) (shard : Shard ρ) (s : Loads ρ) : Loads ρ :=
  match s.cache.put bound key shard with
  | .error cache => { s with cache := cache, caller := Function.update s.caller caller .broken }
  | .ok cache =>
    { s with
      cache := cache, loading := s.loading.without key
      caller := Function.update s.caller caller (.leaving key event (some shard)) }

/-- The load raised. -/
def failed (caller : Nat) (key : ShardKey) (event : Nat) (s : Loads ρ) : Loads ρ :=
  { s with
    loading := s.loading.without key
    caller := Function.update s.caller caller (.leaving key event none) }

/-- `mine.set()`, and the call is over. -/
def signal (caller : Nat) (key : ShardKey) (event : Nat) (shard : Option (Shard ρ)) (s : Loads ρ) : Loads ρ :=
  { s with
    signalled := event :: s.signalled
    caller := Function.update s.caller caller (shard.elim .raised fun shard => .returned key shard false) }

inductive Act
  | ask (caller : Nat) (key : ShardKey)
  | wake (caller : Nat)
  | loaded (caller : Nat)
  | failed (caller : Nat)
  | signal (caller : Nat)

/-- `content` is what the blob of a name decodes to: `decode_blob` checks the name first. -/
inductive Step : Loads ρ → Act → Loads ρ → Prop
  | ask {s : Loads ρ} {w : Nat} (key : ShardKey) : (s.caller w).free → Step s (.ask w key) (s.look w key)
  | wake {s : Loads ρ} {w : Nat} {key : ShardKey} {event : Nat} : s.caller w = .waiting key event →
      event ∈ s.signalled → Step s (.wake w) (s.look w key)
  | loaded {s : Loads ρ} {w : Nat} {key : ShardKey} {event : Nat} : s.caller w = .loading key event →
      Step s (.loaded w) (s.stored bound w key event (content key.blobSha256))
  | failed {s : Loads ρ} {w : Nat} {key : ShardKey} {event : Nat} : s.caller w = .loading key event →
      Step s (.failed w) (s.failed w key event)
  | signal {s : Loads ρ} {w : Nat} {key : ShardKey} {event : Nat} {shard : Option (Shard ρ)} :
      s.caller w = .leaving key event shard → Step s (.signal w) (s.signal w key event shard)

/-! ## The invariant -/

/-- Who is waiting, who is loading, and what they have in hand. -/
structure Sound (s : Loads ρ) : Prop where
  kept : s.cache.Kept bound
  right : ∀ entry ∈ s.cache.entries, entry.2 = content entry.1.blobSha256
  loader : ∀ key event, s.loading.lookup key = some event ↔ ∃ w, s.caller w = .loading key event
  one : ∀ w w' event, (s.caller w).event = some event → (s.caller w').event = some event → w = w'
  unset : ∀ w event, (s.caller w).event = some event → event < s.events ∧ event ∉ s.signalled
  made : ∀ event ∈ s.signalled, event < s.events
  awaited : ∀ w key event, s.caller w = .waiting key event →
    event ∈ s.signalled ∨ ∃ w', (s.caller w').event = some event
  absent : ∀ key event, s.loading.lookup key = some event → key ∉ s.cache.entries.map Prod.fst
  answered : ∀ w key shard, (s.caller w).answer = some (key, shard) → shard = content key.blobSha256
  unbroken : ∀ w, s.caller w ≠ .broken

variable {bound : Nat} {content : String → Shard ρ} {s s' : Loads ρ} {w : Nat} {key : ShardKey} {event : Nat}

theorem sound_start : Sound bound content (start : Loads ρ) where
  kept := ShardCache.kept_empty
  right := nofun
  loader := by simp [start]
  one := nofun
  unset := nofun
  made := nofun
  awaited := nofun
  absent := nofun
  answered := nofun
  unbroken := nofun

theorem event_of_loading {phase : Phase ρ} (h : phase = .loading key event) : phase.event = some event := by
  rw [h]
  rfl

/-- A caller without an event of its own goes on without one. -/
theorem Sound.update (h : Sound bound content s) (hw : (s.caller w).event = none) {phase : Phase ρ} {cache : ShardCache ρ}
    (hperm : cache.entries.Perm s.cache.entries) (hkept : cache.Kept bound) (hphase : phase.event = none)
    (hwaiting : ∀ key event, phase = .waiting key event → s.loading.lookup key = some event)
    (hanswer : ∀ key shard, phase.answer = some (key, shard) → shard = content key.blobSha256) (hbroken : phase ≠ .broken) :
    Sound bound content { s with cache := cache, caller := Function.update s.caller w phase } := by
  have hevent : ∀ v, (Function.update s.caller w phase v).event = (s.caller v).event := by
    intro v
    rw [Function.update_apply]
    split
    · rename_i heq
      rw [heq, hw, hphase]
    · rfl
  have hloading : ∀ v key event, Function.update s.caller w phase v = .loading key event ↔ s.caller v = .loading key event := by
    intro v key event
    rw [Function.update_apply]
    split
    · rename_i heq
      rw [heq]
      constructor
      · rintro rfl
        cases hphase
      · intro hold
        rw [hold] at hw
        cases hw
    · rfl
  constructor
  · exact hkept
  · exact fun entry hentry => h.right entry (hperm.mem_iff.mp hentry)
  · intro key event
    simp only [hloading]
    exact h.loader key event
  · intro v v' event hv hv'
    rw [hevent] at hv hv'
    exact h.one v v' event hv hv'
  · intro v event hv
    rw [hevent] at hv
    exact h.unset v event hv
  · exact h.made
  · intro v key event hv
    simp only [hevent]
    simp only [Function.update_apply] at hv
    split at hv
    · obtain ⟨u, hu⟩ := (h.loader key event).mp (hwaiting key event hv)
      exact .inr ⟨u, event_of_loading hu⟩
    · exact h.awaited v key event hv
  · intro key event hkey hmem
    exact h.absent key event hkey ((hperm.map Prod.fst).mem_iff.mp hmem)
  · intro v key shard hv
    simp only [Function.update_apply] at hv
    split at hv
    · exact hanswer key shard hv
    · exact h.answered v key shard hv
  · intro v
    simp only [Function.update_apply]
    split
    · exact hbroken
    · exact h.unbroken v

/-- A caller that finds the key neither held nor being loaded loads it. -/
theorem Sound.claim (h : Sound bound content s) (hw : (s.caller w).event = none) (hloading : s.loading.lookup key = none)
    (hkey : key ∉ s.cache.entries.map Prod.fst) :
    Sound bound content
      { s with
        loading := s.loading.set key s.events, events := s.events + 1
        caller := Function.update s.caller w (.loading key s.events) } := by
  have hnot : ∀ v event, (s.caller v).event = some event → v ≠ w := by
    rintro v event hv rfl
    rw [hw] at hv
    cases hv
  have hnew : ∀ v, (s.caller v).event ≠ some s.events := fun v hv => lt_irrefl _ (h.unset v _ hv).1
  constructor
  · exact h.kept
  · exact h.right
  · intro k event
    simp only [Dict.lookup_set]
    split
    · rename_i hk
      subst hk
      constructor
      · rintro ⟨⟩
        exact ⟨w, Function.update_self ..⟩
      · rintro ⟨v, hv⟩
        rw [Function.update_apply] at hv
        split at hv
        · cases hv
          rfl
        · have hheld := (h.loader k event).mpr ⟨v, hv⟩
          rw [hloading] at hheld
          cases hheld
    · rename_i hk
      rw [h.loader]
      constructor
      · rintro ⟨v, hv⟩
        exact ⟨v, by rw [Function.update_of_ne (hnot v event (event_of_loading hv)), hv]⟩
      · rintro ⟨v, hv⟩
        rw [Function.update_apply] at hv
        split at hv
        · cases hv
          exact absurd rfl hk
        · exact ⟨v, hv⟩
  · intro v v' event hv hv'
    simp only [Function.update_apply] at hv hv'
    split at hv
    · obtain rfl := Option.some.inj hv
      split at hv'
      · rename_i heq heq'
        rw [heq, heq']
      · exact absurd hv' (hnew v')
    · split at hv'
      · obtain rfl := Option.some.inj hv'
        exact absurd hv (hnew v)
      · exact h.one v v' event hv hv'
  · intro v event hv
    simp only [Function.update_apply] at hv
    split at hv
    · obtain rfl := Option.some.inj hv
      exact ⟨Nat.lt_succ_self _, fun hset => lt_irrefl _ (h.made _ hset)⟩
    · exact ⟨(h.unset v event hv).1.trans (Nat.lt_succ_self _), (h.unset v event hv).2⟩
  · exact fun event hevent => (h.made event hevent).trans (Nat.lt_succ_self _)
  · intro v k event hv
    simp only [Function.update_apply] at hv
    split at hv
    · cases hv
    · obtain hset | ⟨u, hu⟩ := h.awaited v k event hv
      · exact .inl hset
      · refine .inr ⟨u, ?_⟩
        simp only [Function.update_of_ne (hnot u event hu)]
        exact hu
  · intro k event hk
    simp only [Dict.lookup_set] at hk
    split at hk
    · rename_i heq
      rw [heq]
      exact hkey
    · exact h.absent k event hk
  · intro v k shard hv
    simp only [Function.update_apply] at hv
    split at hv
    · cases hv
    · exact h.answered v k shard hv
  · intro v
    simp only [Function.update_apply]
    split
    · nofun
    · exact h.unbroken v

/-- A load is over: its key is free, and its event is still to be set. -/
theorem Sound.leave (h : Sound bound content s) (hw : s.caller w = .loading key event) {cache : ShardCache ρ}
    (hkept : cache.Kept bound) (hright : ∀ entry ∈ cache.entries, entry.2 = content entry.1.blobSha256)
    (hkeys : ∀ k ∈ cache.entries.map Prod.fst, k = key ∨ k ∈ s.cache.entries.map Prod.fst) {shard : Option (Shard ρ)}
    (hshard : ∀ r, shard = some r → r = content key.blobSha256) :
    Sound bound content
      { s with
        cache := cache, loading := s.loading.without key
        caller := Function.update s.caller w (.leaving key event shard) } := by
  have hevent : ∀ v, (Function.update s.caller w (.leaving key event shard) v).event = (s.caller v).event := by
    intro v
    rw [Function.update_apply]
    split
    · rename_i heq
      rw [heq, hw]
      rfl
    · rfl
  constructor
  · exact hkept
  · exact hright
  · intro k e
    rw [Dict.lookup_without]
    split
    · rename_i hk
      subst hk
      refine iff_of_false nofun ?_
      rintro ⟨v, hv⟩
      simp only [Function.update_apply] at hv
      split at hv
      · cases hv
      · rename_i hne
        have hheld := (h.loader k e).mpr ⟨v, hv⟩
        rw [(h.loader k event).mpr ⟨w, hw⟩] at hheld
        obtain rfl := Option.some.inj hheld
        exact hne (h.one v w event (event_of_loading hv) (event_of_loading hw))
    · rename_i hk
      rw [h.loader]
      refine exists_congr fun v => ?_
      simp only [Function.update_apply]
      split
      · rename_i heq
        rw [heq, hw]
        refine iff_of_false ?_ nofun
        rintro ⟨⟩
        exact hk rfl
      · rfl
  · intro v v' e hv hv'
    rw [hevent] at hv hv'
    exact h.one v v' e hv hv'
  · intro v e hv
    rw [hevent] at hv
    exact h.unset v e hv
  · exact h.made
  · intro v k e hv
    simp only [hevent]
    simp only [Function.update_apply] at hv
    split at hv
    · cases hv
    · exact h.awaited v k e hv
  · intro k e hk hmem
    rw [Dict.lookup_without] at hk
    split at hk
    · cases hk
    · rename_i hne
      obtain heq | hold := hkeys k hmem
      · exact hne heq
      · exact h.absent k e hk hold
  · intro v k r hv
    simp only [Function.update_apply] at hv
    split at hv
    · cases shard with
      | none => cases hv
      | some r' =>
        obtain ⟨rfl, rfl⟩ := Prod.mk.inj (Option.some.inj hv)
        exact hshard _ rfl
    · exact h.answered v k r hv
  · intro v
    simp only [Function.update_apply]
    split
    · nofun
    · exact h.unbroken v

/-- The event of a load is set, and whoever waits for it can go on. -/
theorem Sound.signal (h : Sound bound content s) {shard : Option (Shard ρ)} (hw : s.caller w = .leaving key event shard) :
    Sound bound content (s.signal w key event shard) := by
  have hmine : (s.caller w).event = some event := by
    rw [hw]
    rfl
  have hgone : (shard.elim Phase.raised fun shard => .returned key shard false : Phase ρ).event = none := by
    cases shard <;> rfl
  have hnew : ∀ v e, (Function.update s.caller w (shard.elim .raised fun shard => .returned key shard false) v).event = some e →
      v ≠ w ∧ (s.caller v).event = some e := by
    intro v e hv
    rw [Function.update_apply] at hv
    split at hv
    · rw [hgone] at hv
      cases hv
    · rename_i hne
      exact ⟨hne, hv⟩
  constructor
  · exact h.kept
  · exact h.right
  · intro k e
    rw [Loads.signal, h.loader]
    refine exists_congr fun v => ?_
    simp only [Function.update_apply]
    split
    · rename_i heq
      rw [heq, hw]
      refine iff_of_false nofun fun hloading => ?_
      rw [event_of_loading hloading] at hgone
      cases hgone
    · rfl
  · intro v v' e hv hv'
    exact h.one v v' e (hnew v e hv).2 (hnew v' e hv').2
  · intro v e hv
    obtain ⟨hne, hbefore⟩ := hnew v e hv
    obtain ⟨hlt, hunset⟩ := h.unset v e hbefore
    refine ⟨hlt, ?_⟩
    rw [Loads.signal, List.mem_cons, not_or]
    refine ⟨?_, hunset⟩
    rintro rfl
    exact hne (h.one v w e hbefore hmine)
  · intro e he
    obtain rfl | he := List.mem_cons.mp he
    · exact (h.unset w e hmine).1
    · exact h.made e he
  · intro v k e hv
    have hbefore : s.caller v = .waiting k e := by
      simp only [Loads.signal, Function.update_apply] at hv
      split at hv
      · cases shard <;> cases hv
      · exact hv
    obtain hset | ⟨u, hu⟩ := h.awaited v k e hbefore
    · exact .inl (List.mem_cons_of_mem _ hset)
    · by_cases hu' : u = w
      · subst hu'
        rw [hmine] at hu
        obtain rfl := Option.some.inj hu
        exact .inl List.mem_cons_self
      · refine .inr ⟨u, ?_⟩
        simp only [Loads.signal, Function.update_of_ne hu']
        exact hu
  · exact h.absent
  · intro v k r hv
    simp only [Loads.signal, Function.update_apply] at hv
    split at hv
    · cases shard with
      | none => cases hv
      | some r' =>
        refine h.answered w k r ?_
        rw [hw]
        exact hv
    · exact h.answered v k r hv
  · intro v
    simp only [Loads.signal, Function.update_apply]
    split
    · cases shard <;> nofun
    · exact h.unbroken v

theorem Sound.look (h : Sound bound content s) (hw : (s.caller w).event = none) (key : ShardKey) :
    Sound bound content (s.look w key) := by
  unfold Loads.look ShardCache.get
  cases hheld : s.cache.entries.lookup key with
  | some shard =>
    have hkept := h.kept.get key
    simp only [ShardCache.get, hheld] at hkept
    refine h.update hw (Dict.perm_touch h.kept.nodup key) hkept rfl nofun ?_ nofun
    rintro k r ⟨⟩
    exact h.right _ (Dict.mem_of_lookup hheld)
  | none =>
    dsimp only
    cases hloading : s.loading.lookup key with
    | some event =>
      refine h.update hw (List.Perm.refl _) h.kept rfl ?_ nofun nofun
      rintro k e ⟨⟩
      exact hloading
    | none =>
      refine h.claim hw hloading fun hmem => ?_
      obtain ⟨⟨k, shard⟩, hentry, rfl⟩ := List.mem_map.mp hmem
      rw [Dict.lookup_of_mem h.kept.nodup hentry] at hheld
      cases hheld

theorem Sound.stored (h : Sound bound content s) (hpos : 0 < (content key.blobSha256).rawBytes)
    (hw : s.caller w = .loading key event) : Sound bound content (s.stored bound w key event (content key.blobSha256)) := by
  have habsent := h.absent key event ((h.loader key event).mpr ⟨w, hw⟩)
  have hshard : ∀ r, some (content key.blobSha256) = some r → r = content key.blobSha256 :=
    fun r hr => (Option.some.inj hr).symm
  unfold Loads.stored
  by_cases hbig : ShardCache.share bound < (content key.blobSha256).rawBytes
  · rw [ShardCache.put_big hbig]
    exact h.leave hw h.kept h.right (fun k hk => .inr hk) hshard
  · obtain ⟨c', hput, hkept, htrim, -⟩ := ShardCache.put_spec h.kept hpos (by omega) habsent
    rw [hput]
    refine h.leave hw hkept ?_ ?_ hshard
    · intro entry hentry
      obtain hold | hlast := List.mem_append.mp (htrim.sublist.subset hentry)
      · exact h.right entry hold
      · rw [List.mem_singleton.mp hlast]
    · intro k hk
      obtain ⟨entry, hentry, rfl⟩ := List.mem_map.mp hk
      obtain hold | hlast := List.mem_append.mp (htrim.sublist.subset hentry)
      · exact .inr (List.mem_map_of_mem hold)
      · exact .inl (congrArg Prod.fst (List.mem_singleton.mp hlast))

theorem Sound.step (hpos : ∀ sha, 0 < (content sha).rawBytes) (h : Sound bound content s) {act : Act}
    (hstep : Step bound content s act s') : Sound bound content s' := by
  cases hstep with
  | ask key hfree =>
    refine h.look ?_ key
    revert hfree
    cases s.caller _ <;> simp [Phase.free, Phase.event]
  | wake hw _ => exact h.look (by rw [hw]; rfl) _
  | loaded hw => exact h.stored (hpos _) hw
  | failed hw => exact h.leave hw h.kept h.right (fun k hk => .inr hk) nofun
  | signal hw => exact h.signal hw

theorem sound_of_run (hpos : ∀ sha, 0 < (content sha).rawBytes) {acts : List Act}
    (hrun : Run (Step bound content) start acts s) : Sound bound content s :=
  Run.invariant (fun _ _ _ h hstep => h.step hpos hstep) sound_start hrun

/-- A caller in a call can take its next step, or waits for one that can. -/
theorem Sound.goes_on (h : Sound bound content s) (hw : (s.caller w).free = false) :
    (∃ act s', Step bound content s act s') ∧ ∀ key event, s.caller w = .waiting key event →
      (∃ s', Step bound content s (.wake w) s') ∨
        ∃ w' act s', (s.caller w').event = some event ∧ (act = .loaded w' ∨ act = .signal w') ∧
          Step bound content s act s' := by
  have howner : ∀ v event, (s.caller v).event = some event →
      ∃ act s', (act = .loaded v ∨ act = .signal v) ∧ Step bound content s act s' := by
    intro v event hv
    cases hphase : s.caller v with
    | loading key e => exact ⟨_, _, .inl rfl, .loaded hphase⟩
    | leaving key e shard => exact ⟨_, _, .inr rfl, .signal hphase⟩
    | _ =>
      rw [hphase] at hv
      cases hv
  have hwaiting : ∀ key event, s.caller w = .waiting key event →
      (∃ s', Step bound content s (.wake w) s') ∨
        ∃ w' act s', (s.caller w').event = some event ∧ (act = .loaded w' ∨ act = .signal w') ∧
          Step bound content s act s' := by
    intro key event hphase
    obtain hset | ⟨v, hv⟩ := h.awaited w key event hphase
    · exact .inl ⟨_, .wake hphase hset⟩
    · obtain ⟨act, s', hact, hstep⟩ := howner v event hv
      exact .inr ⟨v, act, s', hv, hact, hstep⟩
  refine ⟨?_, hwaiting⟩
  cases hphase : s.caller w with
  | waiting key event =>
    obtain ⟨s', hstep⟩ | ⟨_, act, s', _, _, hstep⟩ := hwaiting key event hphase
    · exact ⟨_, s', hstep⟩
    · exact ⟨act, s', hstep⟩
  | loading key event => exact ⟨_, _, .loaded hphase⟩
  | leaving key event shard => exact ⟨_, _, .signal hphase⟩
  | broken => exact absurd hphase (h.unbroken w)
  | _ =>
    rw [hphase] at hw
    cases hw

/-- In any order of the callers' steps: the cache stays within its bound and fair, an answer is the blob
asked for, one caller at a time loads a key, and a wait ends. -/
theorem loads_of_run (hpos : ∀ sha, 0 < (content sha).rawBytes) {acts : List Act}
    (hrun : Run (Step bound content) start acts s) :
    s.cache.Kept bound ∧
      (∀ w key shard hit, s.caller w = .returned key shard hit → shard = content key.blobSha256) ∧
      (∀ w w' key event event', s.caller w = .loading key event → s.caller w' = .loading key event' → w = w') ∧
      (∀ w key event, s.caller w = .waiting key event →
        (∃ s', Step bound content s (.wake w) s') ∨
          ∃ w' act s', (s.caller w').event = some event ∧ (act = .loaded w' ∨ act = .signal w') ∧
            Step bound content s act s') ∧
      ∀ w, s.caller w ≠ .broken := by
  have hsound := sound_of_run hpos hrun
  refine ⟨hsound.kept, ?_, ?_, ?_, hsound.unbroken⟩
  · intro w key shard hit hw
    refine hsound.answered w key shard ?_
    rw [hw]
    rfl
  · intro w w' key event event' hw hw'
    have hheld := (hsound.loader key event).mpr ⟨w, hw⟩
    rw [(hsound.loader key event').mpr ⟨w', hw'⟩] at hheld
    obtain rfl := Option.some.inj hheld
    exact hsound.one w w' _ (event_of_loading hw) (event_of_loading hw')
  · intro w key event hw
    exact (hsound.goes_on (by rw [hw]; rfl)).2 key event hw

/-- Two callers ask for one blob: the first loads it and the second waits for it. -/
def twoAsk : Loads Nat := (start.look 0 ⟨"t", "b"⟩).look 1 ⟨"t", "b"⟩

theorem loads_of_run_two :
    (∀ w key event, twoAsk.caller w = .waiting key event →
      (∃ s', Step 4 (fun _ => ⟨[7], 1⟩) twoAsk (.wake w) s') ∨
        ∃ w' act s', (twoAsk.caller w').event = some event ∧ (act = .loaded w' ∨ act = .signal w') ∧
          Step 4 (fun _ => ⟨[7], 1⟩) twoAsk act s') ∧
      twoAsk.caller 1 = .waiting ⟨"t", "b"⟩ 0 := by
  have hfirst : Run (Step 4 fun _ => (⟨[7], 1⟩ : Shard Nat)) start [.ask 0 ⟨"t", "b"⟩] (start.look 0 ⟨"t", "b"⟩) :=
    .one (.ask _ rfl)
  have hsecond : Run (Step 4 fun _ => (⟨[7], 1⟩ : Shard Nat)) start [.ask 0 ⟨"t", "b"⟩, .ask 1 ⟨"t", "b"⟩] twoAsk :=
    .snoc hfirst (.ask _ rfl)
  exact ⟨(loads_of_run (fun _ => Nat.one_pos) hsecond).2.2.2.1, rfl⟩

end Loads

end SwarmCloud.GraphService
