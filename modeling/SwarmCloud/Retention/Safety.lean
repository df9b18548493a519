import SwarmCloud.Retention.Sweep

/-! # What a sweep may delete

A checkpoint goes only when its task was read and either nothing can resume from
it or the window of the backstop has passed. The window alone decides where a
record is missing, and there the pointer of a task that may come back is not
asked.
-/

namespace SwarmCloud.Retention

open Common Lib

/-! ## The window -/

section Window

variable {c : CheckpointCollector} {ref : CheckpointRef} {keys : List String} {now : Instant}

theorem newestObject_isSome {newest : Option Instant} {r : Option Instant}
    (h : newestObject c.objects newest keys = .ok r) (hne : newest.isSome ∨ keys ≠ []) : r.isSome := by
  induction keys generalizing newest with
  | nil =>
    cases h
    exact hne.resolve_right (by simp)
  | cons key rest ih =>
    unfold newestObject at h
    split at h
    · cases h
    · cases h
    · exact ih h (.inl rfl)

/-- The newest object is old enough exactly when every object has a date that is. -/
theorem newestObject_le_iff (c : CheckpointCollector) (newest : Option Instant) (keys : List String) (bound : Instant) :
    (∃ r, newestObject c.objects newest keys = .ok r ∧ ∀ stamp ∈ r, stamp ≤ bound) ↔
      (∀ stamp ∈ newest, stamp ≤ bound) ∧
        ∀ key ∈ keys, ∃ stamp, c.objects.createdAt key = .ok (some stamp) ∧ stamp ≤ bound := by
  induction keys generalizing newest with
  | nil =>
    constructor
    · rintro ⟨r, ⟨⟩, hr⟩
      exact ⟨hr, by simp⟩
    · rintro ⟨hnewest, -⟩
      exact ⟨newest, rfl, hnewest⟩
  | cons key rest ih =>
    unfold newestObject
    split
    · rename_i exc hdate
      simp [hdate]
    · rename_i hdate
      simp [hdate]
    · rename_i stamp hdate
      have hmax : (∀ s ∈ some (newest.elim stamp (max stamp)), s ≤ bound) ↔
          (∀ s ∈ newest, s ≤ bound) ∧ stamp ≤ bound := by
        cases newest with
        | none => simp
        | some old => simp [and_comm]
      rw [ih, hmax, List.forall_mem_cons, and_assoc]
      simp [hdate]

/-- An object that the backstop dates at the length of its window or more: by the manifest where the pass saw
one, else by the object itself. -/
def Aged (c : CheckpointCollector) (seen : List String) (now : Instant) (ref : CheckpointRef) (key : String) : Prop :=
  ∃ stamp, (if ref.manifestKey ∈ seen then c.objects.downloadBytes ref.manifestKey else c.objects.createdAt key) =
    .ok (some stamp) ∧ seconds c.config.checkpointOrphanBackstopSeconds ≤ now - stamp

theorem holdByObjectAge_eq_none_iff (hne : keys ≠ []) :
    holdByObjectAge c keys now = none ↔ ∀ key ∈ keys, ∃ stamp, c.objects.createdAt key = .ok (some stamp) ∧
      seconds c.config.checkpointOrphanBackstopSeconds ≤ now - stamp := by
  have hswap : ∀ stamp : Instant, seconds c.config.checkpointOrphanBackstopSeconds ≤ now - stamp ↔
      stamp ≤ now - seconds c.config.checkpointOrphanBackstopSeconds := by
    intro stamp
    constructor <;> intro h <;> lia
  have hbound := newestObject_le_iff c none keys (now - seconds c.config.checkpointOrphanBackstopSeconds)
  simp only [Option.not_mem_none, false_imp_iff, implies_true, true_and] at hbound
  simp only [hswap]
  rw [← hbound]
  unfold holdByObjectAge
  split
  · rename_i held herror
    simp [herror]
  · rename_i hnone
    exact absurd (newestObject_isSome hnone (.inr hne)) (by simp)
  · rename_i newest hnewest
    rw [hnewest]
    split
    · rename_i hyoung
      refine ⟨fun h => (by cases h), ?_⟩
      rintro ⟨r, ⟨⟩, hold⟩
      exact absurd ((hswap newest).mpr (hold newest rfl)) (not_le.mpr hyoung)
    · rename_i hold
      refine ⟨fun _ => ⟨some newest, rfl, ?_⟩, fun _ => rfl⟩
      rintro stamp ⟨⟩
      exact (hswap newest).mp (not_lt.mp hold)

theorem backstopHold_eq_none_iff (hne : keys ≠ []) :
    backstopHold c ref keys now = none ↔ ∀ key ∈ keys, Aged c keys now ref key := by
  unfold backstopHold
  split
  · rename_i hmanifest
    rw [holdByObjectAge_eq_none_iff hne]
    simp only [Aged, if_neg hmanifest]
  · rename_i hmanifest
    have hseen := not_not.mp hmanifest
    obtain ⟨key₀, hkey₀⟩ := List.exists_mem_of_ne_nil _ hne
    have haged : (∀ key ∈ keys, Aged c keys now ref key) ↔ ∃ stamp,
        c.objects.downloadBytes ref.manifestKey = .ok (some stamp) ∧
          seconds c.config.checkpointOrphanBackstopSeconds ≤ now - stamp := by
      simp only [Aged, if_pos hseen]
      exact ⟨fun h => h key₀ hkey₀, fun h _ _ => h⟩
    rw [haged]
    split
    · rename_i exc herror
      simp [herror]
    · rename_i hnone
      simp [hnone]
    · rename_i stamp hstamp
      rw [hstamp]
      split
      · rename_i hyoung
        refine ⟨fun h => (by cases h), ?_⟩
        rintro ⟨old, ⟨⟩, hold⟩
        exact absurd hold (not_le.mpr hyoung)
      · rename_i hold
        exact ⟨fun _ => ⟨stamp, rfl, not_lt.mp hold⟩, fun _ => rfl⟩

end Window

/-! ## Which checkpoints a pass takes up -/

section Scanned

variable {limit : Int} {listed keys : List String} {ref : CheckpointRef}

/-- A checkpoint of the scanned keys, and not the last one of a listing that was cut. -/
def Taken (limit : Int) (listed : List String) (ref : CheckpointRef) : Prop :=
  (∃ key ∈ scanKeys limit listed, parseCheckpointKey key = some ref) ∧
    (limit < listed.length → ∃ key ∈ scanKeys limit listed, ∃ other,
      parseCheckpointKey key = some other ∧ ref.keyPrefix < other.keyPrefix)

/-- The scanned keys of a checkpoint. -/
def keysOf (limit : Int) (listed : List String) (ref : CheckpointRef) : List String :=
  (scanKeys limit listed).filter fun key => parseCheckpointKey key = some ref

theorem mem_parsedKeys {item : CheckpointRef × String} :
    item ∈ parsedKeys keys ↔ item.2 ∈ keys ∧ parseCheckpointKey item.2 = some item.1 := by
  obtain ⟨ref, key⟩ := item
  simp [parsedKeys, and_comm]

theorem refs_lookup_iff {path : String} :
    (scanAll keys).refs.lookup path = some ref ↔
      (∃ key ∈ keys, parseCheckpointKey key = some ref) ∧ ref.keyPrefix = path := by
  have hval : ∀ a ∈ parsedKeys keys, ∀ b ∈ parsedKeys keys, a.1.keyPrefix = b.1.keyPrefix → a.1 = b.1 := by
    intro a ha b hb hpath
    exact ref_eq_of_path (proper_of_parse (mem_parsedKeys.mp ha).2) (proper_of_parse (mem_parsedKeys.mp hb).2) hpath
  have hlookup := Dict.lookup_filled (fun item : CheckpointRef × String => item.1.keyPrefix) Prod.fst hval path ref
  rw [scanAll, hlookup]
  constructor
  · rintro ⟨⟨ref', key⟩, hitem, hpath, rfl⟩
    obtain ⟨hkey, hparse⟩ := mem_parsedKeys.mp hitem
    exact ⟨⟨key, hkey, hparse⟩, hpath⟩
  · rintro ⟨⟨key, hkey, hparse⟩, hpath⟩
    exact ⟨(ref, key), mem_parsedKeys.mpr ⟨hkey, hparse⟩, hpath, rfl⟩

theorem nodup_refs (keys : List String) : ((scanAll keys).refs.map Prod.fst).Nodup :=
  Dict.nodup_filled _ _ _

theorem byPrefix_lookup (h : ref.Proper) (hmem : ∃ key ∈ keys, parseCheckpointKey key = some ref) :
    (scanAll keys).byPrefix.lookup ref.keyPrefix =
      some (keys.filter fun key => parseCheckpointKey key = some ref) := by
  have hgroup : ((parsedKeys keys).filter fun item => item.1.keyPrefix = ref.keyPrefix).map Prod.snd =
      keys.filter fun key => parseCheckpointKey key = some ref := by
    clear hmem
    induction keys with
    | nil => rfl
    | cons key rest ih =>
      cases hparse : parseCheckpointKey key with
      | none =>
        have hitems : parsedKeys (key :: rest) = parsedKeys rest := by simp [parsedKeys, hparse]
        rw [hitems, ih, List.filter_cons_of_neg (by simp [hparse])]
      | some other =>
        have hitems : parsedKeys (key :: rest) = (other, key) :: parsedKeys rest := by simp [parsedKeys, hparse]
        rw [hitems]
        by_cases heq : other = ref
        · subst heq
          rw [List.filter_cons_of_pos (by simp), List.filter_cons_of_pos (by simp [hparse]), List.map_cons, ih]
        · have hpath : other.keyPrefix ≠ ref.keyPrefix := fun hpath => heq (ref_eq_of_path (proper_of_parse hparse) h hpath)
          rw [List.filter_cons_of_neg (by simp [hpath]), List.filter_cons_of_neg (by simp [hparse, heq]), ih]
  obtain ⟨key, hkey, hparse⟩ := hmem
  have hitem : (ref, key) ∈ parsedKeys keys := mem_parsedKeys.mpr ⟨hkey, hparse⟩
  have hmem := Dict.exists_group (fun item : CheckpointRef × String => item.1.keyPrefix) Prod.snd hitem
  rw [scanAll, Dict.lookup_of_mem (Dict.nodup_grouped _ _ _) hmem, hgroup]

theorem mem_byPrefix_keys {path : String} :
    path ∈ (scanAll keys).byPrefix.map Prod.fst ↔
      ∃ key ∈ keys, ∃ other, parseCheckpointKey key = some other ∧ other.keyPrefix = path := by
  constructor
  · intro hpath
    obtain ⟨⟨path', group⟩, hitem, rfl⟩ := List.mem_map.mp hpath
    have hgroup := Dict.lookup_of_mem (Dict.nodup_grouped _ _ _) hitem
    rw [Dict.lookup_grouped] at hgroup
    cases hvals : (parsedKeys keys).filter fun item => item.1.keyPrefix = path' with
    | nil => rw [hvals] at hgroup; cases hgroup
    | cons item rest =>
      obtain ⟨hitem, hpath⟩ := List.mem_filter.mp (hvals ▸ List.mem_cons_self : item ∈ _)
      obtain ⟨hkey, hparse⟩ := mem_parsedKeys.mp hitem
      exact ⟨item.2, hkey, item.1, hparse, of_decide_eq_true hpath⟩
  · rintro ⟨key, hkey, other, hparse, rfl⟩
    exact Dict.mem_grouped (fun item : CheckpointRef × String => item.1.keyPrefix) Prod.snd
      (mem_parsedKeys.mpr ⟨hkey, hparse⟩ : (other, key) ∈ _)

/-- Dropping the last group leaves the checkpoints that have another one after them. -/
theorem lookup_dropLast {path : String} (hpath : path ∈ (scanAll keys).byPrefix.map Prod.fst) :
    (∃ later ∈ (scanAll keys).byPrefix.map Prod.fst, path < later) ∧
        (scanAll keys).dropLast.refs.lookup path = (scanAll keys).refs.lookup path ∧
        (scanAll keys).dropLast.byPrefix.lookup path = (scanAll keys).byPrefix.lookup path ∨
      (∀ later ∈ (scanAll keys).byPrefix.map Prod.fst, ¬ path < later) ∧
        (scanAll keys).dropLast.refs.lookup path = none := by
  unfold Scan.dropLast
  split
  · rename_i hnone
    rw [List.max?_eq_none_iff.mp hnone] at hpath
    cases hpath
  · rename_i last hlast
    obtain ⟨hmem, hmax⟩ := List.max?_eq_some_iff.mp hlast
    rw [Dict.lookup_filter_ne, Dict.lookup_filter_ne]
    rcases lt_or_eq_of_le (hmax path hpath) with hlt | rfl
    · left
      rw [if_neg hlt.ne, if_neg hlt.ne]
      exact ⟨⟨last, hmem, hlt⟩, rfl, rfl⟩
    · right
      rw [if_pos rfl]
      exact ⟨fun later hlater => not_lt.mpr (hmax later hlater), rfl⟩

theorem Taken.proper (h : Taken limit listed ref) : ref.Proper := by
  obtain ⟨⟨key, -, hparse⟩, -⟩ := h
  exact proper_of_parse hparse

theorem scan_refs_iff {path : String} :
    (scan limit listed).refs.lookup path = some ref ↔ Taken limit listed ref ∧ ref.keyPrefix = path := by
  unfold scan Taken
  dsimp only
  split
  · rename_i hcut
    constructor
    · intro hlookup
      have hpath : path ∈ (scanAll (scanKeys limit listed)).byPrefix.map Prod.fst := by
        by_contra hpath
        have hnone : (scanAll (scanKeys limit listed)).refs.lookup path = none := by
          rw [Option.eq_none_iff_forall_ne_some]
          intro other hother
          obtain ⟨⟨key, hkey, hparse⟩, hpath'⟩ := refs_lookup_iff.mp hother
          exact hpath (mem_byPrefix_keys.mpr ⟨key, hkey, other, hparse, hpath'⟩)
        unfold Scan.dropLast at hlookup
        split at hlookup
        · rw [hnone] at hlookup
          cases hlookup
        · rw [Dict.lookup_filter_ne, hnone, ite_self] at hlookup
          cases hlookup
      rcases lookup_dropLast hpath with ⟨⟨later, hlater, hlt⟩, hrefs, -⟩ | ⟨-, hnone⟩
      · rw [hrefs] at hlookup
        obtain ⟨hparsed, rfl⟩ := refs_lookup_iff.mp hlookup
        obtain ⟨key, hkey, other, hparse, rfl⟩ := mem_byPrefix_keys.mp hlater
        exact ⟨⟨hparsed, fun _ => ⟨key, hkey, other, hparse, hlt⟩⟩, rfl⟩
      · rw [hnone] at hlookup
        cases hlookup
    · rintro ⟨⟨⟨key, hkey, hparse⟩, hlater⟩, rfl⟩
      obtain ⟨key', hkey', other, hparse', hlt⟩ := hlater hcut
      have hother := mem_byPrefix_keys.mpr ⟨key', hkey', other, hparse', rfl⟩
      rcases lookup_dropLast (mem_byPrefix_keys.mpr ⟨key, hkey, ref, hparse, rfl⟩) with ⟨-, hrefs, -⟩ | ⟨hlast, -⟩
      · rw [hrefs]
        exact refs_lookup_iff.mpr ⟨⟨key, hkey, hparse⟩, rfl⟩
      · exact absurd hlt (hlast _ hother)
  · rename_i hcut
    rw [refs_lookup_iff]
    simp [hcut]

theorem scan_byPrefix (h : Taken limit listed ref) :
    (scan limit listed).byPrefix.lookup ref.keyPrefix = some (keysOf limit listed ref) := by
  have hall := byPrefix_lookup h.proper h.1
  obtain ⟨⟨key, hkey, hparse⟩, hlater⟩ := h
  unfold scan
  dsimp only
  split
  · rename_i hcut
    obtain ⟨key', hkey', other, hparse', hlt⟩ := hlater hcut
    have hother := mem_byPrefix_keys.mpr ⟨key', hkey', other, hparse', rfl⟩
    rcases lookup_dropLast (mem_byPrefix_keys.mpr ⟨key, hkey, ref, hparse, rfl⟩) with ⟨-, -, hgroup⟩ | ⟨hlast, -⟩
    · rw [hgroup, hall]
      rfl
    · exact absurd hlt (hlast _ hother)
  · exact hall

theorem mem_scan_refs_iff {path : String} :
    (path, ref) ∈ (scan limit listed).refs ↔ Taken limit listed ref ∧ ref.keyPrefix = path := by
  have hnodup : ((scan limit listed).refs.map Prod.fst).Nodup := by
    unfold scan
    dsimp only
    split
    · unfold Scan.dropLast
      split
      · exact nodup_refs _
      · exact (nodup_refs _).sublist (List.filter_sublist.map Prod.fst)
    · exact nodup_refs _
  rw [← scan_refs_iff]
  exact ⟨Dict.lookup_of_mem hnodup, Dict.mem_of_lookup⟩

theorem keysOf_ne_nil (h : Taken limit listed ref) : keysOf limit listed ref ≠ [] := by
  obtain ⟨⟨key, hkey, hparse⟩, -⟩ := h
  exact List.ne_nil_of_mem (List.mem_filter.mpr ⟨hkey, decide_eq_true hparse⟩)

theorem mem_keysOf_iff {key : String} :
    key ∈ keysOf limit listed ref ↔ key ∈ scanKeys limit listed ∧ parseCheckpointKey key = some ref := by
  rw [keysOf, List.mem_filter, decide_eq_true_eq]

end Scanned

/-! ## Which keys a pass deletes -/

section Deleted

variable {c : CheckpointCollector} {delete : String → Except String Unit} {now : Instant}

theorem mem_deleteOrder {ref : CheckpointRef} {keys : List String} {key : String} :
    key ∈ deleteOrder ref keys ↔ key ∈ keys := by
  rw [deleteOrder, List.mem_append, mem_sortBy, List.mem_filter]
  by_cases hkey : key = ref.manifestKey
  · subst hkey
    by_cases hmem : ref.manifestKey ∈ keys <;> simp [hmem]
  · split <;> simp [hkey]

theorem deleteKeys_subset {keys : List String} {key : String} (h : key ∈ (deleteKeys delete keys).1) : key ∈ keys := by
  induction keys with
  | nil => exact h
  | cons first rest ih =>
    unfold deleteKeys at h
    split at h
    · rw [List.mem_singleton.mp h]
      exact List.mem_cons_self
    · rcases List.mem_cons.mp h with rfl | h
      · exact List.mem_cons_self
      · exact List.mem_cons_of_mem _ (ih h)

theorem deleteKeys_all (keys : List String) : deleteKeys (fun _ => .ok ()) keys = (keys, none) := by
  induction keys with
  | nil => rfl
  | cons key rest ih =>
    unfold deleteKeys
    dsimp only
    rw [ih]

/-- The decision and the backstop let the checkpoint go. -/
def Collected (c : CheckpointCollector) (now : Instant) (ref : CheckpointRef) (keys : List String)
    (task : Option TaskView) (attempts : List AttemptView) : Prop :=
  c.config.dryRun = false ∧
    ((classify ref task attempts).disposition = .reclaim ∨
      (classify ref task attempts).disposition = .backstop ∧ backstopHold c ref keys now = none)

variable {ref : CheckpointRef} {keys : List String} {task : Option TaskView} {attempts : List AttemptView}

theorem Collected.not_kept (h : Collected c now ref keys task attempts) :
    (classify ref task attempts).disposition ≠ .keep := by
  rintro hkeep
  rcases h with ⟨-, hgo | ⟨hgo, -⟩⟩ <;> rw [hkeep] at hgo <;> cases hgo

theorem mem_collect_deletes {row : CheckpointOutcome} {key : String}
    (h : key ∈ (collect c delete ref keys row).deletes) : c.config.dryRun = false ∧ key ∈ keys := by
  unfold collect at h
  split at h
  · cases h
  · rename_i hdry
    have hcalls : key ∈ (deleteKeys delete (deleteOrder ref keys)).1 := by
      split at h
      · rename_i deletes exc hcalls
        rw [hcalls]
        exact h
      · rename_i deletes hcalls
        rw [hcalls]
        exact h
    exact ⟨Bool.eq_false_iff.mpr hdry, mem_deleteOrder.mp (deleteKeys_subset hcalls)⟩

theorem mem_act_deletes {key : String} (h : key ∈ (act c delete now ref keys task attempts).deletes) :
    Collected c now ref keys task attempts ∧ key ∈ keys := by
  unfold act at h
  dsimp only at h
  split at h
  · cases h
  · rename_i hreclaim
    obtain ⟨hdry, hkey⟩ := mem_collect_deletes h
    exact ⟨⟨hdry, .inl hreclaim⟩, hkey⟩
  · rename_i hbackstop
    split at h
    · cases h
    · rename_i hhold
      obtain ⟨hdry, hkey⟩ := mem_collect_deletes h
      exact ⟨⟨hdry, .inr ⟨hbackstop, hhold⟩⟩, hkey⟩

theorem collect_all (hdry : c.config.dryRun = false) (row : CheckpointOutcome) :
    ∃ row', collect c (fun _ => .ok ()) ref keys row = .outcome row' (deleteOrder ref keys) := by
  unfold collect
  rw [if_neg (by simp [hdry]), deleteKeys_all]
  exact ⟨_, rfl⟩

/-- Where no call of `delete` raises, a pass goes on, and a collected checkpoint is deleted whole. -/
theorem act_all (c : CheckpointCollector) (now : Instant) (ref : CheckpointRef) (keys : List String)
    (task : Option TaskView) (attempts : List AttemptView) :
    act c (fun _ => .ok ()) now ref keys task attempts = .kept ∨
      ∃ row deletes, act c (fun _ => .ok ()) now ref keys task attempts = .outcome row deletes := by
  unfold act
  dsimp only
  have hcollect : ∀ row, ∃ row' deletes, collect c (fun _ => .ok ()) ref keys row = .outcome row' deletes := by
    intro row
    cases hdry : c.config.dryRun with
    | true => exact ⟨_, _, by rw [collect, if_pos hdry]⟩
    | false =>
      obtain ⟨row', hrow'⟩ := collect_all hdry row
      exact ⟨row', _, hrow'⟩
  split
  · exact .inl rfl
  · exact .inr (hcollect _)
  · split
    · exact .inr ⟨_, _, rfl⟩
    · exact .inr (hcollect _)

theorem act_collected (h : Collected c now ref keys task attempts) :
    ∃ row, act c (fun _ => .ok ()) now ref keys task attempts = .outcome row (deleteOrder ref keys) := by
  obtain ⟨hdry, hreclaim | ⟨hbackstop, hhold⟩⟩ := h
  · unfold act
    dsimp only
    rw [hreclaim]
    exact collect_all hdry _
  · unfold act
    dsimp only
    rw [hbackstop]
    dsimp only
    rw [hhold]
    exact collect_all hdry _

/-- The turn of a path deletes a key. -/
def Turn (c : CheckpointCollector) (now : Instant) (s : Scan) (task : Option TaskView) (attempts : List AttemptView)
    (path key : String) : Prop :=
  ∃ ref keys, s.refs.lookup path = some ref ∧ s.byPrefix.lookup path = some keys ∧
    Collected c now ref keys task attempts ∧ key ∈ keys

theorem examine_adds {s : Scan} {pass : Pass} {path key : String}
    (h : key ∈ (examine c delete now s task attempts pass path).deletes) :
    key ∈ pass.deletes ∨ Turn c now s task attempts path key := by
  unfold examine at h
  split at h
  · rename_i ref keys _ href hkeys
    have hturn : key ∈ (act c delete now ref keys task attempts).deletes → Turn c now s task attempts path key := by
      intro hact
      obtain ⟨hcollected, hkey⟩ := mem_act_deletes hact
      exact ⟨ref, keys, href, hkeys, hcollected, hkey⟩
    split at h
    · exact .inl h
    · rename_i hact
      rw [hact] at hturn
      exact (List.mem_append.mp h).imp_right hturn
    · rename_i hact
      rw [hact] at hturn
      exact (List.mem_append.mp h).imp_right hturn
  · exact .inl h

theorem examine_all {s : Scan} {pass : Pass} {path : String} (hraised : pass.raised = none) :
    (examine c (fun _ => .ok ()) now s task attempts pass path).raised = none ∧
      ∀ key, key ∈ pass.deletes ∨ Turn c now s task attempts path key →
        key ∈ (examine c (fun _ => .ok ()) now s task attempts pass path).deletes := by
  unfold examine
  split
  · rename_i ref keys _ href hkeys
    have hturn : ∀ key, Turn c now s task attempts path key →
        key ∈ (act c (fun _ => .ok ()) now ref keys task attempts).deletes := by
      rintro key ⟨ref', keys', href', hkeys', hcollected, hkey⟩
      rw [href, Option.some.injEq] at href'
      rw [hkeys, Option.some.injEq] at hkeys'
      subst href' hkeys'
      obtain ⟨row, hrow⟩ := act_collected hcollected
      rw [hrow]
      exact mem_deleteOrder.mpr hkey
    rcases act_all c now ref keys task attempts with hact | ⟨row, deletes, hact⟩
    · rw [hact] at hturn ⊢
      exact ⟨hraised, fun key hkey => hkey.resolve_right fun hkey => nomatch hturn key hkey⟩
    · rw [hact] at hturn ⊢
      exact ⟨hraised, fun key hkey => List.mem_append.mpr (hkey.imp_right (hturn key))⟩
  · rename_i hother
    refine ⟨hraised, fun key hkey => hkey.resolve_right ?_⟩
    rintro ⟨ref, keys, href, hkeys, -⟩
    exact hother ref keys hraised href hkeys

/-- The group of a task deletes a key. -/
def GroupTurn (c : CheckpointCollector) (now : Instant) (s : Scan) (item : (String × String) × List String)
    (key : String) : Prop :=
  ∃ task attempts, c.taskAndAttempts item.1.1 item.1.2 = .ok (task, attempts) ∧
    ∃ path ∈ item.2, Turn c now s task attempts path key

theorem sweepTask_adds {s : Scan} {pass : Pass} {item : (String × String) × List String} {key : String}
    (h : key ∈ (sweepTask c delete now s pass item).deletes) : key ∈ pass.deletes ∨ GroupTurn c now s item key := by
  unfold sweepTask at h
  split at h
  · exact .inl h
  · split at h
    · exact .inl h
    · rename_i task attempts hread
      have hstep : ∀ pass path key, key ∈ (examine c delete now s task attempts pass path).deletes →
          key ∈ pass.deletes ∨ Turn c now s task attempts path key := fun _ _ _ => examine_adds
      rcases mem_foldl_collect hstep h with hbefore | ⟨path, hpath, hturn⟩
      · exact .inl hbefore
      · exact .inr ⟨task, attempts, hread, path, mem_sortBy.mp hpath, hturn⟩

theorem sweepTask_all {s : Scan} {pass : Pass} {item : (String × String) × List String} (hraised : pass.raised = none) :
    (sweepTask c (fun _ => .ok ()) now s pass item).raised = none ∧
      ∀ key, key ∈ pass.deletes ∨ GroupTurn c now s item key →
        key ∈ (sweepTask c (fun _ => .ok ()) now s pass item).deletes := by
  unfold sweepTask
  rw [hraised]
  dsimp only
  split
  · rename_i exc hread
    refine ⟨rfl, fun key hkey => hkey.resolve_right ?_⟩
    rintro ⟨task, attempts, hread', -⟩
    rw [hread] at hread'
    cases hread'
  · rename_i task attempts hread
    have hloop := foldl_collect (I := fun pass : Pass => pass.raised = none)
      (fun _ _ hs => (examine_all hs).1) (fun _ _ key hs hkey => (examine_all hs).2 key (.inl hkey))
      (fun _ path key hs (hturn : Turn c now s task attempts path key) => (examine_all hs).2 key (.inr hturn))
      (l := sortBy id item.2) hraised
    refine ⟨hloop.1, fun key hkey => hloop.2 key (hkey.imp_right ?_)⟩
    rintro ⟨task', attempts', hread', path, hpath, hturn⟩
    rw [hread] at hread'
    cases hread'
    exact ⟨path, mem_sortBy.mpr hpath, hturn⟩

/-- The pass takes up the checkpoint, its task is read, and it is let go. -/
structure Gone (c : CheckpointCollector) (now : Instant) (listed : List String) (ref : CheckpointRef)
    (task : Option TaskView) (attempts : List AttemptView) : Prop where
  listing : c.objects.listKeys = .ok listed
  taken : Taken c.config.checkpointScanLimit listed ref
  read : c.taskAndAttempts ref.tenantId ref.taskId = .ok (task, attempts)
  collected : Collected c now ref (keysOf c.config.checkpointScanLimit listed ref) task attempts

theorem groupTurn_iff {listed : List String} (hlisting : c.objects.listKeys = .ok listed) {key : String} :
    (∃ item ∈ byTask (scan c.config.checkpointScanLimit listed),
        GroupTurn c now (scan c.config.checkpointScanLimit listed) item key) ↔
      ∃ ref task attempts, Gone c now listed ref task attempts ∧
        key ∈ keysOf c.config.checkpointScanLimit listed ref := by
  constructor
  · rintro ⟨⟨⟨tenant, taskId⟩, paths⟩, hitem, task, attempts, hread, path, hpath, ref, keys, href, hkeys, hcollected,
      hkey⟩
    obtain ⟨htaken, rfl⟩ := scan_refs_iff.mp href
    rw [scan_byPrefix htaken, Option.some.injEq] at hkeys
    subst hkeys
    rw [Dict.mem_of_mem_grouped _ _ hitem] at hpath
    obtain ⟨⟨path', ref'⟩, hmem, hpath'⟩ := List.mem_map.mp hpath
    obtain ⟨hmem, hgroup⟩ := List.mem_filter.mp hmem
    obtain ⟨htaken', rfl⟩ := mem_scan_refs_iff.mp hmem
    have hsame : ref' = ref := ref_eq_of_path htaken'.proper htaken.proper hpath'
    subst hsame
    cases of_decide_eq_true hgroup
    exact ⟨ref', task, attempts, ⟨hlisting, htaken, hread, hcollected⟩, hkey⟩
  · rintro ⟨ref, task, attempts, hgone, hkey⟩
    have hmem : (ref.keyPrefix, ref) ∈ (scan c.config.checkpointScanLimit listed).refs :=
      mem_scan_refs_iff.mpr ⟨hgone.taken, rfl⟩
    refine ⟨_, Dict.exists_group _ _ hmem, task, attempts, hgone.read, ref.keyPrefix, ?_, ref, _,
      scan_refs_iff.mpr ⟨hgone.taken, rfl⟩, scan_byPrefix hgone.taken, hgone.collected, hkey⟩
    exact List.mem_map.mpr ⟨_, List.mem_filter.mpr ⟨hmem, by simp⟩, rfl⟩

/-- Every key that a pass deletes is one of a checkpoint that was let go. -/
theorem mem_sweep_deletes {key : String} (h : key ∈ (sweep c delete now).deletes) :
    ∃ listed ref task attempts, Gone c now listed ref task attempts ∧
      key ∈ keysOf c.config.checkpointScanLimit listed ref := by
  unfold sweep at h
  split at h
  · cases h
  · rename_i listed hlisting
    have hstep : ∀ pass item key,
        key ∈ (sweepTask c delete now (scan c.config.checkpointScanLimit listed) pass item).deletes →
          key ∈ pass.deletes ∨ GroupTurn c now (scan c.config.checkpointScanLimit listed) item key :=
      fun _ _ _ => sweepTask_adds
    rcases mem_foldl_collect hstep h with hbefore | ⟨item, hitem, hturn⟩
    · cases hbefore
    · exact ⟨listed, (groupTurn_iff hlisting).mp ⟨item, mem_sortBy.mp hitem, hturn⟩⟩

theorem sweep_deletes {listed : List String} {key : String} (hgone : Gone c now listed ref task attempts)
    (hkey : key ∈ keysOf c.config.checkpointScanLimit listed ref) :
    key ∈ (sweep c (fun _ => .ok ()) now).deletes := by
  obtain ⟨item, hitem, hturn⟩ := (groupTurn_iff hgone.listing).mpr ⟨ref, task, attempts, hgone, hkey⟩
  unfold sweep
  rw [hgone.listing]
  dsimp only
  refine (foldl_collect (I := fun pass : Pass => pass.raised = none) (fun _ _ hs => (sweepTask_all hs).1)
    (fun _ _ key hs hkey => (sweepTask_all hs).2 key (.inl hkey))
    (fun _ item key hs (hturn : GroupTurn c now _ item key) => (sweepTask_all hs).2 key (.inr hturn)) ?_).2 key
    (.inr ⟨item, mem_sortBy.mpr hitem, hturn⟩)
  rfl

end Deleted

/-! ## What a retry can resume from -/

/-- The task may be admitted again, and its pointer names a checkpoint of the same attempt. -/
def PointerHolds (ref : CheckpointRef) (task : TaskView) (pointer : String) (target : CheckpointRef) : Prop :=
  canTransition task.state .ready = true ∧ task.latestCheckpoint = some pointer ∧ target.Proper ∧
    Names pointer target ∧ sameAttempt target ref = true

def Resumable (c : CheckpointCollector) (ref : CheckpointRef) : Prop :=
  ∃ task attempts, c.taskAndAttempts ref.tenantId ref.taskId = .ok (some task, attempts) ∧
    (task.tenantId = "" ∨ task.tenantId = ref.tenantId) ∧
    (isTerminal task.state = false ∨ ∃ pointer target, PointerHolds ref task pointer target)

/-- The keys that the pass looks at. -/
def seenKeys (c : CheckpointCollector) : List String :=
  match c.objects.listKeys with
  | .ok listed => scanKeys c.config.checkpointScanLimit listed
  | .error _ => []

/-- Whatever `delete` does, a sweep asks it only for objects inside a checkpoint that no retry can resume from and
whose task was read; where a record is missing or open, the object is as old as the window. -/
def Safe (c : CheckpointCollector) (now : Instant) : Prop :=
  ∀ delete, ∀ key ∈ (sweep c delete now).deletes, ∃ ref, parseCheckpointKey key = some ref ∧ ¬ Resumable c ref ∧
    ∃ task attempts, c.taskAndAttempts ref.tenantId ref.taskId = .ok (task, attempts) ∧
      (task = none ∨ RecordsIncomplete ref attempts → Aged c (seenKeys c) now ref key)

/-- A terminal task may come back and its pointer needs the checkpoint, but a record is missing or open and the
window has passed, or the pointer is the bare name of a checkpoint that is called `manifest.json`. -/
def Exposed (c : CheckpointCollector) (now : Instant) (ref : CheckpointRef) : Prop :=
  ∃ listed task attempts pointer target, c.objects.listKeys = .ok listed ∧
    Taken c.config.checkpointScanLimit listed ref ∧
    c.taskAndAttempts ref.tenantId ref.taskId = .ok (some task, attempts) ∧
    (task.tenantId = "" ∨ task.tenantId = ref.tenantId) ∧ isTerminal task.state = true ∧
    PointerHolds ref task pointer target ∧
    (RecordsIncomplete ref attempts ∧
        (∀ key ∈ keysOf c.config.checkpointScanLimit listed ref, Aged c (seenKeys c) now ref key) ∨
      ¬ RecordsIncomplete ref attempts ∧ Truncated pointer target)

section Safety

variable {c : CheckpointCollector} {now : Instant} {ref : CheckpointRef} {listed : List String}

theorem aged_keysOf_iff (hlisting : c.objects.listKeys = .ok listed)
    (htaken : Taken c.config.checkpointScanLimit listed ref) {key : String} :
    Aged c (keysOf c.config.checkpointScanLimit listed ref) now ref key ↔ Aged c (seenKeys c) now ref key := by
  have hseen : seenKeys c = scanKeys c.config.checkpointScanLimit listed := by rw [seenKeys, hlisting]
  have hmanifest : ref.manifestKey ∈ keysOf c.config.checkpointScanLimit listed ref ↔ ref.manifestKey ∈ seenKeys c := by
    rw [mem_keysOf_iff, hseen]
    exact and_iff_left (parse_under htaken.proper manifestName)
  rw [Aged, Aged, if_congr hmanifest rfl rfl]

theorem hold_none_iff (hlisting : c.objects.listKeys = .ok listed)
    (htaken : Taken c.config.checkpointScanLimit listed ref) :
    backstopHold c ref (keysOf c.config.checkpointScanLimit listed ref) now = none ↔
      ∀ key ∈ keysOf c.config.checkpointScanLimit listed ref, Aged c (seenKeys c) now ref key := by
  rw [backstopHold_eq_none_iff (keysOf_ne_nil htaken)]
  exact forall₂_congr fun _ _ => aged_keysOf_iff hlisting htaken

/-- What was let go while a record is missing or open is old. -/
theorem Gone.aged {task : Option TaskView} {attempts : List AttemptView} {key : String}
    (h : Gone c now listed ref task attempts) (hkey : key ∈ keysOf c.config.checkpointScanLimit listed ref)
    (hrecords : task = none ∨ RecordsIncomplete ref attempts) : Aged c (seenKeys c) now ref key := by
  have hhold : backstopHold c ref (keysOf c.config.checkpointScanLimit listed ref) now = none := by
    obtain ⟨-, hreclaim | ⟨-, hhold⟩⟩ := h.collected
    · exfalso
      cases task with
      | none => cases hreclaim
      | some task =>
        have hrecords := hrecords.resolve_left (by simp)
        by_cases hkept : (task.tenantId ≠ "" ∧ task.tenantId ≠ ref.tenantId) ∨ isTerminal task.state = false
        · rw [classify_kept hkept] at hreclaim
          cases hreclaim
        · obtain ⟨htenant, hterminal⟩ := not_or.mp hkept
          have htenant : task.tenantId = "" ∨ task.tenantId = ref.tenantId := by
            rwa [not_and_or, not_not, not_not] at htenant
          rw [classify_incomplete htenant (Bool.not_eq_false _ ▸ hterminal) hrecords] at hreclaim
          cases hreclaim
    · exact hhold
  exact (hold_none_iff h.listing h.taken).mp hhold key hkey

/-- What was let go although a retry can resume from it is exposed. -/
theorem Gone.exposed {task : Option TaskView} {attempts : List AttemptView}
    (h : Gone c now listed ref task attempts) (hresumable : Resumable c ref) : Exposed c now ref := by
  obtain ⟨task', attempts', hread, htenant, hheld⟩ := hresumable
  have hsame := hread.symm.trans h.read
  simp only [Except.ok.injEq, Prod.mk.injEq] at hsame
  obtain ⟨rfl, rfl⟩ := hsame
  rcases hheld with hlive | ⟨pointer, target, hpointer⟩
  · exact absurd (classify_kept (.inr hlive)) h.collected.not_kept
  · have hterminal : isTerminal task'.state = true := by
      by_contra hlive
      exact h.collected.not_kept (classify_kept (.inr (Bool.eq_false_iff.mpr hlive)))
    refine ⟨listed, task', attempts', pointer, target, h.listing, h.taken, hread, htenant, hterminal, hpointer, ?_⟩
    by_cases hrecords : RecordsIncomplete ref attempts'
    · exact .inl ⟨hrecords, fun key hkey => h.aged hkey (.inr hrecords)⟩
    · refine .inr ⟨hrecords, ?_⟩
      by_contra hwhole
      obtain ⟨hready, hlatest, hproper, hnames, hattempt⟩ := hpointer
      refine h.collected.not_kept ?_
      rw [classify_complete htenant hterminal hrecords]
      exact byPointer_of_names hready hlatest hproper hnames hwhole hattempt

/-- An exposed checkpoint is let go, outside a dry run. -/
theorem Exposed.gone (h : Exposed c now ref) (hdry : c.config.dryRun = false) :
    Resumable c ref ∧ ∃ listed task attempts, Gone c now listed ref task attempts := by
  obtain ⟨listed, task, attempts, pointer, target, hlisting, htaken, hread, htenant, hterminal, hpointer, hhow⟩ := h
  refine ⟨⟨task, attempts, hread, htenant, .inr ⟨pointer, target, hpointer⟩⟩, listed, some task, attempts, hlisting,
    htaken, hread, hdry, ?_⟩
  rcases hhow with ⟨hrecords, haged⟩ | ⟨hrecords, htruncated⟩
  · exact .inr ⟨classify_incomplete htenant hterminal hrecords, (hold_none_iff hlisting htaken).mpr haged⟩
  · obtain ⟨-, hlatest, hproper, -, -⟩ := hpointer
    left
    rw [classify_complete htenant hterminal hrecords]
    exact byPointer_of_truncated hlatest htaken.proper hproper htruncated

/-- A sweep is safe exactly when it is a dry run or takes up no exposed checkpoint. -/
theorem sweep_safe_iff (c : CheckpointCollector) (now : Instant) :
    Safe c now ↔ c.config.dryRun = true ∨ ∀ ref, ¬ Exposed c now ref := by
  constructor
  · intro hsafe
    rcases Bool.eq_false_or_eq_true c.config.dryRun with hdry | hdry
    · exact .inl hdry
    · right
      intro ref hexposed
      obtain ⟨hresumable, listed, task, attempts, hgone⟩ := hexposed.gone hdry
      obtain ⟨key, hkey⟩ := List.exists_mem_of_ne_nil _ (keysOf_ne_nil hgone.taken)
      obtain ⟨ref', hparse, hfree, -⟩ := hsafe _ key (sweep_deletes hgone hkey)
      rw [(mem_keysOf_iff.mp hkey).2] at hparse
      cases hparse
      exact hfree hresumable
  · intro hcondition delete key hkey
    obtain ⟨listed, ref, task, attempts, hgone, hmem⟩ := mem_sweep_deletes hkey
    have hfree : ∀ ref, ¬ Exposed c now ref := by
      rcases hcondition with hdry | hfree
      · rw [hgone.collected.1] at hdry
        cases hdry
      · exact hfree
    refine ⟨ref, (mem_keysOf_iff.mp hmem).2, fun hresumable => hfree ref (hgone.exposed hresumable), task, attempts,
      hgone.read, fun hrecords => hgone.aged hmem hrecords⟩

end Safety

/-- A failed task whose worker was killed before it recorded the end of its only attempt: the pointer of the task
names the checkpoint, and its manifest is eight days old. -/
def interrupted : CheckpointCollector where
  taskAndAttempts := fun _ _ => .ok
    (some ⟨"t1", .failed, some "gs://artifacts/tenants/t1/tasks/k1/attempts/a1/checkpoints/ckpt-00001/manifest.json"⟩,
      [⟨"a1", none⟩])
  objects :=
    { listKeys := .ok
        ["tenants/t1/tasks/k1/attempts/a1/checkpoints/ckpt-00001/manifest.json",
          "tenants/t1/tasks/k1/attempts/a1/checkpoints/ckpt-00001/archive.tar.gz"]
      downloadBytes := fun _ => .ok (some 0)
      createdAt := fun _ => .ok (some 0) }
  config := { checkpointOrphanBackstopSeconds := 7 * 24 * 3600, checkpointScanLimit := 20000, dryRun := false }

theorem uriOf_of_drop {root path : String}
    (h : ∀ n < root.toList.length, ¬ tenantsRoot.toList <+: (root ++ path).toList.drop n) :
    UriOf (root ++ path) path := by
  refine ⟨root, rfl, fun u v huv => ?_⟩
  by_contra hshort
  refine h u.length (not_le.mp hshort) ⟨v, ?_⟩
  rw [huv, List.append_assoc, List.drop_left]

theorem sweep_takes_resume_point : ¬ Safe interrupted (seconds (8 * 24 * 3600)) := by
  intro hsafe
  have hkey : "tenants/t1/tasks/k1/attempts/a1/checkpoints/ckpt-00001/manifest.json" ∈
      (sweep interrupted (fun _ => .ok ()) (seconds (8 * 24 * 3600))).deletes := by decide +kernel
  obtain ⟨ref, hparse, hfree, -⟩ := hsafe _ _ hkey
  have href : ref.manifestKey = "tenants/t1/tasks/k1/attempts/a1/checkpoints/ckpt-00001/manifest.json" ∧
      ref.tenantId = "t1" := by
    have hvalue : parseCheckpointKey "tenants/t1/tasks/k1/attempts/a1/checkpoints/ckpt-00001/manifest.json" =
      some ⟨"t1", "k1", "a1", "ckpt-00001", "tenants/t1/tasks/k1/attempts/a1/checkpoints/ckpt-00001"⟩ := by
      decide
    rw [hvalue] at hparse
    cases hparse
    decide
  refine hfree ⟨_, _, rfl, .inr href.2.symm, .inr ⟨_, ref, by decide, rfl, proper_of_parse hparse, .inr ?_, ?_⟩⟩
  · rw [href.1]
    exact uriOf_of_drop (show ∀ n < "gs://artifacts/".toList.length, ¬ tenantsRoot.toList <+: ("gs://artifacts/" ++
      "tenants/t1/tasks/k1/attempts/a1/checkpoints/ckpt-00001/manifest.json").toList.drop n by decide)
  · simp [sameAttempt]

end SwarmCloud.Retention
