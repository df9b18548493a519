import SwarmCloud.Lib.Listing
import SwarmCloud.Retention.Safety

/-! # A sweep that stops half-way

A checkpoint is deleted manifest first, so that one which is found is whole. The
manifest is only deleted where the pass has seen it: of a listing that was cut the
last group by path is left out, and the group that was cut is the last by key.
-/

namespace SwarmCloud.Retention

open Common Lib

/-- A key that is read back lies under the path of its checkpoint. -/
theorem exists_file {key : String} {ref : CheckpointRef} (h : parseCheckpointKey key = some ref) :
    ∃ file, key = ref.keyPrefix ++ "/" ++ file := by
  obtain ⟨hproper, file, more, hsegments⟩ := parse_eq_some_iff.mp h
  refine ⟨joined (file :: more), segments_inj ?_⟩
  have hslashless : ∀ part ∈ file :: more, '/' ∉ part.toList := fun part hpart =>
    slash_notMem_of_mem_segments (hsegments ▸ List.mem_append_right ref.parts hpart)
  rw [segments_slash, hproper.segments_path, segments_joined (List.cons_ne_nil _ _) hslashless, hsegments]

/-! ## The order of the calls -/

section Order

variable {c : CheckpointCollector} {delete : String → Except String Unit} {now : Instant}

theorem deleteKeys_prefix (keys : List String) : (deleteKeys delete keys).1 <+: keys := by
  induction keys with
  | nil => exact List.prefix_refl _
  | cons key rest ih =>
    rw [deleteKeys]
    cases delete key with
    | error exc => exact List.cons_prefix_cons.mpr ⟨rfl, List.nil_prefix⟩
    | ok done => exact List.cons_prefix_cons.mpr ⟨rfl, ih⟩

theorem act_prefix (ref : CheckpointRef) (keys : List String) (task : Option TaskView) (attempts : List AttemptView) :
    (act c delete now ref keys task attempts).deletes <+: deleteOrder ref keys := by
  have hcollect : ∀ row, (collect c delete ref keys row).deletes <+: deleteOrder ref keys := by
    intro row
    have hcalls : (deleteKeys delete (deleteOrder ref keys)).1 <+: deleteOrder ref keys := deleteKeys_prefix _
    rw [collect]
    split
    · exact List.nil_prefix
    · split
      · rename_i hdeletes
        rwa [hdeletes] at hcalls
      · rename_i hdeletes
        rwa [hdeletes] at hcalls
  rw [act]
  dsimp only
  split
  · exact List.nil_prefix
  · exact hcollect _
  · split
    · exact List.nil_prefix
    · exact hcollect _

/-- At each point of the calls, a checkpoint that has lost an object has lost its manifest, if the pass saw it. -/
def ManifestFirst (limit : Int) (listed deletes : List String) : Prop :=
  ∀ done, done <+: deletes → ∀ key ∈ done, ∀ ref, parseCheckpointKey key = some ref →
    ref.manifestKey ∈ scanKeys limit listed → ref.manifestKey ∈ done

variable {limit : Int} {listed deletes : List String}

/-- The calls of one checkpoint after others. -/
theorem ManifestFirst.append (h : ManifestFirst limit listed deletes) {ref : CheckpointRef} {calls : List String}
    (hproper : ref.Proper) (hcalls : calls <+: deleteOrder ref (keysOf limit listed ref)) :
    ManifestFirst limit listed (deletes ++ calls) := by
  intro done hdone key hkey ref' hparse hseen
  rcases List.prefix_or_prefix_of_prefix hdone (List.prefix_append deletes calls) with hbefore | ⟨now, rfl⟩
  · exact h done hbefore key hkey ref' hparse hseen
  · have hnow : now <+: deleteOrder ref (keysOf limit listed ref) :=
      ((List.prefix_append_right_inj deletes).mp hdone).trans hcalls
    rcases List.mem_append.mp hkey with hkey | hkey
    · exact List.mem_append_left _ (h deletes (List.prefix_refl _) key hkey ref' hparse hseen)
    · have hmine := (mem_keysOf_iff.mp (mem_deleteOrder.mp (hnow.subset hkey))).2
      obtain rfl := Option.some.inj (hmine.symm.trans hparse)
      have hmanifest : ref.manifestKey ∈ keysOf limit listed ref :=
        mem_keysOf_iff.mpr ⟨hseen, parse_under hproper manifestName⟩
      rw [deleteOrder, if_pos hmanifest] at hnow
      refine List.mem_append_right _ ?_
      cases now with
      | nil => cases hkey
      | cons first rest =>
        rw [(List.cons_prefix_cons.mp hnow).1]
        exact List.mem_cons_self

theorem examine_manifestFirst {task : Option TaskView} {attempts : List AttemptView} {pass : Pass} {path : String}
    (h : ManifestFirst limit listed pass.deletes) :
    ManifestFirst limit listed (examine c delete now (scan limit listed) task attempts pass path).deletes := by
  unfold examine
  split
  · rename_i ref keys _ href hkeys
    obtain ⟨htaken, rfl⟩ := scan_refs_iff.mp href
    rw [scan_byPrefix htaken, Option.some.injEq] at hkeys
    subst hkeys
    have hcalls : (act c delete now ref (keysOf limit listed ref) task attempts).deletes <+:
        deleteOrder ref (keysOf limit listed ref) := act_prefix ref _ task attempts
    split
    · exact h
    · rename_i hact
      rw [hact] at hcalls
      exact h.append htaken.proper hcalls
    · rename_i hact
      rw [hact] at hcalls
      exact h.append htaken.proper hcalls
  · exact h

theorem sweepTask_manifestFirst {pass : Pass} {item : (String × String) × List String}
    (h : ManifestFirst limit listed pass.deletes) :
    ManifestFirst limit listed (sweepTask c delete now (scan limit listed) pass item).deletes := by
  unfold sweepTask
  split
  · exact h
  · split
    · exact h
    · exact List.foldlRecOn (motive := fun pass : Pass => ManifestFirst limit listed pass.deletes) _ _ h
        fun _ hpass _ _ => examine_manifestFirst hpass

theorem sweep_manifestFirst (hlisting : c.objects.listKeys = .ok listed) :
    ManifestFirst c.config.checkpointScanLimit listed (sweep c delete now).deletes := by
  unfold sweep
  rw [hlisting]
  dsimp only
  refine List.foldlRecOn
    (motive := fun pass : Pass => ManifestFirst c.config.checkpointScanLimit listed pass.deletes) _ _ ?_
    fun _ hpass _ _ => sweepTask_manifestFirst hpass
  intro done hdone key hkey
  rw [List.prefix_nil.mp hdone] at hkey
  cases hkey

end Order

/-! ## The group that was cut -/

section Cut

variable {limit : Int} {listed : List String} {ref other : CheckpointRef}

theorem scanKeys_cases (limit : Int) (listed : List String) :
    scanKeys limit listed = sortBy id listed ∧ ¬limit < listed.length ∨
      limit < listed.length ∧ ∃ n, scanKeys limit listed = (sortBy id listed).take n := by
  rw [scanKeys, length_sortBy]
  split
  · rename_i hcut
    exact .inr ⟨hcut, _, rfl⟩
  · rename_i hwhole
    exact .inl ⟨rfl, hwhole⟩

/-- The id of the other checkpoint goes on after this one's with a character below the slash. -/
def GoesOn (ref other : CheckpointRef) : Prop :=
  sameAttempt other ref ∧
    ∃ next rest, other.checkpointId.toList = ref.checkpointId.toList ++ next :: rest ∧ next < '/'

theorem sameAttempt_iff : sameAttempt other ref = true ↔ other.parts.take 7 = ref.parts.take 7 := by
  simp [sameAttempt, CheckpointRef.parts, and_assoc]

theorem GoesOn.lt (h : GoesOn ref other) (href : ref.Proper) (hother : other.Proper) :
    ref.keyPrefix < other.keyPrefix := by
  obtain ⟨hattempt, next, rest, hid, -⟩ := h
  have hdirectory : other.directory = ref.directory := congrArg joined (sameAttempt_iff.mp hattempt)
  rw [String.lt_iff_toList_lt, hother.path_eq, href.path_eq, hdirectory]
  simp only [String.toList_append]
  rw [hid, ← List.append_assoc]
  exact lt_of_goes_on _ next rest

/-- Where one of two checkpoints is the later by path and not by key, its id goes on after the other's. -/
theorem goesOn_of_lt (href : ref.Proper) (hother : other.Proper) (hlt : ref.keyPrefix < other.keyPrefix)
    {file file' : String} (hkeys : ¬ref.keyPrefix ++ "/" ++ file < other.keyPrefix ++ "/" ++ file') :
    GoesOn ref other := by
  rw [String.lt_iff_toList_lt] at hlt hkeys
  have hslash : ("/" : String).toList = ['/'] := rfl
  simp only [String.toList_append, hslash, List.append_assoc, List.singleton_append] at hkeys
  obtain ⟨next, rest, hpath, hnext⟩ := goes_on_of_lt hlt hkeys
  have hlonger : other.keyPrefix = ref.directory ++ "/" ++ String.ofList (ref.checkpointId.toList ++ next :: rest) := by
    apply String.ext
    rw [hpath, href.path_eq]
    simp [String.toList_append, String.toList_ofList]
  have hparts : other.parts =
      ref.parts.take 7 ++ segments (String.ofList (ref.checkpointId.toList ++ next :: rest)) := by
    rw [← hother.segments_path, hlonger, segments_slash, href.segments_directory]
  have hone : ∃ id, segments (String.ofList (ref.checkpointId.toList ++ next :: rest)) = [id] := by
    have hlength := congrArg List.length hparts
    rw [List.length_append] at hlength
    have hseven : (ref.parts.take 7).length = 7 := rfl
    have height : other.parts.length = 8 := rfl
    exact List.length_eq_one_iff.mp (by omega)
  obtain ⟨id, hid⟩ := hone
  have hid' : id = String.ofList (ref.checkpointId.toList ++ next :: rest) := by
    rw [← joined_segments (String.ofList _), hid]
    simp [joined, List.intercalate]
  rw [hid] at hparts
  have hlast : other.checkpointId = id := by simpa [CheckpointRef.parts] using congrArg List.getLast? hparts
  have hslashless : '/' ∉ other.checkpointId.toList := hother.slashless _ (by simp [CheckpointRef.parts])
  have hchars : other.checkpointId.toList = ref.checkpointId.toList ++ next :: rest := by
    rw [hlast, hid', String.toList_ofList]
  refine ⟨sameAttempt_iff.mpr (by rw [hparts]; rfl), next, rest, hchars, lt_of_le_of_ne hnext ?_⟩
  rintro rfl
  exact hslashless (by simp [hchars])

end Cut

/-! ## What is left when it stops -/

/-- No checkpoint has its manifest and lacks another object that was listed. -/
def Consistent (listed done : List String) : Prop :=
  ∀ ref : CheckpointRef, ref.manifestKey ∈ listed → ref.manifestKey ∉ done →
    ∀ key ∈ listed, parseCheckpointKey key = some ref → key ∉ done

/-- Whatever `delete` does and wherever its calls stop. -/
def CrashSafe (c : CheckpointCollector) (now : Instant) : Prop :=
  ∀ listed, c.objects.listKeys = .ok listed → ∀ delete done, done <+: (sweep c delete now).deletes →
    Consistent listed done

/-- The listing was cut between an object of a checkpoint and its manifest, another checkpoint of the attempt whose
id goes on after its own was listed, and the checkpoint is let go. -/
structure Split (c : CheckpointCollector) (now : Instant) (listed : List String) (ref other : CheckpointRef)
    (task : Option TaskView) (attempts : List AttemptView) : Prop where
  listing : c.objects.listKeys = .ok listed
  scanned : ∃ key ∈ scanKeys c.config.checkpointScanLimit listed, parseCheckpointKey key = some ref
  manifest : ref.manifestKey ∈ listed
  lost : ref.manifestKey ∉ scanKeys c.config.checkpointScanLimit listed
  longer : ∃ key ∈ scanKeys c.config.checkpointScanLimit listed, parseCheckpointKey key = some other
  goes_on : GoesOn ref other
  read : c.taskAndAttempts ref.tenantId ref.taskId = .ok (task, attempts)
  collected : Collected c now ref (keysOf c.config.checkpointScanLimit listed ref) task attempts

section Safety

variable {c : CheckpointCollector} {now : Instant} {listed : List String} {ref other : CheckpointRef}
  {task : Option TaskView} {attempts : List AttemptView}

theorem Split.gone (h : Split c now listed ref other task attempts) : Gone c now listed ref task attempts := by
  obtain ⟨key, hkey, hparse⟩ := h.scanned
  obtain ⟨key', hkey', hparse'⟩ := h.longer
  have hlt := h.goes_on.lt (proper_of_parse hparse) (proper_of_parse hparse')
  exact ⟨h.listing, ⟨h.scanned, fun _ => ⟨key', hkey', other, hparse', hlt⟩⟩, h.read, h.collected⟩

theorem not_crashSafe_of_split (h : Split c now listed ref other task attempts) : ¬CrashSafe c now := by
  intro hsafe
  obtain ⟨key, hkey, hparse⟩ := h.scanned
  have hdeleted := sweep_deletes h.gone (mem_keysOf_iff.mpr ⟨hkey, hparse⟩)
  have hlisted : key ∈ listed := by
    rcases scanKeys_cases c.config.checkpointScanLimit listed with ⟨heq, -⟩ | ⟨-, n, heq⟩
    · exact mem_sortBy.mp (heq ▸ hkey)
    · exact mem_sortBy.mp (List.mem_of_mem_take (heq ▸ hkey))
  refine hsafe listed h.listing _ _ (List.prefix_refl _) ref h.manifest ?_ key hlisted hparse hdeleted
  intro hmanifest
  obtain ⟨listed', ref', task', attempts', hgone, hmem⟩ := mem_sweep_deletes hmanifest
  obtain rfl := Except.ok.inj (h.listing.symm.trans hgone.listing)
  exact h.lost (mem_keysOf_iff.mp hmem).1

/-- A checkpoint that lost an object and not its manifest was cut. -/
theorem Gone.split (h : Gone c now listed ref task attempts) (hmanifest : ref.manifestKey ∈ listed)
    (hlost : ref.manifestKey ∉ scanKeys c.config.checkpointScanLimit listed) :
    ∃ other, Split c now listed ref other task attempts := by
  rcases scanKeys_cases c.config.checkpointScanLimit listed with ⟨hwhole, -⟩ | ⟨hcut, n, htake⟩
  · rw [hwhole] at hlost
    exact absurd (mem_sortBy.mpr hmanifest) hlost
  · obtain ⟨key, hkey, other, hparse, hlt⟩ := h.taken.2 hcut
    refine ⟨other, h.listing, h.taken.1, hmanifest, hlost, ⟨key, hkey, hparse⟩, ?_, h.read, h.collected⟩
    obtain ⟨file, rfl⟩ := exists_file hparse
    have horder := not_lt_of_take (htake ▸ hkey) hmanifest (htake ▸ hlost)
    exact goesOn_of_lt h.taken.proper (proper_of_parse hparse) hlt horder

/-- A sweep is crash-safe exactly when no checkpoint that it lets go was cut before its manifest while another one
whose id goes on after its own was listed. -/
theorem crashSafe_iff (c : CheckpointCollector) (now : Instant) :
    CrashSafe c now ↔ ¬∃ listed ref other task attempts, Split c now listed ref other task attempts := by
  constructor
  · rintro hsafe ⟨listed, ref, other, task, attempts, hsplit⟩
    exact not_crashSafe_of_split hsplit hsafe
  · intro hwhole listed hlisting delete done hdone ref hmanifest hkept key hkey hparse hdeleted
    obtain ⟨listed', ref', task, attempts, hgone, hmem⟩ := mem_sweep_deletes (hdone.subset hdeleted)
    obtain rfl := Except.ok.inj (hlisting.symm.trans hgone.listing)
    obtain rfl := Option.some.inj ((mem_keysOf_iff.mp hmem).2.symm.trans hparse)
    have hlost : ref'.manifestKey ∉ scanKeys c.config.checkpointScanLimit listed := fun hseen =>
      hkept (sweep_manifestFirst hlisting done hdone key hdeleted ref' hparse hseen)
    obtain ⟨other, hsplit⟩ := hgone.split hmanifest hlost
    exact hwhole ⟨listed, ref', other, task, attempts, hsplit⟩

end Safety

/-- Two checkpoints of a task that succeeded. -/
def cutListing : List String :=
  ["tenants/t1/tasks/k1/attempts/a1/checkpoints/ckpt/archive.tar.gz",
    "tenants/t1/tasks/k1/attempts/a1/checkpoints/ckpt/manifest.json",
    "tenants/t1/tasks/k1/attempts/a1/checkpoints/ckpt-1/archive.tar.gz",
    "tenants/t1/tasks/k1/attempts/a1/checkpoints/ckpt-1/manifest.json"]

/-- The scan takes three of the four objects: the manifest of `ckpt` is the last by key. -/
def cutShort : CheckpointCollector where
  taskAndAttempts := fun _ _ => .ok (some ⟨"t1", .succeeded, none⟩, [⟨"a1", some 0⟩])
  objects :=
    { listKeys := .ok cutListing
      downloadBytes := fun _ => .ok (some 0)
      createdAt := fun _ => .ok (some 0) }
  config := { checkpointOrphanBackstopSeconds := 7 * 24 * 3600, checkpointScanLimit := 3, dryRun := false }

theorem sweep_leaves_manifest : ¬CrashSafe cutShort (seconds 3600) := by
  have hsplit : Split cutShort (seconds 3600) cutListing
      ⟨"t1", "k1", "a1", "ckpt", "tenants/t1/tasks/k1/attempts/a1/checkpoints/ckpt"⟩
      ⟨"t1", "k1", "a1", "ckpt-1", "tenants/t1/tasks/k1/attempts/a1/checkpoints/ckpt-1"⟩
      (some ⟨"t1", .succeeded, none⟩) [⟨"a1", some 0⟩] :=
    { listing := rfl
      scanned := by decide
      manifest := by decide
      lost := by decide
      longer := by decide
      goes_on := ⟨by decide, '-', ['1'], by decide, by decide⟩
      read := rfl
      collected := ⟨rfl, .inl (by decide)⟩ }
  exact not_crashSafe_of_split hsplit

end SwarmCloud.Retention
