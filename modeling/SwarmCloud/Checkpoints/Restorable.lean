import SwarmCloud.Checkpoints.Manager
import Mathlib.Algebra.Order.BigOperators.Group.List

/-! # Every chain that is written can be read

The layers below each committed checkpoint stay in the bucket, are linked down to
a full archive, are few and have distinct ids, whatever is written later. Their
file content and their headers are bounded only where no archive goes on a chain
that is half full already, or with too many paths gone: the writer counts
compressed bytes there, and does not measure the header.
-/

namespace SwarmCloud.Checkpoints

open Lib

variable {sha256 : Archive → Digest}

/-! ## Chains that the bucket holds -/

/-- The layers below a checkpoint: linked, in the bucket, few, and with ids that are used up. -/
structure Sound (sha256 : Archive → Digest) (archives : String → Option Archive) (seq : Nat)
    (head : String × String) (layers : List Layer) : Prop where
  linked : Linked sha256 layers
  stored : Stored archives layers
  nodup : (ids layers).Nodup
  short : layers.length ≤ restoreChainMax
  numbered : ∀ id ∈ ids layers, ∃ number ≤ seq, idNumber id = some number
  top : ∃ first rest, layers = first :: rest ∧ (first.checkpointId, first.digest) = head

section Sound

variable {archives archives' : String → Option Archive} {seq seq' : Nat} {head : String × String} {layers : List Layer}

/-- The download gives the layers, if it can read their headers. -/
theorem Sound.download (h : Sound sha256 archives seq head layers) :
    downloadChain sha256 archives (archives head.1) head.1 head.2 =
      if headersFit layers then .ok layers else .error commentTooLong := by
  obtain ⟨first, rest, hlayers, rfl⟩ := h.top
  exact chainLoop_of_linked h.linked h.stored h.short h.nodup (by simp) hlayers

theorem Sound.download_eq_ok (h : Sound sha256 archives seq head layers) {layers' : List Layer} :
    downloadChain sha256 archives (archives head.1) head.1 head.2 = .ok layers' ↔
      headersFit layers = true ∧ layers' = layers := by
  rw [h.download]
  cases headersFit layers <;> simp [eq_comm]

/-- Objects at ids that are not used up yet do not matter. -/
theorem Sound.mono (h : Sound sha256 archives seq head layers) (hseq : seq ≤ seq')
    (hkept : ∀ id number, idNumber id = some number → number ≤ seq → archives' id = archives id) :
    Sound sha256 archives' seq' head layers := by
  refine ⟨h.linked, ?_, h.nodup, h.short, ?_, h.top⟩
  · intro layer hlayer
    obtain ⟨number, hle, hnumber⟩ := h.numbered _ (List.mem_map_of_mem hlayer)
    rw [hkept _ number hnumber hle]
    exact h.stored layer hlayer
  · intro id hid
    obtain ⟨number, hle, hnumber⟩ := h.numbered id hid
    exact ⟨number, hle.trans hseq, hnumber⟩

end Sound

/-- A restore of the checkpoint is refused neither for the shape of its chain nor for its size. -/
def Restorable (sha256 : Archive → Digest) (m : CheckpointManager) (record : CheckpointRecord) : Prop :=
  ∃ layers,
    downloadChain sha256 m.archives (m.archives record.checkpointId) record.checkpointId record.archiveSha256 =
      .ok layers ∧
    layers.length ≤ restoreChainMax ∧ (ids layers).Nodup ∧
    (∃ bottom, layers.getLast? = some bottom ∧ bottom.archive.comment = .absent) ∧
    contentOf layers ≤ m.maxBytes * restoreExpansionRatio ∧
    ∃ total, applyLayers m.maxBytes 0 layers.reverse = .ok total

theorem Sound.restorable_iff {m : CheckpointManager} {record : CheckpointRecord} {layers : List Layer}
    (h : Sound sha256 m.archives m.seq (record.checkpointId, record.archiveSha256) layers) :
    Restorable sha256 m record ↔
      headersFit layers = true ∧ contentOf layers ≤ m.maxBytes * restoreExpansionRatio := by
  constructor
  · rintro ⟨layers', hlayers', -, -, -, hcontent, -⟩
    obtain ⟨hfits, rfl⟩ := h.download_eq_ok.mp hlayers'
    exact ⟨hfits, hcontent⟩
  · rintro ⟨hfits, hcontent⟩
    refine ⟨layers, h.download_eq_ok.mpr ⟨hfits, rfl⟩, h.short, h.nodup, h.linked.bottom_full, hcontent, contentOf layers, ?_⟩
    rw [applyLayers_eq_ok_iff, contentOf_reverse, Nat.zero_add]
    exact ⟨rfl, .inr hcontent⟩

/-! ## What a call does -/

section Calls

variable {m : CheckpointManager} {call : Call}

/-- The call gets as far as its manifest. -/
def commits (m : CheckpointManager) (call : Call) : Bool :=
  !(call.onlyIfChanged && isUnchanged m call) && (writeRefused m call).isNone &&
    match call.failure with
    | none => true
    | some (.beforeUpload _) => !call.onlyIfChanged
    | some _ => false

theorem create_of_commits (h : commits m call = true) : (create sha256 m call).1 = committed sha256 m call := by
  unfold commits at h
  rw [Bool.and_eq_true, Bool.and_eq_true, Bool.not_eq_true', Option.isNone_iff_eq_none] at h
  obtain ⟨⟨hchanged, hwrite⟩, hfailure⟩ := h
  unfold create
  rw [if_neg (by simp [hchanged])]
  cases hfail : call.failure with
  | none =>
    split
    · rename_i exc _ hsome
      cases hsome
    · rw [hwrite]
  | some failure =>
    rw [hfail] at hfailure
    cases failure with
    | beforeUpload exc =>
      rw [Bool.not_eq_true'] at hfailure
      rw [hfailure]
      dsimp only
      rw [hwrite]
    | walk exc => cases hfailure
    | uploadArchive exc stored => cases hfailure
    | uploadManifest exc => cases hfailure

/-- A call that does not commit finds the tree unchanged, or raises. -/
theorem created_of_not_commits (sha256 : Archive → Digest) (h : commits m call = false) :
    create sha256 m call = (m, .unchanged) ∧ isUnchanged m call = true ∨
      ∃ m' exc, create sha256 m call = (m', .raised exc) ∧
        (m' = m ∨ m' = { m with seq := m.seq + 1 } ∨ m' = withArchive m call) := by
  unfold create
  split
  · rename_i hunchanged
    exact .inl ⟨rfl, (Bool.and_eq_true _ _ ▸ hunchanged).2⟩
  rename_i hchanged
  refine .inr ?_
  split
  · exact ⟨m, _, rfl, .inl rfl⟩
  rename_i hbefore
  split
  · exact ⟨_, _, rfl, .inr (.inl rfl)⟩
  rename_i hwrite
  split
  · exact ⟨_, _, rfl, .inr (.inl rfl)⟩
  · exact ⟨_, _, rfl, .inr (.inr rfl)⟩
  · exact ⟨_, _, rfl, .inr (.inr rfl)⟩
  · rename_i hupload hupload' hmanifest
    exfalso
    have hgo : commits m call = true := by
      unfold commits
      rw [Bool.eq_false_iff.mpr hchanged, hwrite]
      cases hfail : call.failure with
      | none => rfl
      | some failure =>
        cases failure with
        | beforeUpload exc =>
          cases honly : call.onlyIfChanged with
          | true => exact absurd hfail (hbefore exc honly)
          | false => rfl
        | walk exc =>
          rw [writeRefused, hfail] at hwrite
          cases hwrite
        | uploadArchive exc stored =>
          cases stored with
          | true => exact absurd hfail (hupload' exc)
          | false => exact absurd hfail (hupload exc)
        | uploadManifest exc => exact absurd hfail (hmanifest exc)
    rw [hgo] at h
    cases h

/-- A call that does not commit leaves the manager, uses up an id, or leaves an archive without a manifest. -/
theorem create_of_not_commits (sha256 : Archive → Digest) (h : commits m call = false) :
    (create sha256 m call).1 = m ∨ (create sha256 m call).1 = { m with seq := m.seq + 1 } ∨
      (create sha256 m call).1 = withArchive m call := by
  rcases created_of_not_commits sha256 h with ⟨hcreate, -⟩ | ⟨m', exc, hcreate, hleft⟩
  · rw [hcreate]
    exact .inl rfl
  · rw [hcreate]
    exact hleft

/-! ## The invariant -/

/-- The chain of the last commit and those of all committed checkpoints are sound. -/
structure Inv (sha256 : Archive → Digest) (m : CheckpointManager) : Prop where
  seeded : m.index.isSome = m.base.isSome
  chain : ∀ base, m.base = some base →
    ∃ layers, Sound sha256 m.archives m.seq base layers ∧ layers.length = m.chainLength + 1
  manifests : ∀ record ∈ m.manifests,
    ∃ layers, Sound sha256 m.archives m.seq (record.checkpointId, record.archiveSha256) layers

/-- The file content of the chain that the next archive can be put on. -/
def chainSum (sha256 : Archive → Digest) (m : CheckpointManager) : Nat :=
  match m.base with
  | none => 0
  | some base =>
    match downloadChain sha256 m.archives (m.archives base.1) base.1 base.2 with
    | .ok layers => contentOf layers
    | .error _ => 0

theorem chainSum_eq {base : String × String} {layers : List Layer} (hbase : m.base = some base)
    (h : Sound sha256 m.archives m.seq base layers) (hfits : headersFit layers = true) :
    chainSum sha256 m = contentOf layers := by
  rw [chainSum, hbase]
  dsimp only
  rw [h.download_eq_ok.mpr ⟨hfits, rfl⟩]

theorem withArchive_stored (m : CheckpointManager) (call : Call) :
    (withArchive m call).archives (checkpointId (m.seq + 1)) = some (archiveOf m call) := by
  simp only [withArchive, if_true]

theorem withArchive_other {id : String} (h : id ≠ checkpointId (m.seq + 1)) :
    (withArchive m call).archives id = m.archives id := by
  simp only [withArchive, if_neg h]

theorem committed_archives : (committed sha256 m call).archives = (withArchive m call).archives := by
  simp only [committed]

theorem committed_seq : (committed sha256 m call).seq = m.seq + 1 := by
  simp only [committed, withArchive]

theorem committed_base :
    (committed sha256 m call).base = some (checkpointId (m.seq + 1), (sha256 (archiveOf m call)).text) := by
  simp only [committed]

theorem committed_manifests : (committed sha256 m call).manifests = newRecord sha256 m call :: m.manifests := by
  simp only [committed]

theorem Sound.withArchive {head : String × String} {layers : List Layer}
    (h : Sound sha256 m.archives m.seq head layers) (call : Call) :
    Sound sha256 (withArchive m call).archives (m.seq + 1) head layers := by
  refine h.mono (Nat.le_succ _) ?_
  intro id number hnumber hle
  refine withArchive_other ?_
  rintro rfl
  rw [idNumber_checkpointId, Option.some.injEq] at hnumber
  omega

theorem Linked.digest_wellFormed {first : Layer} {rest : List Layer} (h : Linked sha256 (first :: rest)) :
    isSha256 first.digest = true := by
  cases h with
  | full _ => exact (sha256 _).wellFormed
  | onBase _ _ => exact (sha256 _).wellFormed

/-- The layer that the call adds to its chain. -/
def newLayer (sha256 : Archive → Digest) (m : CheckpointManager) (call : Call) : Layer :=
  ⟨checkpointId (m.seq + 1), archiveOf m call,
    if (previousBase m call).isSome then (deletedPaths m call).map TreePath.text else [],
    (sha256 (archiveOf m call)).text⟩

theorem sound_full (hbase : previousBase m call = none) :
    Sound sha256 (withArchive m call).archives (m.seq + 1)
      (checkpointId (m.seq + 1), (sha256 (archiveOf m call)).text) [newLayer sha256 m call] := by
  have hheader : (archiveOf m call).comment.header (checkpointId (m.seq + 1)) = .ok (none, []) := by
    simp only [Comment.header, archiveOf, hbase]
  have hlayer : newLayer sha256 m call =
      ⟨checkpointId (m.seq + 1), archiveOf m call, [], (sha256 (archiveOf m call)).text⟩ := by
    rw [newLayer, hbase]
    rfl
  rw [hlayer]
  refine ⟨.full hheader, ?_, by simp [ids], by simp [restoreChainMax], ?_, _, _, rfl, rfl⟩
  · intro layer hlayer
    rw [List.mem_singleton.mp hlayer]
    exact withArchive_stored m call
  · intro id hid
    rw [List.mem_singleton.mp hid]
    exact ⟨_, le_rfl, idNumber_checkpointId _⟩

theorem previousBase_eq_some {base : String × String} (hbase : previousBase m call = some base) :
    m.base = some base ∧ rebases m call = false := by
  unfold previousBase at hbase
  split at hbase
  · cases hbase
  · rename_i hkeep
    exact ⟨hbase, Bool.eq_false_iff.mpr hkeep⟩

theorem sound_onBase (h : Inv sha256 m) {base : String × String} (hbase : previousBase m call = some base)
    {layers : List Layer} (hsound : Sound sha256 m.archives m.seq base layers)
    (hlength : layers.length = m.chainLength + 1) :
    Sound sha256 (withArchive m call).archives (m.seq + 1)
      (checkpointId (m.seq + 1), (sha256 (archiveOf m call)).text) (newLayer sha256 m call :: layers) := by
  have hnumber : idNumber (checkpointId (m.seq + 1)) = some (m.seq + 1) := idNumber_checkpointId _
  have hold := previousBase_eq_some hbase
  obtain ⟨first, rest, rfl, rfl⟩ := hsound.top
  have hshort : m.chainLength < checkpointChainMax := by
    have hindex : m.index.isSome = true := by rw [h.seeded, hold.1]; rfl
    have hrule := hold.2
    rw [rebases, hindex, Bool.true_and, Bool.or_eq_false_iff, decide_eq_false_iff_not] at hrule
    exact Nat.lt_of_not_le hrule.1
  obtain ⟨number, hle, hfirst⟩ := hsound.numbered first.checkpointId (by simp [ids])
  have hheader : (archiveOf m call).comment.header (checkpointId (m.seq + 1)) =
      .ok (some (first.checkpointId, first.digest), (deletedPaths m call).map TreePath.text) := by
    have hpaths : ((deletedPaths m call).map TreePath.text).all (fun rel => (archiveParts rel).isSome) = true := by
      rw [List.all_eq_true]
      intro rel hrel
      obtain ⟨path, -, rfl⟩ := List.mem_map.mp hrel
      exact path.archiveParts_isSome
    simp only [Comment.header, archiveOf, hbase]
    rw [if_pos (by rw [hfirst, hsound.linked.digest_wellFormed, hpaths]; rfl)]
  have hlayer : newLayer sha256 m call = ⟨checkpointId (m.seq + 1), archiveOf m call,
      (deletedPaths m call).map TreePath.text, (sha256 (archiveOf m call)).text⟩ := by
    rw [newLayer, hbase]
    rfl
  have hkept := hsound.withArchive call
  rw [hlayer]
  refine ⟨.onBase hheader hsound.linked, ?_, ?_, ?_, ?_, _, _, rfl, rfl⟩
  · intro layer hlayer
    rcases List.mem_cons.mp hlayer with rfl | hlayer
    · exact withArchive_stored m call
    · exact hkept.stored layer hlayer
  · refine List.nodup_cons.mpr ⟨fun hmem => ?_, hsound.nodup⟩
    obtain ⟨number', hle', hnumber'⟩ := hsound.numbered _ hmem
    rw [hnumber, Option.some.injEq] at hnumber'
    omega
  · rw [List.length_cons, hlength]
    simp only [restoreChainMax, checkpointChainMax] at hshort ⊢
    omega
  · intro id hid
    rcases List.mem_cons.mp hid with rfl | hid
    · exact ⟨_, le_rfl, hnumber⟩
    · exact hkept.numbered id hid

/-- The new checkpoint sits on the chain it names, or on nothing. -/
theorem sound_committed (h : Inv sha256 m) (call : Call) :
    ∃ layers, Sound sha256 (withArchive m call).archives (m.seq + 1)
        (checkpointId (m.seq + 1), (sha256 (archiveOf m call)).text) layers ∧
      layers.length = (committed sha256 m call).chainLength + 1 ∧
      ∃ below, layers = newLayer sha256 m call :: below ∧
        (previousBase m call = none ∧ below = [] ∨
          ∃ base, previousBase m call = some base ∧ Sound sha256 m.archives m.seq base below) := by
  cases hbase : previousBase m call with
  | none => exact ⟨_, sound_full hbase, by simp [committed, hbase], [], rfl, .inl ⟨rfl, rfl⟩⟩
  | some base =>
    obtain ⟨layers, hsound, hlength⟩ := h.chain base (previousBase_eq_some hbase).1
    refine ⟨_, sound_onBase h hbase hsound hlength, ?_, layers, rfl, .inr ⟨base, rfl, hsound⟩⟩
    rw [List.length_cons, hlength]
    simp [committed, hbase]

theorem Inv.create (h : Inv sha256 m) (call : Call) : Inv sha256 (create sha256 m call).1 := by
  have hmono : ∀ {head layers}, Sound sha256 m.archives m.seq head layers →
      Sound sha256 m.archives (m.seq + 1) head layers := fun hs => hs.mono (Nat.le_succ _) fun _ _ _ _ => rfl
  cases hcommits : commits m call with
  | true =>
    rw [create_of_commits hcommits]
    obtain ⟨layers, hsound, hlength, -⟩ := sound_committed h call
    refine ⟨rfl, fun base hbase => ?_, fun record hrecord => ?_⟩
    · rw [committed_base, Option.some.injEq] at hbase
      rw [committed_archives, committed_seq, ← hbase]
      exact ⟨layers, hsound, hlength⟩
    · rw [committed_manifests] at hrecord
      rw [committed_archives, committed_seq]
      rcases List.mem_cons.mp hrecord with rfl | hrecord
      · exact ⟨layers, hsound⟩
      · obtain ⟨old, hold⟩ := h.manifests record hrecord
        exact ⟨old, hold.withArchive call⟩
  | false =>
    rcases create_of_not_commits sha256 hcommits with heq | heq | heq <;> rw [heq]
    · exact h
    · refine ⟨h.seeded, fun base hbase => ?_, fun record hrecord => ?_⟩
      · obtain ⟨layers, hsound, hlength⟩ := h.chain base hbase
        exact ⟨layers, hmono hsound, hlength⟩
      · obtain ⟨layers, hsound⟩ := h.manifests record hrecord
        exact ⟨layers, hmono hsound⟩
    · refine ⟨h.seeded, fun base hbase => ?_, fun record hrecord => ?_⟩
      · obtain ⟨layers, hsound, hlength⟩ := h.chain base hbase
        exact ⟨layers, hsound.withArchive call, hlength⟩
      · obtain ⟨layers, hsound⟩ := h.manifests record hrecord
        exact ⟨layers, hsound.withArchive call⟩

end Calls

/-! ## Where a sequence of calls starts -/

/-- A manager before its first call, over whatever the prefix of its attempt holds. -/
def fresh (attemptId : String) (maxBytes : Nat) (archives : String → Option Archive) : CheckpointManager :=
  { attemptId, maxBytes, archives }

/-- A fresh manager, or one after a restore that was accepted. -/
inductive Start (sha256 : Archive → Digest) : CheckpointManager → Prop
  | fresh (attemptId : String) (maxBytes : Nat) (archives : String → Option Archive) :
      Start sha256 (fresh attemptId maxBytes archives)
  | restored {attemptId : String} {maxBytes : Nat} {archives : String → Option Archive} {record : CheckpointRecord}
      {headObject : Option Archive} {beside : String → Option Archive} {outcome : String → Copied} {scanned : Index}
      {racyAfter : Int} {m : CheckpointManager}
      (accepted : restore sha256 (Checkpoints.fresh attemptId maxBytes archives) record headObject beside outcome
        scanned racyAfter = .ok m) : Start sha256 m

theorem copyLayers_done {outcome : String → Copied} {layers : List Layer} (archives : String → Option Archive)
    (hdone : ∀ layer ∈ layers, outcome layer.checkpointId = .done) (hnodup : (ids layers).Nodup) :
    Stored (copyLayers outcome layers archives) layers ∧
      ∀ id ∉ ids layers, copyLayers outcome layers archives id = archives id := by
  induction layers generalizing archives with
  | nil => exact ⟨by simp [Stored], fun _ _ => rfl⟩
  | cons layer rest ih =>
    obtain ⟨hnew, hrest⟩ := List.nodup_cons.mp hnodup
    unfold copyLayers
    dsimp only
    rw [hdone layer List.mem_cons_self]
    dsimp only
    obtain ⟨hstored, hother⟩ := ih (fun id => if id = layer.checkpointId then some layer.archive else archives id)
      (fun l hl => hdone l (List.mem_cons_of_mem _ hl)) hrest
    refine ⟨?_, ?_⟩
    · intro l hl
      rcases List.mem_cons.mp hl with rfl | hl
      · rw [hother _ hnew, if_pos rfl]
      · exact hstored l hl
    · intro id hid
      obtain ⟨hne, hid⟩ := not_or.mp (List.mem_cons.not.mp hid)
      rw [hother id hid, if_neg hne]

theorem continuesIds_number {record : CheckpointRecord} {id : String} (h : continuesIds record (some id) = true) :
    ∃ number ≤ (record.seq.getD 0).toNat, idNumber id = some number := by
  unfold continuesIds at h
  cases hseq : record.seq with
  | none => rw [hseq] at h; cases h
  | some seq =>
    rw [hseq] at h
    simp only [Bool.and_eq_true, Option.all_some] at h
    obtain ⟨number, hnumber, hle⟩ := (Option.any_eq_true _ _).mp h.2
    refine ⟨number, ?_, hnumber⟩
    have hle := of_decide_eq_true hle
    rw [Option.getD_some]
    omega

/-- The headers of the chain that the next archive can be put on can be read. -/
def Readable (sha256 : Archive → Digest) (m : CheckpointManager) : Prop :=
  ∀ base layers, m.base = some base → Sound sha256 m.archives m.seq base layers → headersFit layers = true

theorem Sound.fits {archives : String → Option Archive} {seq : Nat} {head : String × String} {layers layers' : List Layer}
    (h : Sound sha256 archives seq head layers) (hfits : headersFit layers = true)
    (h' : Sound sha256 archives seq head layers') : headersFit layers' = true :=
  (h'.download_eq_ok.mp (h.download_eq_ok.mpr ⟨hfits, rfl⟩)).1

theorem Start.inv {m : CheckpointManager} (h : Start sha256 m) :
    Inv sha256 m ∧ m.manifests = [] ∧ Readable sha256 m := by
  cases h with
  | fresh attemptId maxBytes archives =>
    refine ⟨⟨rfl, by simp [Checkpoints.fresh], by simp [Checkpoints.fresh]⟩, rfl, ?_⟩
    rintro _ _ ⟨⟩
  | @restored attemptId maxBytes archives record headObject beside outcome scanned racyAfter _ haccepted =>
    unfold restore at haccepted
    split at haccepted
    · cases haccepted
    rename_i layers hdownload
    split at haccepted
    · cases haccepted
    dsimp only at haccepted
    split at haccepted
    · rename_i hseeded
      rw [Except.ok.injEq] at haccepted
      rw [Bool.and_eq_true, List.all_eq_true] at hseeded
      obtain ⟨hcopy, hdone⟩ := hseeded
      have hids : ∀ layer ∈ layers, continuesIds record (some layer.checkpointId) = true := by
        rw [Bool.and_eq_true, List.all_eq_true] at hcopy
        exact hcopy.2
      have hcontinues : continuesIds record none = true := by
        simp only [Bool.and_eq_true] at hcopy
        exact hcopy.1.1
      obtain ⟨hlinked, hfits, hlength, hnodup, -, first, rest, hlayers, hid, hdigest⟩ := linked_of_chainLoop hdownload
      have hcopied := copyLayers_done archives
        (fun layer (hlayer : layer ∈ layers.reverse) => of_decide_eq_true (hdone layer (List.mem_reverse.mp hlayer)))
        (by rw [ids, List.map_reverse]; exact List.nodup_reverse.mpr hnodup)
      have hbase : m.base = some (record.checkpointId, record.archiveSha256) := by rw [← haccepted]
      have hsound : Sound sha256 m.archives m.seq (record.checkpointId, record.archiveSha256) layers := by
        refine ⟨hlinked, ?_, hnodup, hlength, ?_, first, rest, hlayers, by rw [hid, hdigest]⟩
        · rw [← haccepted]
          dsimp only
          rw [if_pos hcopy]
          exact fun layer hlayer => hcopied.1 layer (List.mem_reverse.mpr hlayer)
        · intro id hmem
          obtain ⟨layer, hlayer, rfl⟩ := List.mem_map.mp hmem
          obtain ⟨number, hle, hnumber⟩ := continuesIds_number (hids layer hlayer)
          rw [← haccepted]
          dsimp only
          rw [if_pos hcontinues]
          exact ⟨number, hle.trans (le_max_right _ _), hnumber⟩
      have hmanifests : m.manifests = [] := by
        rw [← haccepted]
        rfl
      refine ⟨⟨by rw [← haccepted]; rfl, fun base hsome => ?_, by simp [hmanifests]⟩, hmanifests, ?_⟩
      · rw [hbase, Option.some.injEq] at hsome
        subst hsome
        refine ⟨layers, hsound, ?_⟩
        rw [← haccepted, hlayers]
        rfl
      · intro base layers' hsome h'
        rw [hbase, Option.some.injEq] at hsome
        exact hsound.fits hfits (hsome ▸ h')
    · rw [Except.ok.injEq] at haccepted
      subst haccepted
      refine ⟨⟨rfl, by simp [Checkpoints.fresh], by simp [Checkpoints.fresh]⟩, rfl, ?_⟩
      rintro _ _ ⟨⟩

/-! ## Whole sequences of calls -/

/-- A sound chain stays sound, whatever the call does. -/
theorem Sound.create {m : CheckpointManager} {head : String × String} {layers : List Layer}
    (h : Sound sha256 m.archives m.seq head layers) (call : Call) :
    Sound sha256 (create sha256 m call).1.archives (create sha256 m call).1.seq head layers := by
  cases hcommits : commits m call with
  | true =>
    rw [create_of_commits hcommits, committed_archives, committed_seq]
    exact h.withArchive call
  | false =>
    rcases create_of_not_commits sha256 hcommits with heq | heq | heq <;> rw [heq]
    · exact h
    · exact h.mono (Nat.le_succ _) fun _ _ _ _ => rfl
    · exact h.withArchive call

theorem run_append (m : CheckpointManager) (calls : List Call) (call : Call) :
    run sha256 m (calls ++ [call]) = (create sha256 (run sha256 m calls) call).1 := by
  rw [run, List.foldl_append]
  rfl

theorem create_maxBytes (m : CheckpointManager) (call : Call) :
    (create sha256 m call).1.maxBytes = m.maxBytes := by
  cases hcommits : commits m call with
  | true =>
    rw [create_of_commits hcommits]
    rfl
  | false =>
    rcases create_of_not_commits sha256 hcommits with heq | heq | heq
    · rw [heq]
    · rw [heq]
    · rw [heq]
      rfl

theorem run_inv {m : CheckpointManager} (h : Inv sha256 m) (calls : List Call) :
    Inv sha256 (run sha256 m calls) ∧ (run sha256 m calls).maxBytes = m.maxBytes := by
  induction calls using List.reverseRecOn with
  | nil => exact ⟨h, rfl⟩
  | append_singleton calls call ih =>
    rw [run_append, create_maxBytes]
    exact ⟨ih.1.create call, ih.2⟩

/-! ## Room on a chain -/

/-- The call goes by the chain of the last commit: it does not rebase, and does not find the tree unchanged. -/
def goesOn (m : CheckpointManager) (call : Call) : Bool :=
  m.base.isSome && !rebases m call && !(call.onlyIfChanged && isUnchanged m call)

/-- Before the call its chain holds no more than an archive may, and all paths that are gone fit into a header. -/
structure Roomy (sha256 : Archive → Digest) (m : CheckpointManager) (call : Call) : Prop where
  content : goesOn m call = true → chainSum sha256 m ≤ m.maxBytes * checkpointExpansionRatio
  header : goesOn m call = true → ∀ previous base, m.index = some previous → m.base = some base →
    chainCommentLength base.1 base.2 ((gonePaths previous call.scanned).map TreePath.text) ≤ gzipCommentLimit

theorem outermost_sublist (paths out : List TreePath) :
    (paths.foldl
      (fun out rel =>
        if (List.range' 1 ((segments rel.text).length - 1)).any fun depth =>
            joined ((segments rel.text).take depth) ∈ out.map TreePath.text then out
        else out ++ [rel])
      out).Sublist (out ++ paths) := by
  induction paths generalizing out with
  | nil => rw [List.append_nil, List.foldl_nil]
  | cons rel paths ih =>
    rw [List.foldl_cons]
    split
    · exact (ih out).trans (List.Sublist.append_left (List.sublist_cons_self rel paths) out)
    · have hrest := ih (out ++ [rel])
      rwa [List.append_assoc] at hrest

theorem deletedSince_subperm (previous index : Index) :
    (deletedSince previous index).Subperm (gonePaths previous index) :=
  (outermost_sublist _ []).subperm.trans (sortBy_perm _ _).subperm

/-- Fewer paths, a shorter header. -/
theorem chainCommentLength_le {paths paths' : List TreePath} (h : paths.Subperm paths') (baseId baseSha256 : String) :
    chainCommentLength baseId baseSha256 (paths.map TreePath.text) ≤
      chainCommentLength baseId baseSha256 (paths'.map TreePath.text) := by
  have hlength := h.length_le
  have hsum : ((paths.map TreePath.text).map quotedLength).sum ≤ ((paths'.map TreePath.text).map quotedLength).sum := by
    obtain ⟨kept, hperm, hsub⟩ := h
    rw [← ((hperm.map TreePath.text).map quotedLength).sum_eq]
    exact List.Sublist.sum_le_sum ((hsub.map _).map _) fun _ _ => Nat.zero_le _
  simp only [chainCommentLength, List.length_map]
  omega

section Step

variable {m : CheckpointManager} {call : Call}

theorem goesOn_of_commits (hcommits : commits m call = true) {base : String × String}
    (hbase : previousBase m call = some base) : goesOn m call = true := by
  obtain ⟨hold, hrebases⟩ := previousBase_eq_some hbase
  unfold commits at hcommits
  rw [Bool.and_eq_true, Bool.and_eq_true] at hcommits
  rw [goesOn, hold, hrebases, hcommits.1.1]
  rfl

/-- The new archive has a header that can be read. -/
theorem commentFits_of_roomy (h : Inv sha256 m) (hroomy : Roomy sha256 m call) (hcommits : commits m call = true) :
    (archiveOf m call).commentFits = true := by
  refine decide_eq_true ?_
  cases hbase : previousBase m call with
  | none =>
    simp only [archiveOf, hbase]
    exact Nat.zero_le _
  | some base =>
    obtain ⟨hold, hrebases⟩ := previousBase_eq_some hbase
    have hindex : m.index.isSome = true := by
      rw [h.seeded, hold]
      rfl
    obtain ⟨previous, hprevious⟩ := Option.isSome_iff_exists.mp hindex
    have hdeleted : deletedPaths m call = deletedSince previous call.scanned := by
      rw [deletedPaths, previousIndex, hrebases, if_neg Bool.false_ne_true, hprevious, Option.elim_some]
    simp only [archiveOf, hbase, Comment.length, hdeleted]
    exact (chainCommentLength_le (deletedSince_subperm previous call.scanned) _ _).trans
      (hroomy.header (goesOn_of_commits hcommits hbase) previous base hprevious hold)

/-- What was restorable stays so, and so the other way round. -/
theorem restorable_create_iff (h : Inv sha256 m) {record : CheckpointRecord} (hrecord : record ∈ m.manifests) :
    Restorable sha256 (create sha256 m call).1 record ↔ Restorable sha256 m record := by
  obtain ⟨layers, hsound⟩ := h.manifests record hrecord
  rw [(hsound.create call).restorable_iff, hsound.restorable_iff, create_maxBytes]

/-- On a chain that it can be put on, a new archive is restorable exactly when its content fits beside that of the
chain. -/
theorem restorable_new_iff (h : Inv sha256 m) (hreadable : Readable sha256 m) (hcommits : commits m call = true)
    (hfits : (archiveOf m call).commentFits = true) :
    Restorable sha256 (create sha256 m call).1 (newRecord sha256 m call) ↔
      (if (previousBase m call).isSome then chainSum sha256 m else 0) + call.content ≤
        m.maxBytes * restoreExpansionRatio := by
  obtain ⟨layers, hsound, -, below, rfl, hbelow⟩ := @sound_committed sha256 m h call
  have hiff : Restorable sha256 (committed sha256 m call) (newRecord sha256 m call) ↔
      headersFit (newLayer sha256 m call :: below) = true ∧
        contentOf (newLayer sha256 m call :: below) ≤ m.maxBytes * restoreExpansionRatio := by
    rw [← @committed_archives sha256 m call, ← @committed_seq sha256 m call] at hsound
    exact Sound.restorable_iff hsound
  have hsum : contentOf (newLayer sha256 m call :: below) = contentOf below + call.content := by
    simp [contentOf, newLayer, archiveOf, Nat.add_comm]
  rw [create_of_commits hcommits, hiff, headersFit_cons, hsum]
  rcases hbelow with ⟨hnone, rfl⟩ | ⟨base, hbase, hold⟩
  · rw [hnone]
    simp [newLayer, hfits, contentOf, headersFit]
  · have hshort := hreadable base below (previousBase_eq_some hbase).1 hold
    rw [hbase, chainSum_eq (previousBase_eq_some hbase).1 hold hshort]
    simp [newLayer, hfits, hshort]

/-- A roomy call leaves a chain that can be read. -/
theorem Readable.create (hreadable : Readable sha256 m) (h : Inv sha256 m) (hroomy : Roomy sha256 m call) :
    Readable sha256 (create sha256 m call).1 := by
  intro base' layers' hbase' hsound'
  cases hcommits : commits m call with
  | true =>
    obtain ⟨layers, hsound, -, below, rfl, hbelow⟩ := @sound_committed sha256 m h call
    rw [create_of_commits hcommits, committed_base, Option.some.injEq] at hbase'
    rw [create_of_commits hcommits, committed_archives, committed_seq, ← hbase'] at hsound'
    refine hsound.fits (headersFit_cons.mpr ⟨commentFits_of_roomy h hroomy hcommits, ?_⟩) hsound'
    rcases hbelow with ⟨-, rfl⟩ | ⟨base, hbase, hold⟩
    · rfl
    · exact hreadable base below (previousBase_eq_some hbase).1 hold
  | false =>
    have hbase : m.base = some base' := by
      rcases create_of_not_commits sha256 hcommits with heq | heq | heq <;> rw [heq] at hbase' <;> exact hbase'
    obtain ⟨layers, hsound, -⟩ := h.chain base' hbase
    exact (hsound.create call).fits (hreadable base' layers hbase hsound) hsound'

theorem manifests_create :
    (create sha256 m call).1.manifests =
      if commits m call then newRecord sha256 m call :: m.manifests else m.manifests := by
  cases hcommits : commits m call with
  | true => rw [create_of_commits hcommits, if_pos rfl]; rfl
  | false => rcases create_of_not_commits sha256 hcommits with heq | heq | heq <;> rw [heq] <;> rfl

end Step

theorem readable_run {start : CheckpointManager} (hstart : Start sha256 start) {calls : List Call}
    (hroomy : ∀ done call, done ++ [call] <+: calls → Roomy sha256 (run sha256 start done) call) :
    Readable sha256 (run sha256 start calls) := by
  obtain ⟨hinv, -, hreadable⟩ := hstart.inv
  induction calls using List.reverseRecOn with
  | nil => exact hreadable
  | append_singleton calls call ih =>
    rw [run_append]
    exact (ih fun done call' hdone => hroomy done call' (hdone.trans (List.prefix_append _ _))).create
      (run_inv hinv calls).1 (hroomy calls call List.prefix_rfl)

/-- Every checkpoint that a sequence of calls commits is restorable, then and later, if each call finds room on the
chain that it goes by. -/
theorem chains_restorable (sha256 : Archive → Digest) {start : CheckpointManager} (hstart : Start sha256 start)
    {calls : List Call} (hcontent : ∀ call ∈ calls, call.content ≤ start.maxBytes * checkpointExpansionRatio)
    (hroomy : ∀ done call, done ++ [call] <+: calls → Roomy sha256 (run sha256 start done) call) :
    ∀ done, done <+: calls → ∀ record ∈ (run sha256 start done).manifests,
      Restorable sha256 (run sha256 start done) record := by
  intro done hdone
  obtain ⟨hinv, hempty, -⟩ := hstart.inv
  induction done using List.reverseRecOn with
  | nil => simp [run, hempty]
  | append_singleton done call ih =>
    have hbefore := (List.prefix_append done [call]).trans hdone
    have hearlier := ih hbefore
    obtain ⟨hinvDone, hbytes⟩ := run_inv hinv done
    have hread := readable_run hstart fun done' call' h => hroomy done' call' (h.trans hbefore)
    have hroom := hroomy done call hdone
    intro record hrecord
    rw [run_append] at hrecord ⊢
    rw [manifests_create] at hrecord
    split at hrecord
    · rename_i hcommits
      rcases List.mem_cons.mp hrecord with rfl | hrecord
      · refine (restorable_new_iff hinvDone hread hcommits (commentFits_of_roomy hinvDone hroom hcommits)).mpr ?_
        have hbound : call.content ≤ (run sha256 start done).maxBytes * checkpointExpansionRatio := by
          rw [hbytes]
          exact hcontent call (hdone.subset (by simp))
        have hbelow : (if (previousBase (run sha256 start done) call).isSome then chainSum sha256 (run sha256 start done)
            else 0) ≤ (run sha256 start done).maxBytes * checkpointExpansionRatio := by
          cases hbase : previousBase (run sha256 start done) call with
          | none => exact Nat.zero_le _
          | some base => exact hroom.content (goesOn_of_commits hcommits hbase)
        refine (Nat.add_le_add hbelow hbound).trans (le_of_eq ?_)
        rw [restoreExpansionRatio, Nat.mul_left_comm, Nat.two_mul]
      · exact (restorable_create_iff hinvDone hrecord).mpr (hearlier record hrecord)
    · exact (restorable_create_iff hinvDone hrecord).mpr (hearlier record hrecord)

/-! ## A log that is rewritten -/

/-- A digest that is read off the two sizes. -/
def sizeDigest (archive : Archive) : Digest where
  text := String.ofList ((digitsOf archive.size ++ 'f' :: digitsOf archive.content ++ List.replicate 64 '0').take 64)
  wellFormed := by
    have hlong : 64 ≤ (digitsOf archive.size ++ 'f' :: digitsOf archive.content ++ List.replicate 64 '0').length := by
      simp
      omega
    rw [isSha256, String.toList_ofList, List.length_take_of_le hlong, decide_eq_true rfl, Bool.true_and,
      List.all_eq_true]
    intro c hc
    have hmem := List.mem_of_mem_take hc
    simp only [List.mem_append, List.mem_cons, List.mem_replicate] at hmem
    rcases hmem with (hc | rfl | hc) | ⟨-, rfl⟩
    · simp [isDigit_of_mem_digitsOf hc]
    · rfl
    · simp [isDigit_of_mem_digitsOf hc]
    · rfl

def logFile : TreePath := ⟨"log.txt", by decide⟩

/-- A periodic checkpoint of a tree with one file. -/
def logCall (mtime : Int) (size content : Nat) : Call where
  onlyIfChanged := true
  scanned := [(logFile, .file 33188 content mtime mtime 7 false)]
  archived := [(logFile, .file 33188 content mtime mtime 7 false)]
  racyAfter := 1000
  counted := content
  size := size
  content := content

def gib : Nat := 1024 * 1024 * 1024

/-- A cap of 2 GiB; the log is 1 GiB that does not compress, and then twice 16 GiB of one repeated line. -/
def logCalls : List Call := [logCall 1 gib gib, logCall 2 (gib / 64) (16 * gib), logCall 3 (gib / 64) (16 * gib)]

def shortCalls : List Call := [logCall 1 gib gib, logCall 2 (gib / 64) (15 * gib)]

/-- The second of two calls finds 1 GiB on the chain, and nothing gone. -/
theorem roomy_two (size content : Nat) : ∀ done call, done ++ [call] <+: [logCall 1 gib gib, logCall 2 size content] →
    Roomy sizeDigest (run sizeDigest (fresh "a1" (2 * gib) fun _ => none) done) call := by
  rintro done call ⟨tail, htail⟩
  rcases done with _ | ⟨first, _ | ⟨second, rest⟩⟩
  · cases htail
    exact ⟨fun hgoes => absurd hgoes (by decide), fun hgoes => absurd hgoes (by decide)⟩
  · cases htail
    refine ⟨fun _ => by decide, fun _ => ?_⟩
    rintro previous base ⟨⟩ ⟨⟩
    have hnone : gonePaths (nextIndex (fresh "a1" (2 * gib) fun _ => none) (logCall 1 gib gib))
        (logCall 2 size content).scanned = [] := rfl
    rw [hnone]
    decide
  · have hlength := congrArg List.length htail
    simp at hlength

theorem chains_restorable_short :
    ∃ record ∈ (run sizeDigest (fresh "a1" (2 * gib) fun _ => none) shortCalls).manifests,
      Restorable sizeDigest (run sizeDigest (fresh "a1" (2 * gib) fun _ => none) shortCalls) record := by
  have hcontent : ∀ call ∈ shortCalls, call.content ≤ 2 * gib * checkpointExpansionRatio := by
    intro call hcall
    rcases List.mem_cons.mp hcall with rfl | hcall
    · decide
    · rw [List.mem_singleton.mp hcall]
      decide
  have hall := chains_restorable sizeDigest (.fresh "a1" (2 * gib) fun _ => none) hcontent
    (roomy_two (gib / 64) (15 * gib))
  have hcommits : commits (run sizeDigest (fresh "a1" (2 * gib) fun _ => none) [logCall 1 gib gib])
      (logCall 2 (gib / 64) (15 * gib)) = true := by decide
  have hnewest : newRecord sizeDigest (run sizeDigest (fresh "a1" (2 * gib) fun _ => none) [logCall 1 gib gib])
      (logCall 2 (gib / 64) (15 * gib)) ∈
      (run sizeDigest (fresh "a1" (2 * gib) fun _ => none) shortCalls).manifests := by
    rw [shortCalls, ← List.singleton_append, run_append, manifests_create, if_pos hcommits]
    exact List.mem_cons_self
  exact ⟨_, hnewest, hall shortCalls List.prefix_rfl _ hnewest⟩

theorem chains_not_restorable :
    ¬ ∀ done, done <+: logCalls → ∀ record ∈ (run sizeDigest (fresh "a1" (2 * gib) fun _ => none) done).manifests,
        Restorable sizeDigest (run sizeDigest (fresh "a1" (2 * gib) fun _ => none) done) record := by
  intro hall
  have hstart : Start sizeDigest (fresh "a1" (2 * gib) fun _ => none) := .fresh "a1" (2 * gib) fun _ => none
  have hcommits : commits (run sizeDigest (fresh "a1" (2 * gib) fun _ => none) (logCalls.take 2))
      (logCall 3 (gib / 64) (16 * gib)) = true := by decide
  have hlast := hall logCalls List.prefix_rfl
  rw [show logCalls = logCalls.take 2 ++ [logCall 3 (gib / 64) (16 * gib)] from rfl, run_append, manifests_create,
    if_pos hcommits] at hlast
  have hfits := (restorable_new_iff (run_inv hstart.inv.1 _).1 (readable_run hstart (roomy_two _ _)) hcommits
    (by decide)).mp (hlast _ List.mem_cons_self)
  revert hfits
  decide

end SwarmCloud.Checkpoints
