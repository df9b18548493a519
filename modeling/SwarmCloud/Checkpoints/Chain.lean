import SwarmCloud.Lib.Decimal
import SwarmCloud.Lib.Paths

/-! # Reading a chain of checkpoint archives

`agent_worker/checkpoint.py`: an incremental archive names the archive it sits
on in its gzip comment. A restore follows these names down to a full archive,
newest first, and then unpacks the layers, oldest first, against a bound on the
file content of all of them together.
-/

namespace SwarmCloud.Checkpoints

open Lib

def checkpointExpansionRatio : Nat := 8

def restoreExpansionRatio : Nat := 2 * checkpointExpansionRatio

def restoreChainMax : Nat := 200

/-- The `limit` of `_gzip_comment`. -/
def gzipCommentLimit : Nat := 64 * 1024 * 1024

/-- `_archive_parts`. -/
def archiveParts (name : String) : Option (List String) :=
  if name.toList.head? = some '/' then none
  else
    let parts := (segments name).filter fun part => part ≠ "" && part ≠ "."
    if parts = [] ∨ ".." ∈ parts then none else some parts

/-! ## Ids and digests -/

def idHead : List Char := ['c', 'k', 'p', 't', '-']

/-- The number of an id that `_CHECKPOINT_ID_RE` accepts. -/
def idNumber (id : String) : Option Nat :=
  if idHead.isPrefixOf id.toList ∧ 5 ≤ (id.toList.drop 5).length ∧ (id.toList.drop 5).all Char.isDigit then
    some (ofDigits (id.toList.drop 5))
  else none

/-- `ckpt-{seq:05d}`. -/
def checkpointId (seq : Nat) : String :=
  String.ofList (idHead ++ (List.replicate (5 - (digitsOf seq).length) '0' ++ digitsOf seq))

theorem idNumber_checkpointId (seq : Nat) : idNumber (checkpointId seq) = some seq := by
  have hdrop : (checkpointId seq).toList.drop 5 =
      List.replicate (5 - (digitsOf seq).length) '0' ++ digitsOf seq := by
    rw [checkpointId, String.toList_ofList]
    rfl
  have hbegins : idHead.isPrefixOf (checkpointId seq).toList = true := by
    rw [List.isPrefixOf_iff_prefix, checkpointId, String.toList_ofList]
    exact List.prefix_append _ _
  have hlength : 5 ≤ (List.replicate (5 - (digitsOf seq).length) '0' ++ digitsOf seq).length := by
    rw [List.length_append, List.length_replicate]
    omega
  have hdigits : (List.replicate (5 - (digitsOf seq).length) '0' ++ digitsOf seq).all Char.isDigit = true := by
    rw [List.all_eq_true]
    intro c hc
    rcases List.mem_append.mp hc with hc | hc
    · rw [List.eq_of_mem_replicate hc]
      rfl
    · exact isDigit_of_mem_digitsOf hc
  rw [idNumber, hdrop, if_pos ⟨hbegins, hlength, hdigits⟩, ofDigits_append, ofDigits_zeros, ofDigits_digitsOf]
  simp

/-- `_SHA256_RE`. -/
def isSha256 (text : String) : Bool :=
  text.toList.length = 64 && text.toList.all fun c => c.isDigit || ('a' ≤ c && c ≤ 'f')

/-- What `hashlib.sha256(..).hexdigest()` gives. -/
structure Digest where
  text : String
  wellFormed : isSha256 text = true
deriving DecidableEq

/-! ## Archives -/

/-- The gzip comment of an archive: none on a full one, a base with the deleted paths on an incremental one, or
anything else. `length` is the number of its bytes. -/
inductive Comment
  | absent
  | chain (baseId baseSha256 : String) (deleted : List String) (length : Nat)
  | malformed (length : Nat)
deriving DecidableEq, Repr

def Comment.length : Comment → Nat
  | absent => 0
  | chain _ _ _ length => length
  | malformed length => length

/-- `size` is the length of the file, `content` the sum of the sizes of the file members that a restore accepts. -/
structure Archive where
  comment : Comment
  size : Nat
  content : Nat
deriving DecidableEq, Repr

def headerRefused (checkpointId : String) : String :=
  s!"checkpoint {checkpointId} names its base in a form the restore refuses"

/-- What a comment names: the base and the deleted paths. -/
def Comment.header (comment : Comment) (checkpointId : String) :
    Except String (Option (String × String) × List String) :=
  match comment with
  | .absent => .ok (none, [])
  | .malformed _ => .error (headerRefused checkpointId)
  | .chain baseId baseSha256 deleted _ =>
    if (idNumber baseId).isSome && isSha256 baseSha256 && deleted.all fun rel => (archiveParts rel).isSome then
      .ok (some (baseId, baseSha256), deleted)
    else .error (headerRefused checkpointId)

/-- `_gzip_comment` reads no comment longer than its limit. -/
def commentTooLong : String := "a checkpoint archive's gzip comment is too long"

def Archive.commentFits (archive : Archive) : Bool := archive.comment.length ≤ gzipCommentLimit

/-- `_chain_header`. -/
def chainHeader (archive : Archive) (checkpointId : String) : Except String (Option (String × String) × List String) :=
  if archive.commentFits then archive.comment.header checkpointId else .error commentTooLong

structure Layer where
  checkpointId : String
  archive : Archive
  deleted : List String
  digest : String
deriving DecidableEq, Repr

/-! ## Following the names -/

section Download

variable (sha256 : Archive → Digest) (beside : String → Option Archive) (head : String)

/-- One turn of the loop of `_download_chain` with `object` as the download. The number counts the layers that are
still allowed. -/
def chainLoop : Nat → List String → String → String → Option Archive → Except String (List Layer)
  | 0, _, _, _, _ => .error s!"checkpoint {head}'s chain of bases does not end in a full archive within {restoreChainMax}"
  | n + 1, seen, id, expected, object =>
    match object with
    | none => .error s!"checkpoint {id} has no archive"
    | some archive =>
      if (sha256 archive).text ≠ expected then
        .error s!"checkpoint {id} failed integrity check: expected {expected}, got {(sha256 archive).text}"
      else
        match chainHeader archive id with
        | .error refused => .error refused
        | .ok (none, deleted) => .ok [⟨id, archive, deleted, expected⟩]
        | .ok (some base, deleted) =>
          if base.1 ∈ id :: seen ∨ n = 0 then
            .error s!"checkpoint {head}'s chain of bases does not end in a full archive within {restoreChainMax}"
          else
            match chainLoop n (id :: seen) base.1 base.2 (beside base.1) with
            | .error refused => .error refused
            | .ok layers => .ok (⟨id, archive, deleted, expected⟩ :: layers)

end Download

/-- `_download_chain`: the head is fetched by the key of its record, its bases beside it. -/
def downloadChain (sha256 : Archive → Digest) (beside : String → Option Archive) (headObject : Option Archive)
    (id digest : String) : Except String (List Layer) :=
  chainLoop sha256 beside id restoreChainMax [] id digest headObject

/-- The check of `_apply_layer` over the layers, oldest first. -/
def applyLayers (maxBytes : Nat) : Nat → List Layer → Except String Nat
  | expanded, [] => .ok expanded
  | expanded, layer :: rest =>
    if maxBytes * restoreExpansionRatio < expanded + layer.archive.content then
      .error (s!"checkpoint {layer.checkpointId} expands past {maxBytes * restoreExpansionRatio} bytes; " ++
        "refusing to restore it")
    else applyLayers maxBytes (expanded + layer.archive.content) rest

/-- The file content of all layers. -/
def contentOf (layers : List Layer) : Nat := (layers.map fun layer => layer.archive.content).sum

theorem applyLayers_eq_ok_iff {maxBytes expanded total : Nat} {layers : List Layer} :
    applyLayers maxBytes expanded layers = .ok total ↔
      total = expanded + contentOf layers ∧ (layers = [] ∨ total ≤ maxBytes * restoreExpansionRatio) := by
  induction layers generalizing expanded with
  | nil => simp [applyLayers, contentOf, eq_comm]
  | cons layer rest ih =>
    have hsum : contentOf (layer :: rest) = layer.archive.content + contentOf rest := by simp [contentOf]
    unfold applyLayers
    rw [hsum]
    split
    · rename_i hover
      simp only [reduceCtorEq, List.cons_ne_nil, false_or, false_iff, not_and, not_le]
      omega
    · rename_i hfits
      rw [ih]
      constructor
      · rintro ⟨rfl, hrest⟩
        refine ⟨by omega, .inr ?_⟩
        rcases hrest with rfl | hrest
        · simp only [contentOf, List.map_nil, List.sum_nil]
          omega
        · exact hrest
      · rintro ⟨rfl, hrest⟩
        exact ⟨by omega, .inr (hrest.resolve_left (by simp))⟩

theorem contentOf_reverse (layers : List Layer) : contentOf layers.reverse = contentOf layers := by
  simp [contentOf, List.sum_reverse]

/-! ## Linked layers -/

/-- Layers that name each other from the newest down to a full archive. -/
inductive Linked (sha256 : Archive → Digest) : List Layer → Prop
  | full {id : String} {archive : Archive} {deleted : List String}
      (header : archive.comment.header id = .ok (none, deleted)) :
      Linked sha256 [⟨id, archive, deleted, (sha256 archive).text⟩]
  | onBase {id : String} {archive : Archive} {deleted : List String} {next : Layer} {rest : List Layer}
      (header : archive.comment.header id = .ok (some (next.checkpointId, next.digest), deleted))
      (below : Linked sha256 (next :: rest)) :
      Linked sha256 (⟨id, archive, deleted, (sha256 archive).text⟩ :: next :: rest)

def ids (layers : List Layer) : List String := layers.map Layer.checkpointId

/-- Every header can be read. -/
def headersFit (layers : List Layer) : Bool := layers.all fun layer => layer.archive.commentFits

theorem headersFit_cons {layer : Layer} {layers : List Layer} :
    headersFit (layer :: layers) = true ↔ layer.archive.commentFits = true ∧ headersFit layers = true := by
  rw [headersFit, List.all_cons, Bool.and_eq_true]
  rfl

theorem header_of_chainHeader {archive : Archive} {id : String} {header : Option (String × String) × List String}
    (h : chainHeader archive id = .ok header) : archive.commentFits = true ∧ archive.comment.header id = .ok header := by
  unfold chainHeader at h
  split at h
  · exact ⟨‹_›, h⟩
  · cases h

section Exact

variable {sha256 : Archive → Digest} {beside : String → Option Archive} {head : String}

/-- What the loop accepts is linked, without a repeated id, and within the bounds. -/
theorem linked_of_chainLoop {n : Nat} {seen : List String} {id expected : String} {object : Option Archive}
    {layers : List Layer} (h : chainLoop sha256 beside head n seen id expected object = .ok layers) :
    Linked sha256 layers ∧ headersFit layers = true ∧ layers.length ≤ n ∧ (ids layers).Nodup ∧
      (∀ i ∈ (ids layers).tail, i ∉ id :: seen) ∧
      ∃ top rest, layers = top :: rest ∧ top.checkpointId = id ∧ top.digest = expected := by
  induction n generalizing seen id expected object layers with
  | zero => cases h
  | succ n ih =>
    unfold chainLoop at h
    split at h
    · cases h
    rename_i archive
    split at h
    · cases h
    rename_i hdigest
    rw [not_not] at hdigest
    split at h
    · cases h
    · rename_i deleted hheader
      cases h
      subst hdigest
      obtain ⟨hfits, hheader⟩ := header_of_chainHeader hheader
      exact ⟨.full hheader, headersFit_cons.mpr ⟨hfits, rfl⟩, by simp, by simp [ids], by simp [ids], _, _, rfl, rfl,
        rfl⟩
    · rename_i base deleted hheader
      split at h
      · cases h
      rename_i hfresh
      obtain ⟨hfresh, -⟩ := not_or.mp hfresh
      split at h
      · cases h
      rename_i below hbelow
      cases h
      obtain ⟨hlinked, hshort, hlength, hnodup, hnew, next, rest, rfl, hid, hnext⟩ := ih hbelow
      obtain ⟨hfits, hheader⟩ := header_of_chainHeader hheader
      subst hdigest
      -- Every id below is new: the base by the check, the rest by the induction.
      have hall : ∀ i ∈ ids (next :: rest), i ∉ id :: seen := by
        intro i hi
        rcases List.mem_cons.mp hi with rfl | hi
        · rw [hid]
          exact hfresh
        · exact fun hmem => hnew i hi (List.mem_cons_of_mem _ hmem)
      refine ⟨.onBase (by rw [hheader, hid, hnext]) hlinked, headersFit_cons.mpr ⟨hfits, hshort⟩, by simpa using hlength,
        ?_, hall, _, _, rfl, rfl, rfl⟩
      exact List.nodup_cons.mpr ⟨fun hmem => hall id hmem List.mem_cons_self, hnodup⟩

/-- Every layer stands at its id. -/
def Stored (archives : String → Option Archive) (layers : List Layer) : Prop :=
  ∀ layer ∈ layers, archives layer.checkpointId = some layer.archive

/-- Linked layers that are few and have new ids are followed to their end, or to a header that is too long. -/
theorem chainLoop_of_linked {layers : List Layer} (hlinked : Linked sha256 layers) (hstored : Stored beside layers)
    {n : Nat} {seen : List String} (hlength : layers.length ≤ n) (hnodup : (ids layers).Nodup)
    (hfresh : ∀ i ∈ ids layers, i ∉ seen) {top : Layer} {rest : List Layer} (htop : layers = top :: rest) :
    chainLoop sha256 beside head n seen top.checkpointId top.digest (beside top.checkpointId) =
      if headersFit layers then .ok layers else .error commentTooLong := by
  induction hlinked generalizing n seen top rest with
  | @full id archive deleted hheader =>
    cases htop
    obtain ⟨n, rfl⟩ : ∃ k, n = k + 1 := ⟨n - 1, by simp at hlength; omega⟩
    rw [hstored _ List.mem_cons_self]
    unfold chainLoop
    dsimp only
    rw [if_neg (not_not.mpr rfl), chainHeader, hheader, headersFit, List.all_cons, List.all_nil, Bool.and_true]
    cases archive.commentFits <;> rfl
  | @onBase id archive deleted next below hheader hbelow ih =>
    cases htop
    obtain ⟨n, rfl⟩ : ∃ k, n = k + 1 := ⟨n - 1, by simp at hlength; omega⟩
    obtain ⟨hid, hrest⟩ := List.nodup_cons.mp hnodup
    have hnew : ∀ i ∈ ids (next :: below), i ∉ id :: seen := by
      intro i hi hmem
      rcases List.mem_cons.mp hmem with rfl | hmem
      · exact hid hi
      · exact hfresh i (List.mem_cons_of_mem _ hi) hmem
    have hgo : ¬ (next.checkpointId ∈ id :: seen ∨ n = 0) := by
      rintro (hmem | rfl)
      · exact hnew _ List.mem_cons_self hmem
      · simp at hlength
    have hloop := ih (fun layer hlayer => hstored layer (List.mem_cons_of_mem _ hlayer)) (by simpa using hlength)
      hrest hnew rfl
    rw [hstored _ List.mem_cons_self]
    unfold chainLoop
    dsimp only
    rw [if_neg (not_not.mpr rfl), chainHeader, hheader, headersFit, List.all_cons]
    cases archive.commentFits with
    | false => rfl
    | true =>
      rw [if_pos rfl, Bool.true_and]
      dsimp only
      rw [if_neg hgo, hloop]
      change (match (if headersFit (next :: below) then Except.ok (next :: below) else .error commentTooLong) with
        | .error refused => _
        | .ok layers => _) = if headersFit (next :: below) then _ else _
      cases headersFit (next :: below) <;> rfl

theorem Linked.bottom_full {layers : List Layer} (h : Linked sha256 layers) :
    ∃ bottom, layers.getLast? = some bottom ∧ bottom.archive.comment = .absent := by
  induction h with
  | @full id archive deleted hheader =>
    refine ⟨_, rfl, ?_⟩
    unfold Comment.header at hheader
    split at hheader
    · assumption
    · cases hheader
    · split at hheader <;> cases hheader
  | @onBase id archive deleted next below hheader hbelow ih =>
    obtain ⟨bottom, hbottom, hfull⟩ := ih
    exact ⟨bottom, by rw [List.getLast?_cons_cons, hbottom], hfull⟩

end Exact

end SwarmCloud.Checkpoints
