import SwarmCloud.SpecSign.Canonical

/-! # What the signed bytes bind

Equal bytes come from one kind of message only, and equal bytes of two step
specs come from documents that agree on everything their format covers.
-/

namespace SwarmCloud.SpecSign

open Lib

section Refusals

variable {doc : PyMap} {specFormat format : Int}

theorem refuseUncovered_eq_ok {set : PyValue → Bool} {label : String} {keys : List String} {u : Unit} :
    refuseUncovered set label doc keys specFormat format = .ok u ↔
      (specFormat < format → ∀ key ∈ keys, set (doc.get key) = false) := by
  unfold refuseUncovered
  split
  · rename_i hlt
    split
    · rename_i key hfind
      have hset := List.find?_some hfind
      have hmem := List.mem_of_find?_eq_some hfind
      simp only [reduceCtorEq, false_iff]
      intro h
      rw [h hlt key hmem] at hset
      cases hset
    · rename_i hfind
      simpa [hlt] using hfind
  · rename_i hge
    simp [hge]

theorem requireMetadata_eq_ok {metadata : PyMap} (h : requireMetadata doc = .ok metadata) :
    metadata = metadataMap doc := by
  unfold requireMetadata at h
  unfold metadataMap
  split at h <;> cases h
  · rename_i hnone
    rw [hnone]
  · rename_i hmap
    rw [hmap]

/-- What `canonicalStepSpec` has checked when it writes bytes. -/
structure Checked (doc : PyMap) (specFormat : Int) : Prop where
  known : specFormat ∈ specFormats
  format3 : specFormat < 3 → ∀ key ∈ format3Fields, isSome (doc.get key) = false
  format4 : specFormat < 4 → ∀ key ∈ format4Fields, isSet (doc.get key) = false
  format5 : specFormat < 5 → ∀ key ∈ format5Fields, isSome (doc.get key) = false
  format6 : specFormat < 6 → ∀ key ∈ format6Fields, isSome (doc.get key) = false
  format7 : specFormat < 7 → ∀ key ∈ format7Fields, isSome (doc.get key) = false
  format8 : specFormat < 8 → ∀ key ∈ format8MetadataKeys, isSome ((metadataMap doc).get key) = false
  integers : requireIntegers doc integerFields = .ok ()

theorem canonicalStepSpec_ok {taskId : PyStr} {bytes : ByteArray}
    (h : canonicalStepSpec doc taskId specFormat = .ok bytes) :
    Checked doc specFormat ∧
      jcs (.map (stepSpec doc (metadataMap doc) taskId specFormat)) = .ok bytes := by
  unfold canonicalStepSpec at h
  split at h
  · cases h
  · rename_i hknown
    obtain ⟨metadata, hmetadata, h⟩ := bind_eq_ok h
    obtain rfl := requireMetadata_eq_ok hmetadata
    obtain ⟨_, h3, h⟩ := bind_eq_ok h
    obtain ⟨_, h4, h⟩ := bind_eq_ok h
    obtain ⟨_, h5, h⟩ := bind_eq_ok h
    obtain ⟨_, h6, h⟩ := bind_eq_ok h
    obtain ⟨_, h7, h⟩ := bind_eq_ok h
    obtain ⟨_, h8, h⟩ := bind_eq_ok h
    obtain ⟨_, hintegers, h⟩ := bind_eq_ok h
    exact ⟨⟨not_not.mp hknown, refuseUncovered_eq_ok.mp h3, refuseUncovered_eq_ok.mp h4,
      refuseUncovered_eq_ok.mp h5, refuseUncovered_eq_ok.mp h6, refuseUncovered_eq_ok.mp h7,
      refuseUncovered_eq_ok.mp h8, hintegers⟩, h⟩

end Refusals

/-! ## Step specs -/

section StepSpec

variable {doc metadata : PyMap} {taskId : PyStr} {specFormat : Int} {name : String} {names : List String}

/-- The top-level fields of the document that a format covers. -/
def coveredFields (specFormat : Int) : List String := baseFields ++ addedFields specFormat

def specKeys (specFormat : Int) : List String :=
  ["purpose", "format", "task_id"] ++ baseFields ++ ["metadata"] ++ addedFields specFormat

theorem specKeys_nodup : ∀ f ∈ specFormats, (specKeys f).Nodup := by decide

theorem metadataKeys_nodup (specFormat : Int) : (metadataKeys specFormat).Nodup := by
  unfold metadataKeys
  split <;> decide

def fieldKey (name : String) : PyKey := .str (py name)

theorem fieldKey_injective : Function.Injective fieldKey := by
  intro a b h
  exact py_inj.mp (PyKey.str.inj h)

@[simp] theorem projected_keys (doc : PyMap) (names : List String) :
    (projected doc names).map Prod.fst = names.map fieldKey := by
  simp [projected, entry, fieldKey]

theorem stepSpec_distinctKeys (hf : specFormat ∈ specFormats) :
    (stepSpec doc metadata taskId specFormat).DistinctKeys := by
  have hkeys : (stepSpec doc metadata taskId specFormat).map Prod.fst =
      (specKeys specFormat).map fieldKey := by
    simp [stepSpec, specKeys, entry, fieldKey]
  rw [PyMap.DistinctKeys, hkeys]
  exact (specKeys_nodup specFormat hf).map fieldKey_injective

theorem projected_distinctKeys (hnodup : names.Nodup) : (projected doc names).DistinctKeys := by
  rw [PyMap.DistinctKeys, projected_keys]
  exact hnodup.map fieldKey_injective

theorem projected_get (hnodup : names.Nodup) (hname : name ∈ names) :
    (projected doc names).get name = doc.get name :=
  PyMap.get_of_mem (projected_distinctKeys hnodup) (List.mem_map.mpr ⟨name, hname, rfl⟩)

theorem stepSpec_get_covered (hf : specFormat ∈ specFormats) (hname : name ∈ coveredFields specFormat) :
    (stepSpec doc metadata taskId specFormat).get name = doc.get name := by
  refine PyMap.get_of_mem (stepSpec_distinctKeys hf) ?_
  have hentry : ∀ names, name ∈ names → (fieldKey name, doc.get name) ∈ projected doc names :=
    fun names hmem => List.mem_map.mpr ⟨name, hmem, rfl⟩
  obtain hbase | hadded := List.mem_append.mp hname
  · exact List.mem_append_left _ (List.mem_append_left _ (List.mem_append_right _ (hentry _ hbase)))
  · exact List.mem_append_right _ (hentry _ hadded)

theorem stepSpec_get_header (hf : specFormat ∈ specFormats) :
    (stepSpec doc metadata taskId specFormat).get "purpose" = .str (py "swarm.step-spec") ∧
    (stepSpec doc metadata taskId specFormat).get "format" = .int specFormat ∧
    (stepSpec doc metadata taskId specFormat).get "task_id" = .str taskId ∧
    (stepSpec doc metadata taskId specFormat).get "metadata" =
      .map (projected metadata (metadataKeys specFormat)) := by
  refine ⟨?_, ?_, ?_, ?_⟩ <;>
  · apply PyMap.get_of_mem (stepSpec_distinctKeys hf)
    simp [stepSpec, entry]

end StepSpec

/-- The two documents, read under two task ids at two formats, agree on all that
the first format covers. -/
structure SpecAgree (doc doc' : PyMap) (taskId taskId' : PyStr) (specFormat specFormat' : Int) : Prop where
  taskId : taskId = taskId'
  format : specFormat = specFormat'
  fields : ∀ name ∈ coveredFields specFormat, SameJson (doc.get name) (doc'.get name)
  metadata : ∀ key ∈ metadataKeys specFormat,
    SameJson ((metadataMap doc).get key) ((metadataMap doc').get key)

theorem specAgree_of_bytes {doc doc' : PyMap} {taskId taskId' : PyStr} {f f' : Int} {bytes : ByteArray}
    (h : canonicalStepSpec doc taskId f = .ok bytes)
    (h' : canonicalStepSpec doc' taskId' f' = .ok bytes) : SpecAgree doc doc' taskId taskId' f f' := by
  obtain ⟨hchecked, hjcs⟩ := canonicalStepSpec_ok h
  obtain ⟨hchecked', hjcs'⟩ := canonicalStepSpec_ok h'
  obtain ⟨j, hj, hj'⟩ := jcs_meaning hjcs hjcs'
  have hsame := sameJson_get (stepSpec_distinctKeys hchecked.known)
    (stepSpec_distinctKeys hchecked'.known) hj hj'
  obtain ⟨-, hformat, htask, hmetadata⟩ := stepSpec_get_header hchecked.known
  obtain ⟨-, hformat', htask', hmetadata'⟩ := stepSpec_get_header hchecked'.known
  have hmeans : ∀ v, (∃ name, entry name v ∈ stepSpec doc (metadataMap doc) taskId f) →
      ∃ a, v.meaning = some a := by
    rintro v ⟨name, hv⟩
    exact mem_meaning hj hv
  obtain rfl : f = f' := by
    have hs := hsame "format"
    rw [hformat, hformat'] at hs
    exact sameJson_int hs
  refine ⟨?_, rfl, ?_, ?_⟩
  · have hs := hsame "task_id"
    rw [htask, htask'] at hs
    exact sameJson_str (hmeans _ ⟨"task_id", by simp [stepSpec]⟩) hs
  · intro name hname
    have hs := hsame name
    rwa [stepSpec_get_covered hchecked.known hname, stepSpec_get_covered hchecked.known hname] at hs
  · intro key hkey
    have hs := hsame "metadata"
    rw [hmetadata, hmetadata'] at hs
    obtain ⟨a, ha⟩ := hmeans (.map (projected (metadataMap doc) (metadataKeys f)))
      ⟨"metadata", by simp [stepSpec]⟩
    have hget := sameJson_get (projected_distinctKeys (metadataKeys_nodup f))
      (projected_distinctKeys (metadataKeys_nodup f)) ha (hs.symm.trans ha) key
    rwa [projected_get (metadataKeys_nodup f) hkey, projected_get (metadataKeys_nodup f) hkey] at hget

/-! ## The other messages -/

section OtherMessages

variable {bytes : ByteArray} {fields : PyValue}

theorem canonicalSettingsBlock_ok {tenantId : PyValue} {block : PyStr}
    (h : canonicalSettingsBlock tenantId block fields = .ok bytes) :
    ∃ known names members, jcs (.map (settingsBlock tenantId known names members)) = .ok bytes := by
  unfold canonicalSettingsBlock at h
  split at h
  · cases h
  · split at h
    · cases h
    · exact ⟨_, _, _, h⟩
    · cases h

theorem pluginRecordBytes_ok {kind : PyStr} {ids : List String} {members : PyMap}
    (h : pluginRecordBytes kind ids members = .ok bytes) :
    jcs (.map (pluginRecord kind members)) = .ok bytes := by
  unfold pluginRecordBytes at h
  split at h
  · cases h
  · split at h
    · cases h
    · split at h
      · cases h
      · obtain ⟨_, -, h⟩ := bind_eq_ok h
        exact h

theorem canonicalPluginRecord_ok {kind : PyStr} (h : canonicalPluginRecord kind fields = .ok bytes) :
    ∃ members, jcs (.map (pluginRecord kind members)) = .ok bytes := by
  unfold canonicalPluginRecord at h
  split at h
  · cases h
  · exact ⟨_, pluginRecordBytes_ok h⟩
  · cases h

theorem canonicalPlatformSettings_ok (h : canonicalPlatformSettings fields = .ok bytes) :
    ∃ members, jcs (.map (platformSettings members)) = .ok bytes := by
  unfold canonicalPlatformSettings at h
  split at h
  · exact ⟨_, h⟩
  · cases h

end OtherMessages

/-! ## Purposes -/

inductive Purpose where
  | stepSpec
  | settingsBlock
  | pluginRecord
  | platformSettings
  deriving DecidableEq

def Purpose.text : Purpose → String
  | .stepSpec => "swarm.step-spec"
  | .settingsBlock => "swarm.settings/v1"
  | .pluginRecord => "swarm.plugin-record/v1"
  | .platformSettings => "swarm.platform-settings/v1"

theorem Purpose.text_injective : Function.Injective Purpose.text := by
  have hall : ∀ p q : Purpose, p.text = q.text → p = q := by
    intro p q
    cases p <;> cases q <;> decide
  exact fun p q => hall p q

/-- A call of one of the four functions. -/
inductive Message where
  | stepSpec (doc : PyMap) (taskId : PyStr) (specFormat : Int)
  | settingsBlock (tenantId : PyValue) (block : PyStr) (fields : PyValue)
  | pluginRecord (kind : PyStr) (fields : PyValue)
  | platformSettings (fields : PyValue)

def Message.purpose : Message → Purpose
  | .stepSpec .. => .stepSpec
  | .settingsBlock .. => .settingsBlock
  | .pluginRecord .. => .pluginRecord
  | .platformSettings .. => .platformSettings

def Message.canonical : Message → Except SpecNotCanonical ByteArray
  | .stepSpec doc taskId specFormat => canonicalStepSpec doc taskId specFormat
  | .settingsBlock tenantId block fields => canonicalSettingsBlock tenantId block fields
  | .pluginRecord kind fields => canonicalPluginRecord kind fields
  | .platformSettings fields => canonicalPlatformSettings fields

/-- Every message is the encoding of a map with its purpose under "purpose". -/
theorem Message.canonical_ok {m : Message} {bytes : ByteArray} (h : m.canonical = .ok bytes) :
    ∃ members : PyMap, jcs (.map members) = .ok bytes ∧ members.DistinctKeys ∧
      members.get "purpose" = .str (py m.purpose.text) := by
  have hhead : ∀ (members : PyMap) (text : String),
      PyMap.get (entry "purpose" (.str (py text)) :: members) "purpose" = .str (py text) := by
    intro members text
    simp [PyMap.get, entry]
  have hdistinct : ∀ (members : PyMap) (names : List String), members.map Prod.fst = names.map fieldKey →
      names.Nodup → members.DistinctKeys := by
    intro members names hkeys hnodup
    rw [PyMap.DistinctKeys, hkeys]
    exact hnodup.map fieldKey_injective
  cases m with
  | stepSpec doc taskId specFormat =>
    obtain ⟨hchecked, hjcs⟩ := canonicalStepSpec_ok h
    exact ⟨_, hjcs, stepSpec_distinctKeys hchecked.known, hhead _ _⟩
  | settingsBlock tenantId block fields =>
    obtain ⟨known, names, members, hjcs⟩ := canonicalSettingsBlock_ok h
    exact ⟨_, hjcs, hdistinct _ ["purpose", "tenant_id", "block", "fields"] rfl (by decide), hhead _ _⟩
  | pluginRecord kind fields =>
    obtain ⟨members, hjcs⟩ := canonicalPluginRecord_ok h
    exact ⟨_, hjcs, hdistinct _ ["purpose", "kind", "scope", "tenant_id", "fields"] rfl (by decide),
      hhead _ _⟩
  | platformSettings fields =>
    obtain ⟨members, hjcs⟩ := canonicalPlatformSettings_ok h
    exact ⟨_, hjcs, hdistinct _ ["purpose", "fields"] rfl (by decide), hhead _ _⟩

theorem purpose_eq_of_bytes {m m' : Message} {bytes : ByteArray} (h : m.canonical = .ok bytes)
    (h' : m'.canonical = .ok bytes) : m.purpose = m'.purpose := by
  obtain ⟨members, hjcs, hdistinct, hpurpose⟩ := m.canonical_ok h
  obtain ⟨members', hjcs', hdistinct', hpurpose'⟩ := m'.canonical_ok h'
  obtain ⟨j, hj, hj'⟩ := jcs_meaning hjcs hjcs'
  have hsame := sameJson_get hdistinct hdistinct' hj hj' "purpose"
  rw [hpurpose, hpurpose'] at hsame
  have htext := sameJson_str ⟨_, by rw [PyValue.meaning, scalars_py]; rfl⟩ hsame
  exact Purpose.text_injective (py_inj.mp htext)

/-- Equal bytes have one JSON value behind them. Two step specs with equal bytes
agree on all that is covered, and no bytes come from two of the four functions. -/
theorem canonical_bytes_bind :
    (∀ (v w : PyValue) (bytes : ByteArray), jcs v = .ok bytes → jcs w = .ok bytes →
      ∃ j, v.meaning = some j ∧ w.meaning = some j) ∧
    (∀ (doc doc' : PyMap) (taskId taskId' : PyStr) (f f' : Int) (bytes : ByteArray),
      canonicalStepSpec doc taskId f = .ok bytes → canonicalStepSpec doc' taskId' f' = .ok bytes →
      SpecAgree doc doc' taskId taskId' f f') ∧
    (∀ (m m' : Message) (bytes : ByteArray), m.canonical = .ok bytes → m'.canonical = .ok bytes →
      m.purpose = m'.purpose) := by
  refine ⟨?_, ?_, ?_⟩
  · intro v w bytes hv hw
    exact jcs_meaning hv hw
  · intro doc doc' taskId taskId' f f' bytes h h'
    exact specAgree_of_bytes h h'
  · intro m m' bytes h h'
    exact purpose_eq_of_bytes h h'

/-- A map and a reordering of it, an integer written as a float and a list as a tuple. -/
def sampleMap : PyValue :=
  .map [entry "b" (.list [.int 3600, .none]), entry "a" (.str (py "x"))]

def sampleMapReordered : PyValue :=
  .map [entry "a" (.str (py "x")), entry "b" (.tuple [.float (.finite false 36000 (-1)), .none])]

/-- A stored task, with a caller's label that no format covers. -/
def sampleTask (label : String) : PyMap :=
  [entry "tenant_id" (.str (py "acme")), entry "timeout_seconds" (.int 3600),
    entry "metadata" (.map [entry "label" (.str (py label)), entry "dispatch" .none])]

theorem canonical_bytes_bind_samples :
    SameJson sampleMap sampleMapReordered ∧
      SpecAgree (sampleTask "a") (sampleTask "b") (py "t-1") (py "t-1") 1 1 := by
  have hmaps : jcs sampleMap = .ok "\x7b\"a\":\"x\",\"b\":[3600,null]\x7d".toUTF8 ∧
      jcs sampleMapReordered = jcs sampleMap := by
    decide
  have htasks : canonicalStepSpec (sampleTask "b") (py "t-1") 1 =
      canonicalStepSpec (sampleTask "a") (py "t-1") 1 := by
    rfl
  have hok : (canonicalStepSpec (sampleTask "a") (py "t-1") 1).toOption.isSome := by
    decide
  constructor
  · obtain ⟨j, hj, hj'⟩ := canonical_bytes_bind.1 _ _ _ hmaps.1 (hmaps.2.trans hmaps.1)
    exact hj.trans hj'.symm
  · obtain ⟨bytes, hbytes⟩ := exists_ok_of_isSome hok
    exact canonical_bytes_bind.2.1 _ _ _ _ _ _ _ hbytes (htasks.trans hbytes)

end SwarmCloud.SpecSign
