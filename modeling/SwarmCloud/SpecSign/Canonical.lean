import SwarmCloud.SpecSign.ReadBack

/-! # The four signed messages

A step spec, a settings block, a plugin record and the platform switches: which
fields of the stored document each takes, what each refuses, and the bytes that
are signed. Every message carries its purpose, so no bytes of one kind are
bytes of another.
-/

namespace SwarmCloud.SpecSign

open Lib

def entry (name : String) (v : PyValue) : PyKey × PyValue := (.str (py name), v)

/-- `{name: doc.get(name) for name in names}` -/
def projected (doc : PyMap) (names : List String) : PyMap :=
  names.map fun name => entry name (doc.get name)

/-! ## Step specs -/

def specFormats : List Int := [1, 2, 3, 4, 5, 6, 7, 8]

def format2Fields : List String := ["parent_task_id", "parent_attempt_id"]
def format3Fields : List String := ["forge_credential", "forge_access"]
def format4Fields : List String := ["additional_repositories"]
def format5Fields : List String := ["model_class"]
def format6Fields : List String := ["budget"]
def format7Fields : List String := ["max_turns"]
def format8MetadataKeys : List String := ["work_contract"]

def integerFields : List String := ["timeout_seconds", "max_attempts", "max_turns"]

def signedMetadataKeys : List String := ["dispatch", "input_from", "expected_outputs", "work_contract"]

def isSome (v : PyValue) : Bool := !v.isNone

/-- A format-4 field is set when it is present, not None and not an empty list. -/
def isSet : PyValue → Bool
  | .none => false
  | .list [] => false
  | _ => true

/-- The metadata as a map; what is no map has no keys. -/
def metadataMap (doc : PyMap) : PyMap :=
  match doc.get "metadata" with
  | .map metadata => metadata
  | _ => []

/-- The format a signer signs `doc` at: the oldest one that covers every field it sets. -/
def signingFormat (doc : PyMap) : Int :=
  if format8MetadataKeys.any fun key => isSome ((metadataMap doc).get key) then 8
  else if format7Fields.any fun key => isSome (doc.get key) then 7
  else if format6Fields.any fun key => isSome (doc.get key) then 6
  else if format5Fields.any fun key => isSome (doc.get key) then 5
  else if format4Fields.any fun key => isSet (doc.get key) then 4
  else if format3Fields.any fun key => isSome (doc.get key) then 3
  else if format2Fields.all fun key => (doc.get key).isNone then 1
  else 2

def requireMetadata (doc : PyMap) : Except SpecNotCanonical PyMap :=
  match doc.get "metadata" with
  | .none => .ok []
  | .map metadata => .ok metadata
  | _ => .error .metadataNotMap

/-- Below `format`, the first of `keys` that `doc` sets is refused: left outside
the signature, it could be added to a signed document. -/
def refuseUncovered (set : PyValue → Bool) (label : String) (doc : PyMap) (keys : List String)
    (specFormat format : Int) : Except SpecNotCanonical Unit :=
  if specFormat < format then
    match keys.find? fun key => set (doc.get key) with
    | some key => .error (.notCovered (label ++ key) specFormat)
    | none => .ok ()
  else .ok ()

def requireIntegers (doc : PyMap) : List String → Except SpecNotCanonical Unit
  | [] => .ok ()
  | key :: keys =>
    match doc.get key with
    | .none => requireIntegers doc keys
    | .int _ => requireIntegers doc keys
    | v => .error (.notInteger key v.typeName)

/-- The fields that every format projects as they are stored. -/
def baseFields : List String :=
  ["tenant_id", "workflow_id", "step_id", "submitted_by", "runner_profile", "resource_class",
    "timeout_seconds", "max_attempts", "provider", "model", "input", "depends_on",
    "repository_url", "repository_ref"]

def addedFields (specFormat : Int) : List String :=
  (if 2 ≤ specFormat then format2Fields else []) ++
  (if 3 ≤ specFormat then format3Fields else []) ++
  (if 4 ≤ specFormat then format4Fields else []) ++
  (if 5 ≤ specFormat then format5Fields else []) ++
  (if 6 ≤ specFormat then format6Fields else []) ++
  (if 7 ≤ specFormat then format7Fields else [])

def metadataKeys (specFormat : Int) : List String :=
  if specFormat < 8 then signedMetadataKeys.filter fun key => key ∉ format8MetadataKeys
  else signedMetadataKeys

def stepSpec (doc metadata : PyMap) (taskId : PyStr) (specFormat : Int) : PyMap :=
  [entry "purpose" (.str (py "swarm.step-spec")), entry "format" (.int specFormat),
    entry "task_id" (.str taskId)] ++
  projected doc baseFields ++
  [entry "metadata" (.map (projected metadata (metadataKeys specFormat)))] ++
  projected doc (addedFields specFormat)

def canonicalStepSpec (doc : PyMap) (taskId : PyStr) (specFormat : Int) :
    Except SpecNotCanonical ByteArray :=
  if specFormat ∉ specFormats then .error (.unknownFormat specFormat)
  else do
    let metadata ← requireMetadata doc
    refuseUncovered isSome "" doc format3Fields specFormat 3
    refuseUncovered isSet "" doc format4Fields specFormat 4
    refuseUncovered isSome "" doc format5Fields specFormat 5
    refuseUncovered isSome "" doc format6Fields specFormat 6
    refuseUncovered isSome "" doc format7Fields specFormat 7
    refuseUncovered isSome "metadata." metadata format8MetadataKeys specFormat 8
    requireIntegers doc integerFields
    jcs (.map (stepSpec doc metadata taskId specFormat))

/-! ## Settings blocks -/

def settingsMacFields : List (String × List String) :=
  [("top", ["judgment_backend"]),
    ("merge", ["mode", "train_size", "max_train_age_minutes"]),
    ("code_intelligence", ["jev", "context", "context_ab", "graph_delivery", "judgment_backend"]),
    ("budget", ["unit", "amount"]),
    ("quality_gates", ["jev"]),
    ("plugins", ["allowed", "defaults", "configs_digest"]),
    ("contract_review", ["enabled"])]

/-- The keys a block gained after MACs over it were stored: left out when null. -/
def settingsAddedFields : List (String × List String) := [("plugins", ["defaults", "configs_digest"])]

def isNonEmptyStr : PyValue → Bool
  | .str (_ :: _) => true
  | _ => false

/-- The string of `names` that `v` is. -/
def oneOf (names : List String) : PyValue → Option String
  | .str s => names.find? fun name => py name = s
  | _ => none

def settingsBlock (tenantId : PyValue) (block : String) (names : List String) (fields : PyMap) : PyMap :=
  let added := (settingsAddedFields.lookup block).getD []
  [entry "purpose" (.str (py "swarm.settings/v1")), entry "tenant_id" tenantId,
    entry "block" (.str (py block)),
    entry "fields" (.map (projected fields
      (names.filter fun key => isSome (fields.get key) || key ∉ added)))]

def canonicalSettingsBlock (tenantId : PyValue) (block : PyStr) (fields : PyValue) :
    Except SpecNotCanonical ByteArray :=
  if !isNonEmptyStr tenantId then .error .blockWithoutTenant
  else match oneOf (settingsMacFields.map Prod.fst) (.str block), fields with
  | none, _ => .error (.unknownBlock block)
  | some known, .map fields =>
    jcs (.map (settingsBlock tenantId known ((settingsMacFields.lookup known).getD []) fields))
  | some _, _ => .error (.blockNotMap block)

/-! ## Plugin records -/

def pluginRecordKinds : List String := ["install", "version", "intake"]

def pluginScopes : List String := ["platform", "workspace"]

def pluginRecordIds : List (String × List String) :=
  [("install", ["install_id"]), ("version", ["install_id", "version_id"]), ("intake", ["intake_id"])]

def pluginRecordUncovered : List String := ["mac", "created_at", "created_by", "updated_at", "updated_by"]

def requireIds (kind : PyStr) (fields : PyMap) : List String → Except SpecNotCanonical Unit
  | [] => .ok ()
  | name :: names =>
    if isNonEmptyStr (fields.get name) then requireIds kind fields names
    else .error (.recordWithoutId kind name)

def pluginRecord (kind : PyStr) (fields : PyMap) : PyMap :=
  let dropped := pluginRecordUncovered ++ ["scope", "tenant_id"]
  [entry "purpose" (.str (py "swarm.plugin-record/v1")), entry "kind" (.str kind),
    entry "scope" (fields.get "scope"), entry "tenant_id" (fields.get "tenant_id"),
    entry "fields" (.map (fields.filter fun m => m.1 ∉ dropped.map fun name => .str (py name)))]

/-- A record of a known kind, whose ids are `ids`. -/
def pluginRecordBytes (kind : PyStr) (ids : List String) (fields : PyMap) :
    Except SpecNotCanonical ByteArray :=
  match oneOf pluginScopes (fields.get "scope") with
  | none => .error (.unknownScope kind)
  | some scope =>
    if scope = "workspace" ∧ !isNonEmptyStr (fields.get "tenant_id") then
      .error (.workspaceWithoutTenant kind)
    else if scope = "platform" ∧ isSome (fields.get "tenant_id") then
      .error (.platformWithTenant kind)
    else do
      requireIds kind fields ids
      jcs (.map (pluginRecord kind fields))

def canonicalPluginRecord (kind : PyStr) (fields : PyValue) : Except SpecNotCanonical ByteArray :=
  match oneOf pluginRecordKinds (.str kind), fields with
  | none, _ => .error (.unknownKind kind)
  | some known, .map fields => pluginRecordBytes kind ((pluginRecordIds.lookup known).getD []) fields
  | some _, _ => .error (.recordNotMap kind)

/-! ## Platform settings -/

def platformSettingsMacFields : List String := ["work_contracts", "contract_review"]

def platformSettings (fields : PyMap) : PyMap :=
  [entry "purpose" (.str (py "swarm.platform-settings/v1")),
    entry "fields" (.map (projected fields platformSettingsMacFields))]

def canonicalPlatformSettings : PyValue → Except SpecNotCanonical ByteArray
  | .map fields => jcs (.map (platformSettings fields))
  | _ => .error .platformSettingsNotMap

end SwarmCloud.SpecSign
