import SwarmCloud.AttemptState.Delivery
import SwarmCloud.Lib.Results
import SwarmCloud.Lib.Runs

/-! # The record of one attempt

The scheduler creates an attempt's document, pins the size of its pod on it and
names its execution; the worker's calls start it, add checkpoints and figures, and
end it. All of them merge their fields into the document, except the creation and
the start, which replace it: a start drops what the document held before.
-/

namespace SwarmCloud.AttemptState

open Common Lib

/-! ## Merges

`set(…, merge=True)`: a field of the write replaces the stored one, and a map that
is not empty is merged member by member. -/

mutual

def mergeValue (old : Option Value) : Value → Value
  | .map (member :: members) => .map (mergeFields (Value.mapping old) (member :: members))
  | value => value

def mergeFields (old : Fields) : List (String × Value) → Fields
  | [] => old
  | (key, value) :: later => mergeFields (old.set key (mergeValue (old.lookup key) value)) later

end

@[simp]
theorem mergeFields_nil (old : Fields) : mergeFields old [] = old := by rw [mergeFields]

theorem mergeFields_cons (old : Fields) (key : String) (value : Value) (later : List (String × Value)) :
    mergeFields old ((key, value) :: later) =
      mergeFields (old.set key (mergeValue (old.lookup key) value)) later := by
  rw [mergeFields]

theorem mergeValue_map (old : Option Value) (members : List (String × Value)) :
    mergeValue old (.map members) =
      if members.isEmpty then .map [] else .map (mergeFields (Value.mapping old) members) := by
  cases members with
  | nil =>
    rw [mergeValue]
    · rfl
    · rintro _ _ ⟨⟩
  | cons member members => rw [mergeValue, List.isEmpty_cons, if_neg Bool.false_ne_true]

/-- A value that is no map replaces the stored one. -/
theorem mergeValue_of_not_map {value : Value} (h : ∀ members, value ≠ .map members) (old : Option Value) :
    mergeValue old value = value := by
  cases value with
  | map members => exact absurd rfl (h members)
  | _ => rw [mergeValue]; rintro _ _ ⟨⟩

@[simp]
theorem mergeValue_str (old : Option Value) (text : String) : mergeValue old (.str text) = .str text :=
  mergeValue_of_not_map (by rintro _ ⟨⟩) old

@[simp]
theorem mergeValue_list (old : Option Value) (items : List Value) : mergeValue old (.list items) = .list items :=
  mergeValue_of_not_map (by rintro _ ⟨⟩) old

@[simp]
theorem mergeValue_instant (old : Option Value) (moment : Instant) :
    mergeValue old (.instant moment) = .instant moment :=
  mergeValue_of_not_map (by rintro _ ⟨⟩) old

theorem lookup_mergeFields_of_notMem {key : String} {later : List (String × Value)}
    (h : key ∉ later.map Prod.fst) (old : Fields) : (mergeFields old later).lookup key = old.lookup key := by
  induction later generalizing old with
  | nil => rw [mergeFields_nil]
  | cons item later ih =>
    obtain ⟨name, value⟩ := item
    rw [List.map_cons, List.mem_cons, not_or] at h
    rw [mergeFields_cons, ih h.2, Dict.lookup_set, if_neg h.1]

theorem nodup_mergeFields {old : Fields} (h : (old.map Prod.fst).Nodup) (later : List (String × Value)) :
    ((mergeFields old later).map Prod.fst).Nodup := by
  induction later generalizing old with
  | nil => rwa [mergeFields_nil]
  | cons item later ih =>
    obtain ⟨name, value⟩ := item
    rw [mergeFields_cons]
    exact ih (Dict.nodup_set h name _)

/-- A merge of texts under distinct names overrides name by name. -/
theorem lookup_mergeFields_texts {texts : Dict String String} (h : (texts.map Prod.fst).Nodup) (old : Fields)
    (key : String) :
    (mergeFields old (texts.map fun item => (item.1, .str item.2))).lookup key =
      ((texts.lookup key).map Value.str).or (old.lookup key) := by
  induction texts generalizing old with
  | nil => simp
  | cons item texts ih =>
    obtain ⟨name, text⟩ := item
    rw [List.map_cons, List.nodup_cons] at h
    rw [List.map_cons, mergeFields_cons, mergeValue_str, ih h.2, Dict.lookup_set, List.lookup_cons]
    by_cases hkey : key = name
    · have hnone : texts.lookup name = none := Dict.lookup_of_notMem h.1
      simp [hkey, hnone]
    · simp [hkey, beq_false_of_ne hkey]

/-! ## The scheduler's writes -/

structure LiveShare where
  cpuRequest : Float
  cpuLimit : Float
  memoryGib : Float

/-- `sizes.Sized`: the size that admission charged. -/
structure Sized where
  version : Int
  cpuRequest : Float
  cpuLimit : Float
  memoryGib : Int
  diskGib : Int
  liveSplit : Option (LiveShare × LiveShare) := none

def LiveShare.fields (share : LiveShare) : Value :=
  .map [("cpu_request", .float share.cpuRequest), ("cpu_limit", .float share.cpuLimit),
    ("memory_gib", .float share.memoryGib)]

def Sized.attemptFields (sized : Sized) : Fields :=
  [("size_version", .int sized.version), ("sized_cpu_request", .float sized.cpuRequest),
    ("sized_cpu_limit", .float sized.cpuLimit), ("sized_memory_gib", .int sized.memoryGib),
    ("sized_disk_gib", .int sized.diskGib),
    ("sized_live_split", match sized.liveSplit with
      | none => .null
      | some (worker, display) => .map [("worker", worker.fields), ("display", display.fields)])]

/-- The fields that `pin_attempt_size` writes. -/
def sizedFields : List String :=
  ["size_version", "sized_cpu_request", "sized_cpu_limit", "sized_memory_gib", "sized_disk_gib", "sized_live_split"]

def createAttempt (a : AttemptTuple) (backend : String) (now : Instant) : Fields :=
  [("attempt_id", .str a.attemptId), ("task_id", .str a.taskId), ("tenant_id", .str a.tenantId),
    ("generation", .int a.generation), ("lease_id", .str a.leaseId), ("backend", .str backend),
    ("created_at", .instant now), ("execution_name", .null), ("started_at", .null), ("completed_at", .null),
    ("exit_code", .null), ("error", .null), ("checkpoints", .list []), ("oom_near_miss", .bool false)]

def pinAttemptSize (sized : Sized) (doc : Option Fields) : Fields := mergeFields (doc.getD []) sized.attemptFields

/-- What `mark_dispatched` writes of an attempt that exists. -/
def markDispatched (executionName : String) (doc : Option Fields) : Option Fields :=
  doc.map fun doc => doc.set "execution_name" (.str executionName)

/-! ## The worker's calls -/

def startRecord (a : AttemptTuple) (backend : String) (executionName : Option String) (now : Instant) : Fields :=
  [("attempt_id", .str a.attemptId), ("task_id", .str a.taskId), ("tenant_id", .str a.tenantId),
    ("generation", .int a.generation), ("lease_id", .str a.leaseId), ("backend", .str backend),
    ("created_at", .instant now), ("execution_name", Value.ofString executionName), ("started_at", .instant now),
    ("completed_at", .null), ("exit_code", .null), ("error", .null), ("peak_rss_bytes", .null),
    ("peak_disk_bytes", .null), ("oom_near_miss", .bool false), ("checkpoints", .list [])]

def leaseIsThisTuples (lease : Option Admission.LeaseDoc) (a : AttemptTuple) : Bool :=
  lease.any fun lease => lease.tenantId = a.tenantId && lease.taskId = a.taskId && lease.attemptId = a.attemptId &&
    lease.generation = a.generation

/-- A stored field that is absent, null or the value given. -/
def Value.agrees (field : Option Value) (same : Value → Bool) : Bool :=
  match field with
  | none | some .null => true
  | some value => same value

def namesAttempt (a : AttemptTuple) (doc : Fields) : Bool :=
  (match doc.lookup "tenant_id" with | some (.str tenant) => tenant = a.tenantId | _ => false) &&
    Value.agrees (doc.lookup "task_id") (fun | .str id => id = a.taskId | _ => false) &&
    Value.agrees (doc.lookup "generation") (fun | .int n => n = a.generation | _ => false)

/-- `_attempt_doc_ok`: the document, if it names this attempt. -/
def attemptDocOk (a : AttemptTuple) (lease : Option Admission.LeaseDoc) (doc : Option Fields) :
    Except Refusal (Option Fields) :=
  match doc with
  | none =>
    if leaseIsThisTuples lease a then .ok none
    else .error (.attemptFenced "this attempt's lease is not this tuple's")
  | some doc =>
    if namesAttempt a doc then .ok (some doc)
    else .error (.attemptFenced "this attempt's document names another attempt")

/-- `_DIGEST`. -/
def isDigest (text : String) : Bool :=
  text.length = 64 && text.toList.all fun c => c.isDigit || ('a' ≤ c && c ≤ 'f')

def isBucketChar (c : Char) : Bool := c.isDigit || c.isLower || c = '.' || c = '_' || c = '-'

/-- `gs://`, a bucket, and the task's own prefix. A bucket has no slash, so it ends at the first one. -/
def underTaskPrefix (a : AttemptTuple) (uri : String) : Bool :=
  let path := uri.toList.drop 5
  let bucket := path.takeWhile (· ≠ '/')
  let alnum := fun c : Char => c.isDigit || c.isLower
  3 ≤ bucket.length && bucket.length ≤ 223 && bucket.all isBucketChar && bucket.head?.all alnum &&
    bucket.getLast?.all alnum &&
    ("/tenants/" ++ a.tenantId ++ "/tasks/" ++ a.taskId ++ "/").toList.isPrefixOf (path.drop bucket.length)

/-- What a checkpoint call is refused for before its transaction. -/
def checkpointProblem (a : AttemptTuple) (uri archiveSha256 : String) : Option String :=
  if !isDigest archiveSha256 then some "archive_sha256 must be a SHA-256 hex digest (#346)"
  else if "gs://".toList.isPrefixOf uri.toList then
    if underTaskPrefix a uri then none else some "uri must be under this task's own prefix"
  else if "file:///".toList.isPrefixOf uri.toList then none
  else some "uri must be a gs:// or file:/// URI"

section Reads

variable (doc : Option Fields)

def field (key : String) : Option Value := (doc.getD []).lookup key

/-- The ids of `checkpoints`; what is no text among them is dropped. -/
def checkpointIds : List String :=
  match field doc "checkpoints" with
  | some (.list items) => items.filterMap fun item => Value.asString (some item)
  | _ => []

def storedDigests : Fields := Value.mapping (field doc "checkpoint_sha256")

def digests : Dict String String :=
  (storedDigests doc).filterMap fun item => (Value.asString (some item.2)).map (item.1, ·)

def digestOf (id : String) : Option String := Value.asString ((storedDigests doc).lookup id)

/-- `completed_at` where it is set. -/
def endedAt : Option Value :=
  match field doc "completed_at" with
  | none | some .null => none
  | some value => some value

end Reads

def checkpointFields (a : AttemptTuple) (checkpointId archiveSha256 : String) (doc : Option Fields) : Fields :=
  let existing := checkpointIds doc
  let existing := if checkpointId ∈ existing then existing else existing ++ [checkpointId]
  let digests := (digests doc).set checkpointId archiveSha256
  [("checkpoints", .list (existing.map .str)),
    ("checkpoint_sha256", .map (digests.map fun item => (item.1, .str item.2))),
    ("tenant_id", .str a.tenantId), ("task_id", .str a.taskId), ("attempt_id", .str a.attemptId)]

inductive UsageKind
  | resource
  | cpu
  | spend
deriving DecidableEq, Repr

namespace UsageKind

def value : UsageKind → String
  | .resource => "resource"
  | .cpu => "cpu"
  | .spend => "spend"

/-- `USAGE_FIELDS`. -/
def fields : UsageKind → List String
  | .resource => ["peak_rss_bytes", "peak_disk_bytes", "oom_near_miss"]
  | .cpu => ["cpu_seconds", "peak_cpu_cores", "mean_cpu_cores", "cpu_limit_cores", "cpu_limit_source"]
  | .spend => ["input_tokens", "output_tokens", "cache_read_input_tokens", "cache_creation_input_tokens", "cost_usd"]

end UsageKind

def cpuLimitSources : List String := ["cgroup", "resource_class"]

def floatFields : List String := ["cost_usd", "cpu_seconds", "peak_cpu_cores", "mean_cpu_cores", "cpu_limit_cores"]

def usageValue (key : String) (value : Value) : Except Refusal Value :=
  if key = "oom_near_miss" then
    match value with
    | .bool _ => .ok value
    | _ => .error (.validationFailed "oom_near_miss must be a boolean")
  else if key = "cpu_limit_source" then
    match value with
    | .str source =>
      if source ∈ cpuLimitSources then .ok value
      else .error (.validationFailed "cpu_limit_source must be cgroup or resource_class")
    | _ => .error (.validationFailed "cpu_limit_source must be cgroup or resource_class")
  else if key ∈ floatFields then
    match value with
    | .int n =>
      if n < 0 then .error (.validationFailed (key ++ " must be a non-negative number")) else .ok (.float (Float.ofInt n))
    | .float x => if x < 0 then .error (.validationFailed (key ++ " must be a non-negative number")) else .ok value
    | _ => .error (.validationFailed (key ++ " must be a non-negative number"))
  else
    match value with
    | .int n => if n < 0 then .error (.validationFailed (key ++ " must be a non-negative integer")) else .ok value
    | _ => .error (.validationFailed (key ++ " must be a non-negative integer"))

/-- The checked figures, in the order of the request. -/
def usageValues : List (String × Value) → Except Refusal Fields
  | [] => .ok []
  | (key, value) :: items => do
    let value ← usageValue key value
    let rest ← usageValues items
    return (key, value) :: rest

def usageFields (a : AttemptTuple) (kind : UsageKind) (fields : Fields) (now : Instant) : Except Refusal Fields :=
  if fields.any fun item => item.1 ∉ kind.fields then
    .error (.validationFailed (kind.value ++ " usage takes only " ++ ", ".intercalate kind.fields))
  else match usageValues fields with
    | .error refusal => .error refusal
    | .ok doc =>
      let names := doc.map Prod.fst
      if kind = .cpu ∧ "cpu_limit_source" ∈ names ∧ "cpu_limit_cores" ∉ names then
        .error (.validationFailed "cpu_limit_source is written only beside cpu_limit_cores")
      else if kind = .cpu ∧ (names.all fun name => name ∈ ["cpu_limit_cores", "cpu_limit_source"]) then
        .error (.validationFailed "cpu usage needs a measured figure, not a limit alone")
      else
        let doc := if kind = .cpu then doc.set "cpu_measured_at" (.instant now) else doc
        if doc.isEmpty then .error (.validationFailed "fields is empty")
        else .ok (doc.set "tenant_id" (.str a.tenantId))

def endFields (a : AttemptTuple) (now : Instant) (exitCode : Option Int) (error : Option String) : Fields :=
  [("completed_at", .instant now), ("exit_code", Value.ofInt exitCode), ("error", Value.ofString error),
    ("tenant_id", .str a.tenantId)]

inductive Call
  | attemptStart (backend : String) (executionName : Option String)
  | checkpoint (checkpointId uri archiveSha256 : String)
  | usage (kind : UsageKind) (fields : Fields)
  | attemptEnd (exitCode : Option Int) (error : Option String)
  | park (error : String)
  | finish (exitCode : Option Int) (error : Option String)
  | retry (exitCode : Option Int) (error : Option String)

/-- The document that a call leaves, over the task and the lease that its transaction reads. Of a park, a
finish and a retry this is the end that they merge behind the fence; `Routes` has what else they check. -/
def Call.writes (s : Store) (a : AttemptTuple) (now : Instant) (doc : Option Fields) : Call → Except Refusal Fields
  | .attemptStart backend executionName => do
    let _ ← s.fenced a
    return startRecord a backend executionName now
  | .checkpoint checkpointId uri archiveSha256 =>
    match checkpointProblem a uri archiveSha256 with
    | some problem => .error (.validationFailed problem)
    | none => do
      let _ ← s.fenced a
      let found ← attemptDocOk a (s.leases.lookup a.leaseId) doc
      return mergeFields (doc.getD []) (checkpointFields a checkpointId archiveSha256 found)
  | .usage kind fields => do
    let fields ← usageFields a kind fields now
    let _ ← attemptDocOk a (s.leases.lookup a.leaseId) doc
    return mergeFields (doc.getD []) fields
  | .attemptEnd exitCode error => do
    let _ ← attemptDocOk a (s.leases.lookup a.leaseId) doc
    return mergeFields (doc.getD []) (endFields a now exitCode error)
  | .park error => do
    let _ ← s.fenced a
    return mergeFields (doc.getD []) (endFields a now (some 75) (some error))
  | .finish exitCode error => do
    let _ ← s.fenced a
    return mergeFields (doc.getD []) (endFields a now exitCode error)
  | .retry exitCode error => do
    let _ ← s.fenced a
    return mergeFields (doc.getD []) (endFields a now exitCode error)

/-! ## Runs

The scheduler's three writes come once each and in their order; the worker's calls
come at any point, any number of times, over any task and lease. -/

inductive Stage
  | fresh
  | created
  | pinned
  | dispatched
deriving DecidableEq, Repr

structure Recorded where
  stage : Stage
  doc : Option Fields

inductive Write
  | create (a : AttemptTuple) (backend : String) (now : Instant)
  | pin (sized : Sized)
  | dispatched (executionName : String)
  | call (s : Store) (a : AttemptTuple) (now : Instant) (call : Call)

inductive Recorded.Step : Recorded → Write → Recorded → Prop
  | create (doc : Option Fields) (a : AttemptTuple) (backend : String) (now : Instant) :
      Step ⟨.fresh, doc⟩ (.create a backend now) ⟨.created, some (createAttempt a backend now)⟩
  | pin (doc : Option Fields) (sized : Sized) :
      Step ⟨.created, doc⟩ (.pin sized) ⟨.pinned, some (pinAttemptSize sized doc)⟩
  | dispatched (doc : Option Fields) (executionName : String) :
      Step ⟨.pinned, doc⟩ (.dispatched executionName) ⟨.dispatched, markDispatched executionName doc⟩
  | committed (stage : Stage) (doc : Option Fields) (s : Store) (a : AttemptTuple) (now : Instant) (call : Call)
      (doc' : Fields) (h : call.writes s a now doc = .ok doc') : Step ⟨stage, doc⟩ (.call s a now call) ⟨stage, some doc'⟩
  | refused (stage : Stage) (doc : Option Fields) (s : Store) (a : AttemptTuple) (now : Instant) (call : Call)
      (refusal : Refusal) (h : call.writes s a now doc = .error refusal) :
      Step ⟨stage, doc⟩ (.call s a now call) ⟨stage, doc⟩

/-- What a later state of the record has of an earlier one. -/
structure Keeps (doc doc' : Option Fields) : Prop where
  sized : ∀ key ∈ sizedFields, ∀ value, field doc key = some value → field doc' key = some value
  checkpoints : ∀ id ∈ checkpointIds doc, id ∈ checkpointIds doc'
  digests : ∀ id digest, digestOf doc id = some digest → digestOf doc' id = some digest
  ended : (endedAt doc).isSome → (endedAt doc').isSome

/-- A record that loses nothing when it is replaced. -/
structure Blank (doc : Option Fields) : Prop where
  sized : ∀ key ∈ sizedFields, field doc key = none
  checkpoints : checkpointIds doc = []
  digests : ∀ id, digestOf doc id = none
  ended : endedAt doc = none

/-- When a write only adds: a creation and a start that passes its fence find a blank record, and an
accepted checkpoint that is recorded already has the digest it was recorded with. -/
def Adds (doc : Option Fields) : Write → Prop
  | .create _ _ _ => Blank doc
  | .call s a _ (.attemptStart _ _) => (∃ task, s.fenced a = .ok task) → Blank doc
  | .call s a _ (.checkpoint checkpointId uri archiveSha256) =>
    checkpointProblem a uri archiveSha256 = none → (∃ task, s.fenced a = .ok task) →
      (∃ found, attemptDocOk a (s.leases.lookup a.leaseId) doc = .ok found) →
        ∀ digest, digestOf doc checkpointId = some digest → digest = archiveSha256
  | _ => True

theorem Keeps.refl (doc : Option Fields) : Keeps doc doc :=
  ⟨fun _ _ _ h => h, fun _ h => h, fun _ _ h => h, fun h => h⟩

theorem Keeps.trans {doc doc' doc'' : Option Fields} (h : Keeps doc doc') (h' : Keeps doc' doc'') : Keeps doc doc'' where
  sized key hkey value hvalue := h'.sized key hkey value (h.sized key hkey value hvalue)
  checkpoints id hid := h'.checkpoints id (h.checkpoints id hid)
  digests id digest hdigest := h'.digests id digest (h.digests id digest hdigest)
  ended hended := h'.ended (h.ended hended)

/-- The fields that a merge may not touch. -/
def keptFields : List String := sizedFields ++ ["checkpoints", "checkpoint_sha256", "completed_at"]

theorem keeps_of_field_eq {doc doc' : Option Fields} (h : ∀ key ∈ keptFields, field doc' key = field doc key) :
    Keeps doc doc' where
  sized key hkey value hvalue := by
    rw [h key (List.mem_append_left _ hkey)]
    exact hvalue
  checkpoints id hid := by
    rw [checkpointIds, h "checkpoints" (by decide)]
    exact hid
  digests id digest hdigest := by
    rw [digestOf, storedDigests, h "checkpoint_sha256" (by decide)]
    exact hdigest
  ended hended := by
    rw [endedAt, h "completed_at" (by decide)]
    exact hended

theorem field_mergeFields {key : String} {later : Fields} (h : key ∉ later.map Prod.fst) (doc : Option Fields) :
    field (some (mergeFields (doc.getD []) later)) key = field doc key :=
  lookup_mergeFields_of_notMem h _

/-- A replacement keeps what it must exactly when there was nothing to keep. -/
theorem keeps_replaced_iff {doc : Option Fields} {record : Fields}
    (hsized : ∀ key ∈ sizedFields, record.lookup key = none) (hids : checkpointIds (some record) = [])
    (hdigests : record.lookup "checkpoint_sha256" = none) (hended : endedAt (some record) = none) :
    Keeps doc (some record) ↔ Blank doc := by
  have hnone : ∀ id, digestOf (some record) id = none := by
    intro id
    simp [digestOf, storedDigests, field, hdigests, Value.mapping, Value.asString]
  constructor
  · intro hkeeps
    constructor
    · intro key hkey
      by_contra hsome
      obtain ⟨value, hvalue⟩ := Option.ne_none_iff_exists'.mp hsome
      have hlost : record.lookup key = some value := hkeeps.sized key hkey value hvalue
      rw [hsized key hkey] at hlost
      cases hlost
    · rw [List.eq_nil_iff_forall_not_mem]
      intro id hid
      have hlost := hkeeps.checkpoints id hid
      rw [hids] at hlost
      cases hlost
    · intro id
      by_contra hsome
      obtain ⟨digest, hdigest⟩ := Option.ne_none_iff_exists'.mp hsome
      have hlost := hkeeps.digests id digest hdigest
      rw [hnone id] at hlost
      cases hlost
    · by_contra hsome
      have hlost := hkeeps.ended (Option.isSome_iff_ne_none.mpr hsome)
      rw [hended] at hlost
      cases hlost
  · intro hblank
    constructor
    · intro key hkey value hvalue
      rw [hblank.sized key hkey] at hvalue
      cases hvalue
    · intro id hid
      rw [hblank.checkpoints] at hid
      cases hid
    · intro id digest hdigest
      rw [hblank.digests id] at hdigest
      cases hdigest
    · intro hsome
      rw [hblank.ended] at hsome
      cases hsome

theorem startRecord_names : ∀ key ∈ sizedFields, key ∉ ["attempt_id", "task_id", "tenant_id", "generation", "lease_id",
    "backend", "created_at", "execution_name", "started_at", "completed_at", "exit_code", "error", "peak_rss_bytes",
    "peak_disk_bytes", "oom_near_miss", "checkpoints"] := by decide

theorem createAttempt_names : ∀ key ∈ sizedFields, key ∉ ["attempt_id", "task_id", "tenant_id", "generation",
    "lease_id", "backend", "created_at", "execution_name", "started_at", "completed_at", "exit_code", "error",
    "checkpoints", "oom_near_miss"] := by decide

theorem startRecord_keeps_iff (a : AttemptTuple) (backend : String) (executionName : Option String) (now : Instant)
    (doc : Option Fields) : Keeps doc (some (startRecord a backend executionName now)) ↔ Blank doc := by
  exact keeps_replaced_iff (fun key hkey => Dict.lookup_of_notMem (startRecord_names key hkey)) rfl rfl rfl

theorem createAttempt_keeps_iff (a : AttemptTuple) (backend : String) (now : Instant) (doc : Option Fields) :
    Keeps doc (some (createAttempt a backend now)) ↔ Blank doc := by
  exact keeps_replaced_iff (fun key hkey => Dict.lookup_of_notMem (createAttempt_names key hkey)) rfl rfl rfl

/-! ## What each merge keeps -/

theorem endFields_keeps (a : AttemptTuple) (now : Instant) (exitCode : Option Int) (error : Option String)
    (doc : Option Fields) : Keeps doc (some (mergeFields (doc.getD []) (endFields a now exitCode error))) := by
  have hsame : ∀ key ∈ keptFields, key ≠ "completed_at" →
      field (some (mergeFields (doc.getD []) (endFields a now exitCode error))) key = field doc key := by
    have hnames : ∀ key ∈ keptFields, key ≠ "completed_at" →
        key ∉ ["completed_at", "exit_code", "error", "tenant_id"] := by decide
    intro key hkey hother
    exact field_mergeFields (hnames key hkey hother) doc
  have hended : endedAt (some (mergeFields (doc.getD []) (endFields a now exitCode error))) = some (.instant now) := by
    simp [endedAt, field, endFields, mergeFields_cons, Dict.lookup_set]
  constructor
  · intro key hkey value hvalue
    rwa [hsame key (List.mem_append_left _ hkey) (by rintro rfl; revert hkey; decide)]
  · intro id hid
    rwa [checkpointIds, hsame "checkpoints" (by decide) (by decide)]
  · intro id digest hdigest
    rwa [digestOf, storedDigests, hsame "checkpoint_sha256" (by decide) (by decide)]
  · intro _
    rw [hended]
    rfl

theorem usageValues_keys {items : List (String × Value)} {doc : Fields} (h : usageValues items = .ok doc) :
    doc.map Prod.fst = items.map Prod.fst := by
  induction items generalizing doc with
  | nil =>
    obtain rfl := Except.ok.inj h
    rfl
  | cons item items ih =>
    obtain ⟨key, value⟩ := item
    rw [usageValues] at h
    cases hvalue : usageValue key value with
    | error refusal =>
      rw [hvalue] at h
      cases h
    | ok value =>
      cases hrest : usageValues items with
      | error refusal =>
        rw [hvalue, hrest] at h
        cases h
      | ok rest =>
        rw [hvalue, hrest] at h
        obtain rfl := Except.ok.inj h
        rw [List.map_cons, List.map_cons, ih hrest]

/-- A call of `usage` writes its own figures, the instant of a CPU figure and the tenant. -/
theorem usageFields_keys {a : AttemptTuple} {kind : UsageKind} {fields doc : Fields} {now : Instant}
    (h : usageFields a kind fields now = .ok doc) :
    ∀ key ∈ doc.map Prod.fst, key ∈ kind.fields ∨ key = "cpu_measured_at" ∨ key = "tenant_id" := by
  rw [usageFields] at h
  split at h
  · cases h
  rename_i hknown
  split at h
  · cases h
  rename_i values hvalues
  have hallowed : ∀ key ∈ values.map Prod.fst, key ∈ kind.fields := by
    intro key hkey
    rw [usageValues_keys hvalues] at hkey
    obtain ⟨item, hitem, rfl⟩ := List.mem_map.mp hkey
    by_contra hother
    exact hknown (List.any_eq_true.mpr ⟨item, hitem, decide_eq_true hother⟩)
  dsimp only at h
  split at h
  · cases h
  split at h
  · cases h
  have hmeasured : ∀ key ∈ (if kind = .cpu then values.set "cpu_measured_at" (.instant now) else values).map Prod.fst,
      key ∈ kind.fields ∨ key = "cpu_measured_at" := by
    intro key hkey
    split at hkey
    · rcases Dict.mem_keys_set hkey with rfl | hkey
      · exact .inr rfl
      · exact .inl (hallowed key hkey)
    · exact .inl (hallowed key hkey)
  generalize (if kind = .cpu then values.set "cpu_measured_at" (.instant now) else values) = measured at h hmeasured
  split at h
  · cases h
  obtain rfl := Except.ok.inj h
  intro key hkey
  rcases Dict.mem_keys_set hkey with rfl | hkey
  · exact .inr (.inr rfl)
  · rcases hmeasured key hkey with h | h
    · exact .inl h
    · exact .inr (.inl h)

theorem usageFields_keeps {a : AttemptTuple} {kind : UsageKind} {fields later : Fields} {now : Instant}
    (h : usageFields a kind fields now = .ok later) (doc : Option Fields) :
    Keeps doc (some (mergeFields (doc.getD []) later)) := by
  have hnames : ∀ kind : UsageKind, ∀ key ∈ keptFields, key ∉ kind.fields ∧ key ≠ "cpu_measured_at" ∧
      key ≠ "tenant_id" := by
    rintro (_ | _ | _) <;> decide
  refine keeps_of_field_eq fun key hkey => field_mergeFields ?_ doc
  intro hmem
  obtain ⟨hfields, hmeasured, htenant⟩ := hnames kind key hkey
  rcases usageFields_keys h key hmem with h | h | h
  · exact hfields h
  · exact hmeasured h
  · exact htenant h

theorem markDispatched_keeps (executionName : String) (doc : Option Fields) :
    Keeps doc (markDispatched executionName doc) := by
  cases doc with
  | none => exact Keeps.refl none
  | some doc =>
    have hnames : "execution_name" ∉ keptFields := by decide
    refine keeps_of_field_eq fun key hkey => ?_
    refine (Dict.lookup_set _ _ _ _).trans (if_neg ?_)
    rintro rfl
    exact hnames hkey

theorem pinAttemptSize_keeps (sized : Sized) {doc : Option Fields} (h : ∀ key ∈ sizedFields, field doc key = none) :
    Keeps doc (some (pinAttemptSize sized doc)) := by
  have hsame : ∀ key ∈ ["checkpoints", "checkpoint_sha256", "completed_at"],
      field (some (pinAttemptSize sized doc)) key = field doc key := by
    have hnames : ∀ key ∈ ["checkpoints", "checkpoint_sha256", "completed_at"], key ∉ sizedFields := by decide
    exact fun key hkey => field_mergeFields (hnames key hkey) doc
  constructor
  · intro key hkey value hvalue
    rw [h key hkey] at hvalue
    cases hvalue
  · intro id hid
    rwa [checkpointIds, hsame "checkpoints" (by decide)]
  · intro id digest hdigest
    rwa [digestOf, storedDigests, hsame "checkpoint_sha256" (by decide)]
  · intro hended
    rwa [endedAt, hsame "completed_at" (by decide)]

/-! ## Checkpoints -/

theorem attemptDocOk_eq {a : AttemptTuple} {lease : Option Admission.LeaseDoc} {doc found : Option Fields}
    (h : attemptDocOk a lease doc = .ok found) : found = doc := by
  unfold attemptDocOk at h
  split at h
  · split at h
    · exact (Except.ok.inj h).symm
    · cases h
  · split at h
    · exact (Except.ok.inj h).symm
    · cases h

/-- The recorded digests have distinct ids. -/
def DistinctIds (doc : Option Fields) : Prop := ((storedDigests doc).map Prod.fst).Nodup

theorem lookup_digests {doc : Option Fields} (h : DistinctIds doc) (id : String) :
    (digests doc).lookup id = digestOf doc id := by
  unfold DistinctIds at h
  unfold digests digestOf
  generalize storedDigests doc = stored at h
  induction stored with
  | nil => rfl
  | cons item stored ih =>
    obtain ⟨name, value⟩ := item
    rw [List.map_cons, List.nodup_cons] at h
    have hstored := ih h.2
    by_cases hid : id = name
    · subst hid
      rw [List.lookup_cons_self]
      cases htext : Value.asString (some value) with
      | none =>
        have hnone : stored.lookup id = none := Dict.lookup_of_notMem h.1
        rw [List.filterMap_cons_none (by rw [htext]; rfl), hstored, hnone]
        rfl
      | some text => rw [List.filterMap_cons_some (by rw [htext]; rfl), List.lookup_cons_self]
    · rw [List.lookup_cons, beq_false_of_ne hid]
      cases htext : Value.asString (some value) with
      | none => rwa [List.filterMap_cons_none (by rw [htext]; rfl)]
      | some text => rwa [List.filterMap_cons_some (by rw [htext]; rfl), List.lookup_cons, beq_false_of_ne hid]

theorem keys_digests {doc : Option Fields} (h : DistinctIds doc) : ((digests doc).map Prod.fst).Nodup := by
  refine List.Nodup.sublist ?_ h
  unfold digests
  induction storedDigests doc with
  | nil => exact List.Sublist.slnil
  | cons item stored ih =>
    obtain ⟨name, value⟩ := item
    cases value with
    | str text => simpa [Value.asString] using ih
    | _ => simpa [Value.asString] using ih.cons name

section Checkpoint

variable (a : AttemptTuple) (checkpointId archiveSha256 : String) {doc : Option Fields}

/-- The document after a checkpoint that was found as `doc`. -/
theorem checkpointed_field {key : String} (hids : key ≠ "checkpoints") (hdigests : key ≠ "checkpoint_sha256")
    (hkept : key ∈ keptFields) :
    field (some (mergeFields (doc.getD []) (checkpointFields a checkpointId archiveSha256 doc))) key = field doc key := by
  have hnames : ∀ key ∈ keptFields, key ≠ "checkpoints" → key ≠ "checkpoint_sha256" →
      key ∉ ["checkpoints", "checkpoint_sha256", "tenant_id", "task_id", "attempt_id"] := by decide
  exact field_mergeFields (hnames key hkept hids hdigests) doc

theorem checkpointed_ids :
    checkpointIds (some (mergeFields (doc.getD []) (checkpointFields a checkpointId archiveSha256 doc))) =
      if checkpointId ∈ checkpointIds doc then checkpointIds doc else checkpointIds doc ++ [checkpointId] := by
  have htexts : ∀ ids : List String,
      (ids.map Value.str).filterMap (fun item => Value.asString (some item)) = ids := by
    intro ids
    induction ids with
    | nil => rfl
    | cons id ids ih => simp [Value.asString]
  rw [checkpointIds, field, Option.getD_some, checkpointFields]
  simp only [mergeFields_cons, mergeFields_nil, mergeValue_list, mergeValue_str, Dict.lookup_set]
  exact htexts _

theorem checkpointed_digests :
    storedDigests (some (mergeFields (doc.getD []) (checkpointFields a checkpointId archiveSha256 doc))) =
      mergeFields (storedDigests doc)
        (((digests doc).set checkpointId archiveSha256).map fun item => (item.1, .str item.2)) := by
  have hsome : (((digests doc).set checkpointId archiveSha256).map fun item => (item.1, Value.str item.2)).isEmpty =
      false := by
    cases digests doc with
    | nil => rfl
    | cons item items =>
      rw [Dict.set]
      split <;> rfl
  rw [storedDigests, field, Option.getD_some, checkpointFields]
  simp only [mergeFields_cons, mergeFields_nil, mergeValue_str, mergeValue_list, mergeValue_map, hsome,
    Dict.lookup_set]
  rfl

theorem checkpointed_digestOf (h : DistinctIds doc) (id : String) :
    digestOf (some (mergeFields (doc.getD []) (checkpointFields a checkpointId archiveSha256 doc))) id =
      if id = checkpointId then some archiveSha256 else digestOf doc id := by
  rw [digestOf, checkpointed_digests,
    lookup_mergeFields_texts (Dict.nodup_set (keys_digests h) _ _), Dict.lookup_set, lookup_digests h]
  by_cases hid : id = checkpointId
  · simp [hid, Value.asString]
  · rw [if_neg hid]
    unfold digestOf
    cases hstored : (storedDigests doc).lookup id with
    | none => rfl
    | some value => cases value <;> rfl

/-- A checkpoint keeps the record exactly when it does not record another digest for its id. -/
theorem checkpointed_keeps_iff (h : DistinctIds doc) :
    Keeps doc (some (mergeFields (doc.getD []) (checkpointFields a checkpointId archiveSha256 doc))) ↔
      ∀ digest, digestOf doc checkpointId = some digest → digest = archiveSha256 := by
  constructor
  · intro hkeeps digest hdigest
    have hkept := hkeeps.digests checkpointId digest hdigest
    rw [checkpointed_digestOf a checkpointId archiveSha256 h, if_pos rfl] at hkept
    exact (Option.some.inj hkept).symm
  · intro hsame
    constructor
    · intro key hkey value hvalue
      have hnames : ∀ key ∈ sizedFields, key ≠ "checkpoints" ∧ key ≠ "checkpoint_sha256" := by decide
      rwa [checkpointed_field a checkpointId archiveSha256 (hnames key hkey).1 (hnames key hkey).2
        (List.mem_append_left _ hkey)]
    · intro id hid
      rw [checkpointed_ids]
      split
      · exact hid
      · exact List.mem_append_left _ hid
    · intro id digest hdigest
      rw [checkpointed_digestOf a checkpointId archiveSha256 h]
      split
      · rename_i hid
        rw [hsame digest (hid ▸ hdigest)]
      · exact hdigest
    · intro hended
      rwa [endedAt, checkpointed_field a checkpointId archiveSha256 (by decide) (by decide) (by decide)]

end Checkpoint

/-! ## Steps and runs -/

/-- What a run keeps of the record: distinct digests, and no size before the pin. -/
structure Recorded.Sound (s : Recorded) : Prop where
  distinct : DistinctIds s.doc
  unsized : s.stage = .fresh ∨ s.stage = .created → ∀ key ∈ sizedFields, field s.doc key = none

section Step

variable {s s' : Store} {a : AttemptTuple} {now : Instant} {doc : Option Fields} {doc' : Fields} {call : Call}

/-- What a call that commits leaves. -/
theorem Call.writes_cases (h : call.writes s a now doc = .ok doc') :
    (∃ backend executionName, call = .attemptStart backend executionName ∧ (∃ task, s.fenced a = .ok task) ∧
      doc' = startRecord a backend executionName now) ∨
    (∃ checkpointId uri archiveSha256, call = .checkpoint checkpointId uri archiveSha256 ∧
      checkpointProblem a uri archiveSha256 = none ∧ (∃ task, s.fenced a = .ok task) ∧
      (∃ found, attemptDocOk a (s.leases.lookup a.leaseId) doc = .ok found) ∧
      doc' = mergeFields (doc.getD []) (checkpointFields a checkpointId archiveSha256 doc)) ∨
    (∃ kind fields later, call = .usage kind fields ∧ usageFields a kind fields now = .ok later ∧
      doc' = mergeFields (doc.getD []) later) ∨
    (∃ exitCode error, (call = .attemptEnd exitCode error ∨ (∃ text, call = .park text) ∨
      call = .finish exitCode error ∨ call = .retry exitCode error) ∧
      doc' = mergeFields (doc.getD []) (endFields a now exitCode error)) := by
  cases call with
  | attemptStart backend executionName =>
    obtain ⟨task, hfence, h⟩ := bind_eq_ok h
    exact .inl ⟨backend, executionName, rfl, ⟨task, hfence⟩, (Except.ok.inj h).symm⟩
  | checkpoint checkpointId uri archiveSha256 =>
    rw [Call.writes] at h
    cases hproblem : checkpointProblem a uri archiveSha256 with
    | some problem => rw [hproblem] at h; cases h
    | none =>
      rw [hproblem] at h
      obtain ⟨task, hfence, h⟩ := bind_eq_ok h
      obtain ⟨found, hfound, h⟩ := bind_eq_ok h
      obtain rfl := attemptDocOk_eq hfound
      exact .inr (.inl ⟨checkpointId, uri, archiveSha256, rfl, hproblem, ⟨task, hfence⟩, ⟨found, hfound⟩,
        (Except.ok.inj h).symm⟩)
  | usage kind fields =>
    obtain ⟨later, hfields, h⟩ := bind_eq_ok h
    obtain ⟨found, hfound, h⟩ := bind_eq_ok h
    exact .inr (.inr (.inl ⟨kind, fields, later, rfl, hfields, (Except.ok.inj h).symm⟩))
  | attemptEnd exitCode error =>
    obtain ⟨found, hfound, h⟩ := bind_eq_ok h
    exact .inr (.inr (.inr ⟨exitCode, error, .inl rfl, (Except.ok.inj h).symm⟩))
  | park text =>
    obtain ⟨task, hfence, h⟩ := bind_eq_ok h
    exact .inr (.inr (.inr ⟨some 75, some text, .inr (.inl ⟨text, rfl⟩), (Except.ok.inj h).symm⟩))
  | finish exitCode error =>
    obtain ⟨task, hfence, h⟩ := bind_eq_ok h
    exact .inr (.inr (.inr ⟨exitCode, error, .inr (.inr (.inl rfl)), (Except.ok.inj h).symm⟩))
  | retry exitCode error =>
    obtain ⟨task, hfence, h⟩ := bind_eq_ok h
    exact .inr (.inr (.inr ⟨exitCode, error, .inr (.inr (.inr rfl)), (Except.ok.inj h).symm⟩))

/-- A call that commits keeps the record exactly when it only adds. -/
theorem Call.keeps_iff (hdistinct : DistinctIds doc) (h : call.writes s a now doc = .ok doc') :
    Keeps doc (some doc') ↔ Adds doc (.call s a now call) := by
  obtain ⟨backend, executionName, rfl, hfence, rfl⟩ |
    ⟨checkpointId, uri, archiveSha256, rfl, hproblem, hfence, hfound, rfl⟩ |
    ⟨kind, fields, later, rfl, hfields, rfl⟩ | ⟨exitCode, error, hcall, rfl⟩ := Call.writes_cases h
  · rw [startRecord_keeps_iff]
    exact ⟨fun hblank _ => hblank, fun hadds => hadds hfence⟩
  · rw [checkpointed_keeps_iff a checkpointId archiveSha256 hdistinct]
    exact ⟨fun hsame _ _ _ => hsame, fun hadds => hadds hproblem hfence hfound⟩
  · exact ⟨fun _ => trivial, fun _ => usageFields_keeps hfields doc⟩
  · refine ⟨fun _ => ?_, fun _ => endFields_keeps a now exitCode error doc⟩
    rcases hcall with rfl | ⟨text, rfl⟩ | rfl | rfl <;> exact trivial

theorem Call.adds_of_refused {refusal : Refusal} (h : call.writes s a now doc = .error refusal) :
    Adds doc (.call s a now call) := by
  cases call with
  | attemptStart backend executionName =>
    rintro ⟨task, hfence⟩
    rw [Call.writes, hfence] at h
    cases h
  | checkpoint checkpointId uri archiveSha256 =>
    rintro hproblem ⟨task, hfence⟩ ⟨found, hfound⟩
    rw [Call.writes, hproblem, hfence, hfound] at h
    cases h
  | _ => exact trivial

theorem Call.keeps_distinct (hdistinct : DistinctIds doc) (h : call.writes s a now doc = .ok doc') :
    DistinctIds (some doc') := by
  have hmerged : ∀ later : Fields, "checkpoint_sha256" ∉ later.map Prod.fst →
      DistinctIds (some (mergeFields (doc.getD []) later)) := by
    intro later hlater
    rwa [DistinctIds, storedDigests, field_mergeFields hlater doc]
  obtain ⟨backend, executionName, -, -, rfl⟩ | ⟨checkpointId, uri, archiveSha256, -, -, -, -, rfl⟩ |
    ⟨kind, fields, later, -, hfields, rfl⟩ | ⟨exitCode, error, -, rfl⟩ := Call.writes_cases h
  · exact List.nodup_nil
  · rw [DistinctIds, checkpointed_digests]
    exact nodup_mergeFields hdistinct _
  · have hnames : ∀ kind : UsageKind, "checkpoint_sha256" ∉ kind.fields := by
      rintro (_ | _ | _) <;> decide
    refine hmerged later fun hmem => ?_
    rcases usageFields_keys hfields _ hmem with h | h | h
    · exact hnames kind h
    · exact absurd h (by decide)
    · exact absurd h (by decide)
  · have hnames : "checkpoint_sha256" ∉ ["completed_at", "exit_code", "error", "tenant_id"] := by decide
    exact hmerged _ hnames

/-- No call writes a size. -/
theorem Call.unsized (hunsized : ∀ key ∈ sizedFields, field doc key = none) (h : call.writes s a now doc = .ok doc') :
    ∀ key ∈ sizedFields, field (some doc') key = none := by
  have hmerged : ∀ later : Fields, (∀ key ∈ sizedFields, key ∉ later.map Prod.fst) →
      ∀ key ∈ sizedFields, field (some (mergeFields (doc.getD []) later)) key = none := by
    intro later hlater key hkey
    rw [field_mergeFields (hlater key hkey) doc]
    exact hunsized key hkey
  obtain ⟨backend, executionName, -, -, rfl⟩ | ⟨checkpointId, uri, archiveSha256, -, -, -, -, rfl⟩ |
    ⟨kind, fields, later, -, hfields, rfl⟩ | ⟨exitCode, error, -, rfl⟩ := Call.writes_cases h
  · exact fun key hkey => Dict.lookup_of_notMem (startRecord_names key hkey)
  · have hnames : ∀ key ∈ sizedFields, key ∉ ["checkpoints", "checkpoint_sha256", "tenant_id", "task_id",
        "attempt_id"] := by decide
    exact hmerged _ hnames
  · refine hmerged later fun key hkey hmem => ?_
    have hnames : ∀ kind : UsageKind, ∀ key ∈ sizedFields, key ∉ kind.fields ∧ key ≠ "cpu_measured_at" ∧
        key ≠ "tenant_id" := by
      rintro (_ | _ | _) <;> decide
    obtain ⟨hfigures, hmeasured, htenant⟩ := hnames kind key hkey
    rcases usageFields_keys hfields key hmem with h | h | h
    · exact hfigures h
    · exact hmeasured h
    · exact htenant h
  · have hnames : ∀ key ∈ sizedFields, key ∉ ["completed_at", "exit_code", "error", "tenant_id"] := by decide
    exact hmerged _ hnames

end Step

namespace Recorded

variable {s s' : Recorded} {w : Write}

theorem Sound.step (h : s.Sound) (hstep : Step s w s') : s'.Sound := by
  cases hstep with
  | create doc a backend now =>
    exact ⟨List.nodup_nil, fun _ key hkey => Dict.lookup_of_notMem (createAttempt_names key hkey)⟩
  | pin doc sized =>
    constructor
    · have hname : "checkpoint_sha256" ∉ sizedFields := by decide
      have hsame : field (some (pinAttemptSize sized doc)) "checkpoint_sha256" = field doc "checkpoint_sha256" :=
        field_mergeFields hname doc
      rw [DistinctIds, storedDigests, hsame]
      exact h.distinct
    · rintro (h | h) <;> cases h
  | dispatched doc executionName =>
    constructor
    · cases doc with
      | none => exact List.nodup_nil
      | some doc =>
        have hsame : field (markDispatched executionName (some doc)) "checkpoint_sha256" =
            field (some doc) "checkpoint_sha256" :=
          (Dict.lookup_set doc _ _ _).trans (if_neg (by decide))
        rw [DistinctIds, storedDigests, hsame]
        exact h.distinct
    · rintro (h | h) <;> cases h
  | committed stage doc store a now call doc' hwrites =>
    exact ⟨Call.keeps_distinct h.distinct hwrites, fun hstage => Call.unsized (h.unsized hstage) hwrites⟩
  | refused stage doc store a now call refusal hwrites => exact h

/-- Of the steps, exactly the adding ones keep the record. -/
theorem Step.keeps_iff (h : s.Sound) (hstep : Step s w s') : Keeps s.doc s'.doc ↔ Adds s.doc w := by
  cases hstep with
  | create doc a backend now => exact createAttempt_keeps_iff a backend now doc
  | pin doc sized => exact ⟨fun _ => trivial, fun _ => pinAttemptSize_keeps sized (h.unsized (.inr rfl))⟩
  | dispatched doc executionName => exact ⟨fun _ => trivial, fun _ => markDispatched_keeps executionName doc⟩
  | committed stage doc store a now call doc' hwrites => exact Call.keeps_iff h.distinct hwrites
  | refused stage doc store a now call refusal hwrites =>
    exact ⟨fun _ => Call.adds_of_refused hwrites, fun _ => Keeps.refl doc⟩

/-- A step that only adds. -/
def Adding (s : Recorded) (w : Write) (s' : Recorded) : Prop := Step s w s' ∧ Adds s.doc w

theorem Sound.of_run {ws : List Write} (hrun : Run Step ⟨.fresh, none⟩ ws s) : s.Sound := by
  have hfresh : Sound ⟨.fresh, none⟩ := ⟨List.nodup_nil, fun _ _ _ => rfl⟩
  exact hrun.invariant (I := Sound) (fun _ _ _ h hstep => h.step hstep) hfresh

/-- From every reachable record, a run of adding steps keeps it, and no other step does. -/
theorem record_only_gains {ws : List Write} (hrun : Run Step ⟨.fresh, none⟩ ws s) :
    (∀ ws' s', Run Adding s ws' s' → Keeps s.doc s'.doc) ∧
      ∀ w s', Step s w s' → (Keeps s.doc s'.doc ↔ Adds s.doc w) := by
  have hsound := Sound.of_run hrun
  refine ⟨fun ws' s' hrun' => ?_, fun w s' hstep => hstep.keeps_iff hsound⟩
  have hboth : s'.Sound ∧ Keeps s.doc s'.doc := by
    refine hrun'.invariant (I := fun t => t.Sound ∧ Keeps s.doc t.doc) ?_ ⟨hsound, Keeps.refl s.doc⟩
    rintro t w t' ⟨ht, hkeeps⟩ ⟨hstep, hadds⟩
    exact ⟨ht.step hstep, hkeeps.trans ((hstep.keeps_iff ht).mpr hadds)⟩
  exact hboth.2

end Recorded

/-! ## A start after the pin -/

def sampleSized : Sized where
  version := 3
  cpuRequest := 1
  cpuLimit := 2
  memoryGib := 4
  diskGib := 10

def createdRecord : Recorded := ⟨.created, some (createAttempt sampleTuple "gke" 0)⟩

def pinnedRecord : Recorded := ⟨.pinned, some (pinAttemptSize sampleSized createdRecord.doc)⟩

theorem pinnedRecord_reached : Run Recorded.Step ⟨.fresh, none⟩
    [.create sampleTuple "gke" 0, .pin sampleSized] pinnedRecord :=
  .snoc (.one (.create none sampleTuple "gke" 0)) (.pin _ sampleSized)

theorem record_kept_when_dispatched :
    ∃ s, Run Recorded.Adding pinnedRecord [.dispatched "swarm-1"] s ∧ Keeps pinnedRecord.doc s.doc := by
  have hstep : Recorded.Adding pinnedRecord (.dispatched "swarm-1")
      ⟨.dispatched, markDispatched "swarm-1" pinnedRecord.doc⟩ := ⟨.dispatched _ _, trivial⟩
  exact ⟨_, .one hstep, (Recorded.record_only_gains pinnedRecord_reached).1 _ _ (.one hstep)⟩

/-- The start that follows the pin replaces the document, and the pinned size is gone. -/
theorem record_loses_size :
    ∃ s, Run Recorded.Step ⟨.fresh, none⟩
        [.create sampleTuple "gke" 0, .pin sampleSized, .call sampleStore sampleTuple 1 (.attemptStart "gke" none)] s ∧
      (∃ value, field pinnedRecord.doc "size_version" = some value) ∧ field s.doc "size_version" = none := by
  have hfenced : ∃ task, sampleStore.fenced sampleTuple = .ok task := exists_ok_of_isSome (by decide)
  obtain ⟨task, htask⟩ := hfenced
  have hwrites : (Call.attemptStart "gke" none).writes sampleStore sampleTuple 1 pinnedRecord.doc =
      .ok (startRecord sampleTuple "gke" none 1) := by
    rw [Call.writes, htask]
    rfl
  exact ⟨_, .snoc pinnedRecord_reached (.committed _ _ _ _ _ _ _ hwrites), ⟨.int 3, rfl⟩, rfl⟩

end SwarmCloud.AttemptState
