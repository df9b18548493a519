import Mathlib.Order.Bounds.Basic
import SwarmCloud.SpecSign.Binding

/-! # Signing formats and projections

`signingFormat` and `canonicalStepSpec` are two ladders over the same fields.
Each field of formats 2 to 8 has the format that introduced it; both ladders
are read off that one number.
-/

namespace SwarmCloud.SpecSign

open Lib

/-- A field of a task document: at its top level or in its metadata. -/
inductive SpecField where
  | top (name : String)
  | metadata (key : String)
  deriving DecidableEq

namespace SpecField

def stored (doc : PyMap) : SpecField → PyValue
  | .top name => doc.get name
  | .metadata key => (metadataMap doc).get key

/-- Format 4's field is set when it is neither None nor an empty list, every
other field when it is not None. -/
def isSetIn (doc : PyMap) (field : SpecField) : Bool :=
  if field ∈ format4Fields.map .top then isSet (field.stored doc) else isSome (field.stored doc)

/-- The format that added the field. -/
def introducedAt (field : SpecField) : Int :=
  if field ∈ format2Fields.map .top then 2
  else if field ∈ format3Fields.map .top then 3
  else if field ∈ format4Fields.map .top then 4
  else if field ∈ format5Fields.map .top then 5
  else if field ∈ format6Fields.map .top then 6
  else if field ∈ format7Fields.map .top then 7
  else if field ∈ format8MetadataKeys.map .metadata then 8
  else 1

end SpecField

/-- The fields that a worker acts on and a format before their own refuses. -/
def guardedFields : List SpecField :=
  (format3Fields ++ format4Fields ++ format5Fields ++ format6Fields ++ format7Fields).map .top ++
    format8MetadataKeys.map .metadata

/-- The fields of formats 2 to 8. -/
def laterFields : List SpecField := format2Fields.map .top ++ guardedFields

def projection (specFormat : Int) : List SpecField :=
  (coveredFields specFormat).map .top ++ (metadataKeys specFormat).map .metadata

def Covers (specFormat : Int) (doc : PyMap) : Prop :=
  ∀ field ∈ laterFields, field.isSetIn doc = true → field ∈ projection specFormat

theorem mem_projection_iff : ∀ f ∈ specFormats, ∀ field ∈ laterFields,
    field ∈ projection f ↔ field.introducedAt ≤ f := by
  decide

/-! ## The signing format -/

section SigningFormat

variable {doc : PyMap}

theorem signingFormat_known (doc : PyMap) : signingFormat doc ∈ specFormats := by
  unfold signingFormat
  repeat' split
  all_goals decide

/-- One rung of the ladder: some field of format `k` is set. -/
def rung (doc : PyMap) (k : Int) : Bool :=
  laterFields.any fun field => field.introducedAt = k && field.isSetIn doc

theorem rung_eq (doc : PyMap) :
    rung doc 2 = !(format2Fields.all fun key => (doc.get key).isNone) ∧
    rung doc 3 = (format3Fields.any fun key => isSome (doc.get key)) ∧
    rung doc 4 = (format4Fields.any fun key => isSet (doc.get key)) ∧
    rung doc 5 = (format5Fields.any fun key => isSome (doc.get key)) ∧
    rung doc 6 = (format6Fields.any fun key => isSome (doc.get key)) ∧
    rung doc 7 = (format7Fields.any fun key => isSome (doc.get key)) ∧
    rung doc 8 = format8MetadataKeys.any fun key => isSome ((metadataMap doc).get key) := by
  simp [rung, laterFields, guardedFields, format2Fields, format3Fields, format4Fields, format5Fields,
    format6Fields, format7Fields, format8MetadataKeys, SpecField.introducedAt, SpecField.isSetIn,
    SpecField.stored, isSome]

theorem signingFormat_eq (doc : PyMap) :
    signingFormat doc =
      if rung doc 8 then 8 else if rung doc 7 then 7 else if rung doc 6 then 6
      else if rung doc 5 then 5 else if rung doc 4 then 4 else if rung doc 3 then 3
      else if rung doc 2 then 2 else 1 := by
  obtain ⟨h2, h3, h4, h5, h6, h7, h8⟩ := rung_eq doc
  rw [h2, h3, h4, h5, h6, h7, h8, signingFormat]
  simp only [Bool.not_eq_true', ← Bool.not_eq_true, ite_not]

theorem rung_eq_true {k : Int} :
    rung doc k = true ↔ ∃ field ∈ laterFields, field.introducedAt = k ∧ field.isSetIn doc = true := by
  simp [rung]

theorem introducedAt_le_signingFormat {field : SpecField} (hfield : field ∈ laterFields)
    (hset : field.isSetIn doc = true) : field.introducedAt ≤ signingFormat doc := by
  have hrung : rung doc field.introducedAt = true := rung_eq_true.mpr ⟨field, hfield, rfl, hset⟩
  have hrange : ∀ field ∈ laterFields, field.introducedAt ∈ ([2, 3, 4, 5, 6, 7, 8] : List Int) := by
    decide
  have hk := hrange field hfield
  rw [signingFormat_eq]
  generalize field.introducedAt = k at hrung hk ⊢
  simp only [List.mem_cons, List.not_mem_nil, or_false] at hk
  -- the ladder goes down from 8, so no rung before that of `k` is below it
  obtain rfl | rfl | rfl | rfl | rfl | rfl | rfl := hk
  all_goals
    simp only [hrung, if_true]
    repeat' split
  all_goals decide

theorem rung_signingFormat (doc : PyMap) :
    signingFormat doc = 1 ∨ rung doc (signingFormat doc) = true := by
  rw [signingFormat_eq]
  split_ifs with h8 h7 h6 h5 h4 h3 h2
  · exact .inr h8
  · exact .inr h7
  · exact .inr h6
  · exact .inr h5
  · exact .inr h4
  · exact .inr h3
  · exact .inr h2
  · exact .inl rfl

theorem signingFormat_isLeast (doc : PyMap) :
    IsLeast {f | f ∈ specFormats ∧ Covers f doc} (signingFormat doc) := by
  refine ⟨⟨signingFormat_known doc, ?_⟩, ?_⟩
  · intro field hfield hset
    rw [mem_projection_iff _ (signingFormat_known doc) field hfield]
    exact introducedAt_le_signingFormat hfield hset
  · rintro f ⟨hf, hcovers⟩
    obtain hone | hrung := rung_signingFormat doc
    · have hpos : ∀ f ∈ specFormats, 1 ≤ f := by decide
      rw [hone]
      exact hpos f hf
    · obtain ⟨field, hfield, hat, hset⟩ := rung_eq_true.mp hrung
      rw [← hat, ← mem_projection_iff f hf field hfield]
      exact hcovers field hfield hset

end SigningFormat

/-! ## Refusals -/

section Refusals

variable {doc m : PyMap} {f k : Int} {set : PyValue → Bool} {keys : List String}

theorem rung_eq_false_iff (hrung : rung doc k = keys.any fun key => set (m.get key)) :
    rung doc k = false ↔ ∀ key ∈ keys, set (m.get key) = false := by
  rw [hrung, List.any_eq_false]
  simp

/-- Below its own format, no guarded field of a checked document is set. -/
theorem Checked.not_isSetIn (h : Checked doc f) {field : SpecField}
    (hfield : field ∈ guardedFields) (hlt : f < field.introducedAt) : field.isSetIn doc = false := by
  have hrange : ∀ field ∈ guardedFields, field.introducedAt ∈ ([3, 4, 5, 6, 7, 8] : List Int) := by
    decide
  have hk := hrange field hfield
  obtain ⟨-, h3, h4, h5, h6, h7, h8⟩ := rung_eq doc
  have hrung : rung doc field.introducedAt = false := by
    generalize field.introducedAt = k at hlt hk ⊢
    simp only [List.mem_cons, List.not_mem_nil, or_false] at hk
    obtain rfl | rfl | rfl | rfl | rfl | rfl := hk
    · exact (rung_eq_false_iff h3).mpr (h.format3 hlt)
    · exact (rung_eq_false_iff h4).mpr (h.format4 hlt)
    · exact (rung_eq_false_iff h5).mpr (h.format5 hlt)
    · exact (rung_eq_false_iff h6).mpr (h.format6 hlt)
    · exact (rung_eq_false_iff h7).mpr (h.format7 hlt)
    · exact (rung_eq_false_iff h8).mpr (h.format8 hlt)
  by_contra hset
  rw [Bool.not_eq_false] at hset
  have htrue := rung_eq_true.mpr ⟨field, List.mem_append_right _ hfield, rfl, hset⟩
  rw [hrung] at htrue
  cases htrue

theorem rung_eq_false_of_lt (hlt : signingFormat doc < k) : rung doc k = false := by
  by_contra hrung
  rw [Bool.not_eq_false] at hrung
  obtain ⟨field, hfield, hat, hset⟩ := rung_eq_true.mp hrung
  have hle := introducedAt_le_signingFormat hfield hset
  omega

theorem refuseUncovered_signingFormat (label : String)
    (hrung : rung doc k = keys.any fun key => set (m.get key)) :
    refuseUncovered set label m keys (signingFormat doc) k = .ok () :=
  refuseUncovered_eq_ok.mpr fun hlt => (rung_eq_false_iff hrung).mp (rung_eq_false_of_lt hlt)

/-- At the signing format only the metadata, the integer fields and the encoding are left to refuse. -/
theorem canonicalStepSpec_signingFormat (doc : PyMap) (taskId : PyStr) :
    canonicalStepSpec doc taskId (signingFormat doc) = (do
      let metadata ← requireMetadata doc
      requireIntegers doc integerFields
      jcs (.map (stepSpec doc metadata taskId (signingFormat doc)))) := by
  obtain ⟨-, h3, h4, h5, h6, h7, h8⟩ := rung_eq doc
  rw [canonicalStepSpec, if_neg (not_not.mpr (signingFormat_known doc))]
  cases hmetadata : requireMetadata doc with
  | error e => rfl
  | ok metadata =>
    obtain rfl := requireMetadata_eq_ok hmetadata
    simp only [bind, Except.bind, refuseUncovered_signingFormat _ h3,
      refuseUncovered_signingFormat _ h4, refuseUncovered_signingFormat _ h5,
      refuseUncovered_signingFormat _ h6, refuseUncovered_signingFormat _ h7,
      refuseUncovered_signingFormat _ h8]

theorem requireIntegers_error {names : List String} {e : SpecNotCanonical}
    (h : requireIntegers doc names = .error e) : ∃ name typeName, e = .notInteger name typeName := by
  fun_induction requireIntegers doc names with
  | case1 => cases h
  | case2 key keys hnone ih => exact ih h
  | case3 key keys n hint ih => exact ih h
  | case4 key keys _ _ =>
    cases h
    exact ⟨_, _, rfl⟩

theorem requireIntegers_ok {names : List String} (h : requireIntegers doc names = .ok ()) :
    ∀ name ∈ names, doc.get name = .none ∨ ∃ n, doc.get name = .int n := by
  fun_induction requireIntegers doc names with
  | case1 => simp
  | case2 key keys hnone ih => exact List.forall_mem_cons.mpr ⟨.inl hnone, ih h⟩
  | case3 key keys n hint ih => exact List.forall_mem_cons.mpr ⟨.inr ⟨n, hint⟩, ih h⟩
  | case4 key keys _ _ => cases h

theorem signingFormat_not_refused (doc : PyMap) (taskId : PyStr) (field : String) (f : Int) :
    canonicalStepSpec doc taskId (signingFormat doc) ≠ .error (.notCovered field f) := by
  rw [canonicalStepSpec_signingFormat]
  intro h
  obtain h | ⟨metadata, -, h⟩ := bind_eq_error h
  · unfold requireMetadata at h
    split at h <;> cases h
  · obtain h | ⟨_, -, h⟩ := bind_eq_error h
    · obtain ⟨_, _, h⟩ := requireIntegers_error h
      cases h
    · cases jcs_error h

end Refusals

/-! ## Changed fields -/

section Changed

variable {doc doc' : PyMap} {taskId : PyStr} {f : Int} {field : SpecField} {bytes : ByteArray}

/-- What counts as the value of a field at a format: below format 4 the empty
list of `additional_repositories` is unset. -/
def SpecField.valueAt (doc : PyMap) (f : Int) (field : SpecField) : PyValue :=
  if field ∈ format4Fields.map .top ∧ f < 4 ∧ isSet (field.stored doc) = false then .none
  else field.stored doc

theorem isSome_eq_false {v : PyValue} (h : isSome v = false) : v = .none := by
  cases v <;> simp_all [isSome, PyValue.isNone]

theorem valueAt_of_unset (hlt : f < field.introducedAt) (hset : field.isSetIn doc = false) :
    field.valueAt doc f = .none := by
  have hformat : ∀ field ∈ format4Fields.map SpecField.top, field.introducedAt = 4 := by decide
  rw [SpecField.isSetIn] at hset
  rw [SpecField.valueAt]
  split at hset
  · rename_i hfour
    rw [if_pos ⟨hfour, hformat field hfour ▸ hlt, hset⟩]
  · rename_i hfour
    rw [if_neg fun h => hfour h.1]
    exact isSome_eq_false hset

theorem valueAt_of_covered (hle : field.introducedAt ≤ f) : field.valueAt doc f = field.stored doc := by
  have hformat : ∀ field ∈ format4Fields.map SpecField.top, field.introducedAt = 4 := by decide
  rw [SpecField.valueAt, if_neg]
  rintro ⟨hfour, hlt, -⟩
  rw [hformat field hfour] at hle
  omega

theorem SpecAgree.stored {taskId' : PyStr} {f' : Int} (h : SpecAgree doc doc' taskId taskId' f f')
    (hfield : field ∈ projection f) : SameJson (field.stored doc) (field.stored doc') := by
  obtain hmem | hmem := List.mem_append.mp hfield
  · obtain ⟨name, hname, rfl⟩ := List.mem_map.mp hmem
    exact h.fields name hname
  · obtain ⟨key, hkey, rfl⟩ := List.mem_map.mp hmem
    exact h.metadata key hkey

/-- Two documents with the same bytes agree on every guarded field. -/
theorem sameJson_guarded (hfield : field ∈ guardedFields) (h : canonicalStepSpec doc taskId f = .ok bytes)
    (h' : canonicalStepSpec doc' taskId f = .ok bytes) :
    SameJson (field.valueAt doc f) (field.valueAt doc' f) := by
  obtain ⟨hchecked, -⟩ := canonicalStepSpec_ok h
  obtain ⟨hchecked', -⟩ := canonicalStepSpec_ok h'
  by_cases hle : field.introducedAt ≤ f
  · rw [valueAt_of_covered hle, valueAt_of_covered hle]
    refine (specAgree_of_bytes h h').stored ?_
    exact (mem_projection_iff f hchecked.known field (List.mem_append_right _ hfield)).mpr hle
  · have hlt := not_le.mp hle
    rw [valueAt_of_unset hlt (hchecked.not_isSetIn hfield hlt),
      valueAt_of_unset hlt (hchecked'.not_isSetIn hfield hlt)]
    rfl

/-- An integer field that is the same JSON is the same value: no float passes for it. -/
theorem integer_eq_of_sameJson {name : String} (hname : name ∈ integerFields) (h : Checked doc f)
    (h' : Checked doc' f) (hsame : SameJson (doc.get name) (doc'.get name)) :
    doc.get name = doc'.get name := by
  obtain hv | ⟨n, hv⟩ := requireIntegers_ok h.integers name hname
  · obtain hw | ⟨m, hw⟩ := requireIntegers_ok h'.integers name hname
    · rw [hv, hw]
    · rw [hv, hw] at hsame
      cases hsame
  · obtain hw | ⟨m, hw⟩ := requireIntegers_ok h'.integers name hname
    · rw [hv, hw] at hsame
      cases hsame
    · rw [hv, hw] at hsame ⊢
      rw [sameJson_int hsame]

theorem maxTurns_eq (h : canonicalStepSpec doc taskId f = .ok bytes)
    (h' : canonicalStepSpec doc' taskId f = .ok bytes) :
    doc.get "max_turns" = doc'.get "max_turns" := by
  have hvalue : ∀ doc : PyMap, SpecField.valueAt doc f (.top "max_turns") = doc.get "max_turns" := by
    intro doc
    rw [SpecField.valueAt, if_neg fun hfour => absurd hfour.1 (by decide)]
    rfl
  have hsame := sameJson_guarded (show SpecField.top "max_turns" ∈ guardedFields by decide) h h'
  rw [hvalue, hvalue] at hsame
  exact integer_eq_of_sameJson (by decide) (canonicalStepSpec_ok h).1 (canonicalStepSpec_ok h').1 hsame

/-- The signer never picks a format that refuses what the document sets, it picks
the least that covers it, and no guarded field of a signed document can be
changed under its bytes. -/
theorem signingFormat_and_projection_agree :
    (∀ (doc : PyMap) (taskId : PyStr) (field : String) (f : Int),
      canonicalStepSpec doc taskId (signingFormat doc) ≠ .error (.notCovered field f)) ∧
    (∀ doc : PyMap, IsLeast {f | f ∈ specFormats ∧ Covers f doc} (signingFormat doc)) ∧
    (∀ (doc doc' : PyMap) (taskId : PyStr) (f : Int) (bytes : ByteArray),
      canonicalStepSpec doc taskId f = .ok bytes →
      (∀ field ∈ guardedFields, ¬ SameJson (field.valueAt doc f) (field.valueAt doc' f) →
        canonicalStepSpec doc' taskId f ≠ .ok bytes) ∧
      (doc.get "max_turns" ≠ doc'.get "max_turns" → canonicalStepSpec doc' taskId f ≠ .ok bytes)) := by
  refine ⟨signingFormat_not_refused, signingFormat_isLeast, ?_⟩
  intro doc doc' taskId f bytes h
  constructor
  · intro field hfield hdiffer h'
    exact hdiffer (sameJson_guarded hfield h h')
  · intro hdiffer h'
    exact hdiffer (maxTurns_eq h h')

/-- A task with a budget, in cents. -/
def sampleBudgetTask (cents : Int) : PyMap :=
  [entry "tenant_id" (.str (py "acme")), entry "budget" (.int cents)]

theorem signingFormat_and_projection_agree_budget :
    signingFormat (sampleBudgetTask 500) = 6 ∧
      ∃ bytes, canonicalStepSpec (sampleBudgetTask 500) (py "t-1") 6 = .ok bytes ∧
        canonicalStepSpec (sampleBudgetTask 900) (py "t-1") 6 ≠ .ok bytes := by
  refine ⟨by decide, ?_⟩
  have hok : (canonicalStepSpec (sampleBudgetTask 500) (py "t-1") 6).toOption.isSome := by
    decide
  obtain ⟨bytes, hbytes⟩ := exists_ok_of_isSome hok
  refine ⟨bytes, hbytes, ?_⟩
  refine (signingFormat_and_projection_agree.2.2 _ _ _ _ _ hbytes).1 (.top "budget") (by decide) ?_
  intro hsame
  exact absurd (@sameJson_int 500 900 hsame) (by decide)

end Changed

end SwarmCloud.SpecSign
