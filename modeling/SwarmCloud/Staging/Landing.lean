import SwarmCloud.Staging.Agreement
import SwarmCloud.Staging.Beside

/-! # Where the files of a step land

The resolve step compares the destinations of the inputs as texts and the paths of
the attachments with the paths that are claimed. What it does not compare: two
spellings of one path, and a file with the directory of another one's files.
-/

namespace SwarmCloud.Staging

open Common Lib AttemptState

section Call

variable (call : StageCall)

def inputLanding (item : DeclaredInput) : List String := call.ws.work ++ posixNames item.destination

def attachmentLanding (item : DeclaredInput) (name : String) : List String :=
  call.ws.work ++ posixNames (item.beside ++ name)

/-- The directory of the files that come with an input, beside it. -/
def filesLanding (item : DeclaredInput) : List String :=
  (inputLanding call item).dropLast ++
    [stem ((posixNames item.filename).getLast?.getD "") ++ attachmentsDirSuffix]

/-- The files that the manifest of the upstream task lists for an input. -/
def attached (item : DeclaredInput) : List String :=
  match call.upstreamDocument item.upstreamTaskId with
  | .ok (some document) => attachedNames document item.filename
  | _ => []

/-- The inputs that no restored checkpoint holds. -/
def pending (declared : List DeclaredInput) : List DeclaredInput :=
  declared.filter fun item => !(call.resumed && call.isFile (inputLanding call item))

def landings (resolved : List Resolved) : List (List String) :=
  resolved.map Resolved.path ++ (carried resolved).map fun item => item.2.path

/-- No input lands at or above the place of another one's, whatever comes with them. -/
def ClashFree (declared : List DeclaredInput) : Prop :=
  ∀ item ∈ declared, ∀ other ∈ declared, inputLanding call item <+: inputLanding call other →
    inputLanding call item = inputLanding call other

/-- What is resolved can all be staged, and what is fetched is within the cap. -/
structure Collisionless (declared : List DeclaredInput) (resolved : List Resolved) : Prop where
  apart : (landings resolved).Pairwise Apart
  within : declared ≠ [] → ∀ plan, stagePlan call declared = .ok plan → totalBytes plan ≤ call.maxTotalBytes

/-- No path is spelled in two ways, no file lands at the directory of an input's files, and no input lands below
a file that comes with one. -/
structure Separate (inputs : List DeclaredInput) : Prop where
  spelled_once : ∀ item ∈ inputs, ∀ other ∈ inputs, inputLanding call item = inputLanding call other → item = other
  directory_free : ∀ item ∈ inputs, attached call item ≠ [] → ∀ other ∈ inputs,
    inputLanding call other ≠ filesLanding call item ∧
      ∀ name ∈ attached call other, attachmentLanding call other name ≠ filesLanding call item
  nothing_below : ∀ item ∈ inputs, ∀ name ∈ attached call item, ∀ other ∈ inputs,
    ¬attachmentLanding call item name <+: inputLanding call other

end Call

/-! ## What the passes resolve -/

section Resolved

variable {call : StageCall} {declared : List DeclaredInput}

theorem destination_eq_ok {filename : String} {path : List String} (h : destination call filename = .ok path) :
    path = call.ws.work ++ posixNames filename ∧ posixNames filename ≠ [] := by
  unfold destination at h
  split at h
  · cases h
  · rename_i hpath
    obtain rfl := Except.ok.inj h
    unfold destinationFor at hpath
    dsimp only at hpath
    split at hpath
    · cases hpath
    rename_i hrelative
    rw [posixParts_of_relative hrelative] at hpath
    split at hpath
    · cases hpath
    rename_i hunsafe
    split at hpath
    · cases hpath
    split at hpath
    · cases hpath
    split at hpath
    · exact ⟨(Except.ok.inj hpath).symm, fun hnil => hunsafe (.inl hnil)⟩
    · cases hpath

theorem destinations_eq {placed : List (DeclaredInput × List String)} (h : destinations call declared = .ok placed) :
    placed = declared.map fun item => (item, inputLanding call item) := by
  have hplaced := map_eq_of_mapM id (fun item => (item, inputLanding call item)) h ?_
  · rwa [List.map_id] at hplaced
  · intro item _ pair hpair
    obtain ⟨path, hpath, hpair⟩ := bind_eq_ok hpair
    obtain rfl := Except.ok.inj hpair
    rw [(destination_eq_ok hpath).1]
    rfl

theorem landing_ne_nil {placed : List (DeclaredInput × List String)} (h : destinations call declared = .ok placed)
    {item : DeclaredInput} (hitem : item ∈ declared) : posixNames item.destination ≠ [] := by
  have hmap := mapM_eq_ok.mp h
  have hmem : (do let path ← destination call item.destination; return (item, path)) ∈ placed.map Except.ok := by
    rw [← hmap]
    exact List.mem_map_of_mem hitem
  obtain ⟨pair, -, hpair⟩ := List.mem_map.mp hmem
  obtain ⟨path, hpath, -⟩ := bind_eq_ok hpair.symm
  exact (destination_eq_ok hpath).2

theorem pendingOf_eq : pendingOf call (declared.map fun item => (item, inputLanding call item)) =
    (pending call declared).map fun item => (item, inputLanding call item) := by
  rw [pendingOf, pending, List.filter_map]
  rfl

theorem fetchUpstreamTask_eq_ok {upstream : String} {document : Fields}
    (h : fetchUpstreamTask call upstream = .ok document) : call.upstreamDocument upstream = .ok (some document) := by
  obtain ⟨found, hfound, h⟩ := bind_eq_ok h
  split at h
  · cases h
  · rename_i document'
    split at h
    · cases h
    · obtain rfl := Except.ok.inj h
      exact hfound

/-- What the third pass says of one input. -/
structure Stands (call : StageCall) (item : DeclaredInput) (r : Resolved) : Prop where
  item_eq : r.item = item
  path : r.path = inputLanding call item
  paths : r.attachments.map StagedAttachment.path = (attached call item).map (attachmentLanding call item)
  beside : ∀ name ∈ attached call item, ∃ directory, attachmentsDir item.filename = .ok directory ∧
    isLeafOf directory name = true

theorem stands_of_resolveInput {item : DeclaredInput} {r : Resolved}
    (h : resolveInput call (item, inputLanding call item) = .ok r) : Stands call item r := by
  obtain ⟨document, hdocument, h⟩ := bind_eq_ok h
  obtain ⟨reference, hreference, h⟩ := bind_eq_ok h
  obtain ⟨attachments, hattachments, h⟩ := bind_eq_ok h
  obtain rfl := Except.ok.inj h
  obtain ⟨hnames, hbeside⟩ := artifactReference_names hreference
  have hattached : attached call item = attachedNames document item.filename := by
    rw [attached, fetchUpstreamTask_eq_ok hdocument]
  refine ⟨rfl, rfl, ?_, by rwa [hattached]⟩
  rw [hattached, ← hnames, List.map_map]
  refine map_eq_of_mapM StagedAttachment.path (attachmentLanding call item ∘ AttachmentReference.name) hattachments
    fun reference _ staged hstaged => ?_
  obtain ⟨path, hpath, hstaged⟩ := bind_eq_ok hstaged
  obtain rfl := Except.ok.inj hstaged
  exact (destination_eq_ok hpath).1

/-- Each of the files is at a path that nobody had. -/
theorem landAlone_eq_ok {claimed : Dict (List String) Claim} {files : List (DeclaredInput × StagedAttachment)}
    (h : landAlone claimed files = .ok ()) :
    (files.map fun item => item.2.path).Nodup ∧ ∀ item ∈ files, item.2.path ∉ claimed.map Prod.fst := by
  induction files generalizing claimed with
  | nil => exact ⟨List.nodup_nil, nofun⟩
  | cons file files ih =>
    rw [landAlone] at h
    split at h
    · cases h
    · rename_i hnone
      obtain ⟨hnodup, hothers⟩ := ih h
      have hfree : file.2.path ∉ claimed.map Prod.fst := by
        intro hmem
        obtain ⟨claim, hclaim, heq⟩ := List.mem_map.mp hmem
        exact List.find?_eq_none.mp hnone claim hclaim (decide_eq_true heq)
      simp only [Dict.mem_keys_set_iff, not_or] at hothers
      refine ⟨?_, List.forall_mem_cons.mpr ⟨hfree, fun item hitem => (hothers item hitem).2⟩⟩
      rw [List.map_cons, List.nodup_cons]
      refine ⟨?_, hnodup⟩
      intro hmem
      obtain ⟨item, hitem, heq⟩ := List.mem_map.mp hmem
      exact (hothers item hitem).1 heq

/-- What the resolve step comes to. -/
structure Resolves (call : StageCall) (declared : List DeclaredInput) (resolved : List Resolved) : Prop where
  landings_eq : landings resolved = (pending call declared).map (inputLanding call) ++
    (pending call declared).flatMap fun item => (attached call item).map (attachmentLanding call item)
  landing_ne : ∀ item ∈ declared, posixNames item.destination ≠ []
  alone : ((pending call declared).flatMap fun item => (attached call item).map (attachmentLanding call item)).Nodup
  unclaimed : ∀ item ∈ pending call declared, ∀ name ∈ attached call item, ∀ other ∈ declared,
    attachmentLanding call item name ≠ inputLanding call other
  beside : ∀ item ∈ pending call declared, ∀ name ∈ attached call item,
    ∃ directory, attachmentsDir item.filename = .ok directory ∧ isLeafOf directory name = true

theorem resolves_of_eq_ok {resolved : List Resolved} (h : resolveInputs call declared = .ok resolved) :
    Resolves call declared resolved := by
  obtain ⟨placed, hplaced, h⟩ := bind_eq_ok h
  obtain ⟨resolved', hresolved, h⟩ := bind_eq_ok h
  obtain ⟨⟨⟩, halone, h⟩ := bind_eq_ok h
  obtain rfl := Except.ok.inj h
  have hnonempty : ∀ item ∈ declared, posixNames item.destination ≠ [] := fun _ hitem =>
    landing_ne_nil hplaced hitem
  obtain rfl := destinations_eq hplaced
  rw [pendingOf_eq] at hresolved
  have hstands : ∀ pair ∈ (pending call declared).map fun item => (item, inputLanding call item), ∀ r,
      resolveInput call pair = .ok r → Stands call pair.1 r ∧ pair.2 = inputLanding call pair.1 := by
    intro pair hpair r hr
    obtain ⟨item, -, rfl⟩ := List.mem_map.mp hpair
    exact ⟨stands_of_resolveInput hr, rfl⟩
  have hpaths : resolved'.map Resolved.path = (pending call declared).map (inputLanding call) := by
    have hlist := map_eq_of_mapM Resolved.path (fun pair : DeclaredInput × List String => inputLanding call pair.1)
      hresolved fun pair hpair r hr => (hstands pair hpair r hr).1.path
    rw [hlist, List.map_map]
    rfl
  have hfiles : (carried resolved').map (fun item => item.2.path) =
      (pending call declared).flatMap fun item => (attached call item).map (attachmentLanding call item) := by
    have hlists := map_eq_of_mapM (fun r : Resolved => r.attachments.map StagedAttachment.path)
      (fun pair : DeclaredInput × List String => (attached call pair.1).map (attachmentLanding call pair.1)) hresolved
      fun pair hpair r hr => (hstands pair hpair r hr).1.paths
    rw [List.map_map] at hlists
    rw [carried, List.map_flatMap, List.flatMap_def, List.flatMap_def]
    simp only [List.map_map]
    exact congrArg List.flatten hlists
  obtain ⟨hnodup, hunclaimed⟩ := landAlone_eq_ok halone
  refine ⟨by rw [landings, hpaths, hfiles], hnonempty, hfiles ▸ hnodup, ?_, ?_⟩
  · intro item hitem name hname other hother heq
    have hmem : attachmentLanding call item name ∈ (carried resolved').map fun item => item.2.path := by
      rw [hfiles]
      exact List.mem_flatMap.mpr ⟨item, hitem, List.mem_map_of_mem hname⟩
    obtain ⟨file, hfile, hpath⟩ := List.mem_map.mp hmem
    refine hunclaimed file hfile ?_
    rw [Dict.mem_keys_filled, List.map_map, hpath, heq]
    exact List.mem_map.mpr ⟨other, hother, rfl⟩
  · intro item hitem
    have hmem : resolveInput call (item, inputLanding call item) ∈ resolved'.map Except.ok := by
      rw [← mapM_eq_ok.mp hresolved]
      exact List.mem_map_of_mem (List.mem_map_of_mem (f := fun item => (item, inputLanding call item)) hitem)
    obtain ⟨r, -, hr⟩ := List.mem_map.mp hmem
    exact (stands_of_resolveInput hr.symm).beside

end Resolved

/-! ## Files beside an input -/

/-- What stands before the filename gives the same names to each path that it is put before. -/
theorem exists_front (item : DeclaredInput) :
    ∃ front, posixNames item.destination = front ++ posixNames item.filename ∧
      ∀ file, posixNames (item.beside ++ file) = front ++ posixNames file := by
  unfold DeclaredInput.beside DeclaredInput.destination
  cases item.parentStepId with
  | none =>
    refine ⟨[], rfl, fun file => ?_⟩
    simp
  | some parent =>
    refine ⟨posixNames parent, posixNames_slash parent item.filename, fun file => ?_⟩
    have hlength : (parent ++ "/" ++ item.filename).length - item.filename.length =
        (parent ++ "/").toList.length := by
      rw [String.length_append, Nat.add_sub_cancel, String.length_toList]
    have htext : (parent ++ "/" ++ item.filename).toList = (parent ++ "/").toList ++ item.filename.toList :=
      String.toList_append
    dsimp only
    rw [hlength, htext, List.take_left, String.ofList_toList, posixNames_slash]

section Beside

variable {call : StageCall} {declared : List DeclaredInput} {resolved : List Resolved}
  {item other : DeclaredInput} {name : String}

/-- A file that comes with an input is in the directory of its files. -/
theorem attachmentLanding_eq {directory : String} (hdirectory : attachmentsDir item.filename = .ok directory)
    (hleaf : isLeafOf directory name = true) :
    ∃ leaf, attachmentLanding call item name = filesLanding call item ++ [leaf] := by
  obtain ⟨before, last, hfile, hdir⟩ := posixNames_attachmentsDir hdirectory
  obtain ⟨front, hitem, hbeside⟩ := exists_front item
  obtain ⟨leaf, rfl, hname⟩ := eq_of_isLeafOf hleaf
  refine ⟨leaf, ?_⟩
  have hlast : (posixNames item.filename).getLast?.getD "" = last := by simp [hfile]
  have hinput : inputLanding call item = call.ws.work ++ front ++ before ++ [last] := by
    rw [inputLanding, hitem, hfile]
    simp only [List.append_assoc]
  rw [attachmentLanding, hbeside, posixNames_slash, hdir, posixNames_of_isName hname, filesLanding, hlast, hinput,
    List.dropLast_concat]
  simp only [List.append_assoc]

theorem Resolves.attachment (h : Resolves call declared resolved) (hitem : item ∈ pending call declared)
    (hname : name ∈ attached call item) :
    ∃ leaf, attachmentLanding call item name = filesLanding call item ++ [leaf] := by
  obtain ⟨directory, hdirectory, hleaf⟩ := h.beside item hitem name hname
  exact attachmentLanding_eq hdirectory hleaf

/-- A path that leads to a file of an input is the directory of its files or leads to the input. -/
theorem begins_cases (hne : posixNames item.destination ≠ []) {path : List String} {leaf : String}
    (hbegins : path <+: filesLanding call item ++ [leaf]) (hproper : path ≠ filesLanding call item ++ [leaf]) :
    path = filesLanding call item ∨ path <+: inputLanding call item ∧ path ≠ inputLanding call item := by
  have hdirectory : path <+: filesLanding call item := by
    rcases List.prefix_concat_iff.mp hbegins with heq | hshort
    · exact absurd heq hproper
    · exact hshort
  rcases List.prefix_concat_iff.mp hdirectory with heq | hshort
  · exact .inl heq
  · right
    have hnil : inputLanding call item ≠ [] := by
      rw [inputLanding]
      exact List.append_ne_nil_of_right_ne_nil _ hne
    refine ⟨hshort.trans (List.dropLast_prefix _), ?_⟩
    rintro rfl
    have hlength := hshort.length_le
    rw [List.length_dropLast] at hlength
    have hpos := List.length_pos_of_ne_nil hnil
    omega

theorem mem_landings_iff (h : Resolves call declared resolved) {path : List String} :
    path ∈ landings resolved ↔ (∃ item ∈ pending call declared, path = inputLanding call item) ∨
      ∃ item ∈ pending call declared, ∃ name ∈ attached call item, path = attachmentLanding call item name := by
  rw [h.landings_eq, List.mem_append, List.mem_map, List.mem_flatMap]
  simp only [List.mem_map, eq_comm]

theorem mem_declared (h : item ∈ pending call declared) : item ∈ declared := (List.mem_filter.mp h).1

/-- Of two files or inputs, one that leads to the other shows where the pass did not look. -/
theorem Separate.not_begins (hseparate : Separate call (pending call declared)) (h : Resolves call declared resolved)
    (hclash : ClashFree call declared) {path path' : List String} (hpath : path ∈ landings resolved)
    (hpath' : path' ∈ landings resolved) (hne : path ≠ path') : ¬path <+: path' := by
  intro hbegins
  rcases (mem_landings_iff h).mp hpath' with ⟨other, hother, rfl⟩ | ⟨other, hother, name', hname', rfl⟩
  · rcases (mem_landings_iff h).mp hpath with ⟨item, hitem, rfl⟩ | ⟨item, hitem, name, hname, rfl⟩
    · exact hne (hclash item (mem_declared hitem) other (mem_declared hother) hbegins)
    · exact hseparate.nothing_below item hitem name hname other hother hbegins
  · obtain ⟨leaf, hleaf⟩ := h.attachment hother hname'
    rw [hleaf] at hbegins hne
    have hfree := hseparate.directory_free other hother (List.ne_nil_of_mem hname')
    rcases begins_cases (h.landing_ne other (mem_declared hother)) hbegins hne with heq | ⟨habove, hproper⟩
    · rcases (mem_landings_iff h).mp hpath with ⟨item, hitem, rfl⟩ | ⟨item, hitem, name, hname, rfl⟩
      · exact (hfree item hitem).1 heq
      · exact (hfree item hitem).2 name hname heq
    · rcases (mem_landings_iff h).mp hpath with ⟨item, hitem, rfl⟩ | ⟨item, hitem, name, hname, rfl⟩
      · exact hproper (hclash item (mem_declared hitem) other (mem_declared hother) habove)
      · exact hseparate.nothing_below item hitem name hname other hother habove

theorem Separate.nodup (hseparate : Separate call (pending call declared)) (h : Resolves call declared resolved)
    (hnodup : declared.Nodup) : (landings resolved).Nodup := by
  rw [h.landings_eq, List.nodup_append]
  refine ⟨?_, h.alone, ?_⟩
  · exact (hnodup.filter _).map_on fun item hitem other hother heq =>
      hseparate.spelled_once item hitem other hother heq
  · intro path hpath path' hpath' heq
    obtain ⟨other, hother, rfl⟩ := List.mem_map.mp hpath
    obtain ⟨item, hitem, hfile⟩ := List.mem_flatMap.mp hpath'
    obtain ⟨name, hname, rfl⟩ := List.mem_map.mp hfile
    exact h.unclaimed item hitem name hname other (mem_declared hother) heq.symm

theorem Separate.apart (hseparate : Separate call (pending call declared)) (h : Resolves call declared resolved)
    (hclash : ClashFree call declared) (hnodup : declared.Nodup) : (landings resolved).Pairwise Apart := by
  refine (hseparate.nodup h hnodup).pairwise_of_forall_ne fun path hpath path' hpath' hne => ⟨hne, ?_, ?_⟩
  · exact hseparate.not_begins h hclash hpath hpath' hne
  · exact hseparate.not_begins h hclash hpath' hpath (Ne.symm hne)

instance : Std.Symm Apart := ⟨fun _ _ hap => ⟨hap.1.symm, hap.2.2, hap.2.1⟩⟩

theorem separate_of_apart (h : Resolves call declared resolved) (hapart : (landings resolved).Pairwise Apart) :
    Separate call (pending call declared) := by
  have hsymm : ∀ path ∈ landings resolved, ∀ path' ∈ landings resolved, path ≠ path' → Apart path path' :=
    fun path hpath path' hpath' hne => hapart.forall hpath hpath' hne
  have hinput : ∀ item ∈ pending call declared, inputLanding call item ∈ landings resolved :=
    fun item hitem => (mem_landings_iff h).mpr (.inl ⟨item, hitem, rfl⟩)
  have hfile : ∀ item ∈ pending call declared, ∀ name ∈ attached call item,
      attachmentLanding call item name ∈ landings resolved :=
    fun item hitem name hname => (mem_landings_iff h).mpr (.inr ⟨item, hitem, name, hname, rfl⟩)
  refine ⟨?_, ?_, ?_⟩
  · have hnodup : (landings resolved).Nodup := hapart.imp fun hap => hap.1
    rw [h.landings_eq, List.nodup_append] at hnodup
    exact fun item hitem other hother heq => List.inj_on_of_nodup_map hnodup.1 hitem hother heq
  · intro item hitem hsome other hother
    obtain ⟨name, hname⟩ := List.exists_mem_of_ne_nil _ hsome
    obtain ⟨leaf, hleaf⟩ := h.attachment hitem hname
    have hfree : ∀ path ∈ landings resolved, path ≠ filesLanding call item := by
      rintro path hpath rfl
      refine (hsymm _ hpath _ (hfile item hitem name hname) ?_).2.1 ?_
      · rw [hleaf]
        simp
      · rw [hleaf]
        exact List.prefix_append _ _
    exact ⟨hfree _ (hinput other hother), fun name' hname' => hfree _ (hfile other hother name' hname')⟩
  · intro item hitem name hname other hother hbegins
    exact (hsymm _ (hfile item hitem name hname) _ (hinput other hother)
      (h.unclaimed item hitem name hname other (mem_declared hother))).2.1 hbegins

end Beside

theorem stagePlan_within {call : StageCall} {declared : List DeclaredInput} (hsome : declared ≠ [])
    {plan : List Resolved} (h : stagePlan call declared = .ok plan) : totalBytes plan ≤ call.maxTotalBytes := by
  rw [stagePlan, if_neg hsome] at h
  obtain ⟨resolved, -, h⟩ := bind_eq_ok h
  split at h
  · cases h
  · rename_i hwithin
    obtain rfl := Except.ok.inj h
    exact not_lt.mp hwithin

/-! ## The inputs of a declaration -/

theorem nodup_of_declaredInputs {metadata : Value} {declared : List DeclaredInput}
    (h : declaredInputs metadata = .ok declared) : declared.Nodup := by
  have hshared : ∀ staged : List DeclaredInput, sharedDestination staged = none → staged.Nodup := by
    intro staged hnone
    rw [sharedDestination, List.findSome?_eq_none_iff] at hnone
    refine List.Nodup.of_map DeclaredInput.destination ?_
    refine (Dict.grouped_small_iff _ DeclaredInput.upstreamTaskId staged).mp fun item hitem => ?_
    have hitemNone := hnone item (mem_sortBy.mpr hitem)
    split at hitemNone
    · cases hitemNone
    · rename_i hsmall
      omega
  unfold declaredInputs at h
  split at h
  · split at h
    · obtain rfl := Except.ok.inj h
      exact List.nodup_nil
    · obtain rfl := Except.ok.inj h
      exact List.nodup_nil
    · split at h
      · obtain rfl := Except.ok.inj h
        exact List.nodup_nil
      · unfold declaredFrom at h
        split at h
        · cases h
        split at h
        · cases h
        dsimp only at h
        split at h
        · cases h
        · rename_i hnone
          obtain rfl := Except.ok.inj h
          exact hshared _ hnone
    · cases h
  · obtain rfl := Except.ok.inj h
    exact List.nodup_nil

/-- What the resolve step lets through can all be staged exactly when no path is spelled in two ways, no file lands
at the directory of an input's files, and no input lands below a file that comes with one. -/
theorem collisionless_iff (metadata : Value) (declared : List DeclaredInput)
    (hdeclared : declaredInputs metadata = .ok declared) (call : StageCall) (hclash : ClashFree call declared)
    (resolved : List Resolved) (hresolved : resolveInputs call declared = .ok resolved) :
    Collisionless call declared resolved ↔ Separate call (pending call declared) := by
  have hresolves := resolves_of_eq_ok hresolved
  constructor
  · intro h
    exact separate_of_apart hresolves h.apart
  · intro h
    exact ⟨h.apart hresolves hclash (nodup_of_declaredInputs hdeclared), fun hsome _ hplan =>
      stagePlan_within hsome hplan⟩

/-- An entry of a manifest of the tenant `t1`. -/
def sampleEntry (taskId name : String) (attachments : List Value) : Value :=
  .map [("name", .str name),
    ("uri", .str ("gs://artifacts/tenants/t1/tasks/" ++ taskId ++ "/attempts/a1/artifacts/" ++ name)),
    ("bytes", .int 10), ("attachments", .list attachments)]

/-- Each upstream task has a review with one file attached, and a file of its own. -/
def sampleCall (own : String) : StageCall where
  ws := ⟨["work"], fun path => path⟩
  upstreamDocument := fun upstream => .ok <| some
    [("tenant_id", .str "t1"), ("state", .str TaskState.succeeded.value),
      ("result_summary", .map [("artifacts", .list
        [sampleEntry upstream "review.json" [sampleEntry upstream "review.files/draft.md" []],
          sampleEntry upstream own []])])]
  isFile := fun _ => false
  tenantId := "t1"
  resumed := false
  maxTotalBytes := 1000
  reserved := ["repo"]

/-- A step that takes the review of one task and the file of another. -/
def sampleMetadata (own : String) : Value :=
  .map [("input_from", .map [("task_a", .str "review.json"), ("task_b", .str own)])]

def sampleDeclared (own : String) : List DeclaredInput :=
  [{ upstreamTaskId := "task_a", filename := "review.json" }, { upstreamTaskId := "task_b", filename := own }]

theorem collisionless_notes : ∃ resolved, resolveInputs (sampleCall "notes.md") (sampleDeclared "notes.md") = .ok resolved ∧
    Collisionless (sampleCall "notes.md") (sampleDeclared "notes.md") resolved := by
  obtain ⟨resolved, hresolved⟩ := exists_ok_of_isSome
    (x := resolveInputs (sampleCall "notes.md") (sampleDeclared "notes.md")) (by decide +kernel)
  have hdeclared : declaredInputs (sampleMetadata "notes.md") = .ok (sampleDeclared "notes.md") := by decide
  have hclash : ClashFree (sampleCall "notes.md") (sampleDeclared "notes.md") := by
    unfold ClashFree
    decide
  exact ⟨resolved, hresolved, (collisionless_iff _ _ hdeclared _ hclash resolved hresolved).mpr
    ⟨by decide, by decide, by decide⟩⟩

/-- A file that is staged where the attachments of another one need their directory. -/
theorem review_files_collide : ∃ metadata declared call resolved, declaredInputs metadata = .ok declared ∧
    ClashFree call declared ∧ resolveInputs call declared = .ok resolved ∧ ¬Collisionless call declared resolved := by
  obtain ⟨resolved, hresolved⟩ := exists_ok_of_isSome
    (x := resolveInputs (sampleCall "review.files") (sampleDeclared "review.files")) (by decide +kernel)
  have hclash : ClashFree (sampleCall "review.files") (sampleDeclared "review.files") := by
    unfold ClashFree
    decide
  refine ⟨sampleMetadata "review.files", _, _, resolved, by decide, hclash, hresolved, fun h => ?_⟩
  have hseparate := separate_of_apart (resolves_of_eq_ok hresolved) h.apart
  exact (hseparate.directory_free { upstreamTaskId := "task_a", filename := "review.json" } (by decide)
    (by decide) { upstreamTaskId := "task_b", filename := "review.files" } (by decide)).1
    (by decide)

end SwarmCloud.Staging
