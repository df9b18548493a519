import SwarmCloud.Staging.Resolve

/-! # Where an input and its files land

The files of an answer land in one directory beside it, each at a name of its own
there. What the passes resolve is read off the declared inputs and the manifests.
-/

namespace SwarmCloud.Staging

open Lib AttemptState

/-! ## Names of a path -/

theorem posixParts_of_relative {path : String} (h : path.toList.head? ≠ some '/') : posixParts path = posixNames path := by
  rw [posixParts, if_pos h]
  rfl

theorem posixNames_slash (dir file : String) : posixNames (dir ++ "/" ++ file) = posixNames dir ++ posixNames file := by
  rw [posixNames, segments_slash, List.filter_append]
  rfl

/-- A name that a path can have. -/
def IsName (name : String) : Prop := name ≠ "" ∧ name ≠ "." ∧ '/' ∉ name.toList

theorem isName_of_mem {path name : String} (h : name ∈ posixNames path) : IsName name := by
  obtain ⟨hsegment, hkept⟩ := List.mem_filter.mp h
  simp only [ne_eq, Bool.and_eq_true, decide_eq_true_eq] at hkept
  exact ⟨hkept.1, hkept.2, slash_notMem_of_mem_segments hsegment⟩

theorem posixNames_joined {names : List String} (h : ∀ name ∈ names, IsName name) : posixNames (joined names) = names := by
  rcases List.eq_nil_or_concat names with rfl | ⟨_, _, hconcat⟩
  · decide
  · rw [posixNames, segments_joined (by rw [hconcat]; simp) fun name hname => (h name hname).2.2, List.filter_eq_self]
    intro name hname
    simp [(h name hname).1, (h name hname).2.1]

theorem posixNames_of_isName {name : String} (h : IsName name) : posixNames name = [name] := by
  rw [posixNames, segments_of_slashless h.2.2]
  simp [h.1, h.2.1]

theorem posixNames_root (path rest : String) : posixNames (posixRoot path ++ rest) = posixNames rest := by
  have hempty : posixNames "" = [] := by decide
  have hone : ∀ rest, posixNames ("/" ++ rest) = posixNames rest := by
    intro rest
    have hslash := posixNames_slash "" rest
    rwa [String.empty_append, hempty, List.nil_append] at hslash
  rw [posixRoot]
  split
  · rw [String.empty_append]
  · split
    · have htwo : "//" ++ rest = "/" ++ ("/" ++ rest) := by rw [← String.append_assoc]; rfl
      rw [htwo, hone, hone]
    · exact hone rest

/-! ## The directory of the attachments -/

theorem slash_notMem_stem {name : String} (h : '/' ∉ name.toList) : '/' ∉ (stem name).toList := by
  rw [stem]
  split
  · rw [String.toList_ofList]
    exact fun hmem => h (List.mem_of_mem_take hmem)
  · exact h

theorem isName_filesDir {name : String} (h : IsName name) : IsName (stem name ++ attachmentsDirSuffix) := by
  have hlast : (stem name ++ attachmentsDirSuffix).toList.getLast? = some 's' := by
    rw [String.toList_append, List.getLast?_append]
    rfl
  refine ⟨?_, ?_, ?_⟩
  · intro heq
    rw [heq] at hlast
    cases hlast
  · intro heq
    rw [heq] at hlast
    cases hlast
  · rw [String.toList_append, List.mem_append, not_or]
    exact ⟨slash_notMem_stem h.2.2, by decide⟩

theorem posixNames_attachmentsDir {filename dir : String} (h : attachmentsDir filename = .ok dir) :
    ∃ before last, posixNames filename = before ++ [last] ∧
      posixNames dir = before ++ [stem last ++ attachmentsDirSuffix] := by
  rw [attachmentsDir] at h
  split at h
  · cases h
  · rename_i last hlast
    have hfile : posixNames filename = (posixNames filename).dropLast ++ [last] := by
      rw [List.dropLast_append_getLast? _ hlast]
    refine ⟨_, last, hfile, ?_⟩
    rw [← Except.ok.inj h, posixNames_root, posixNames_joined]
    intro name hname
    rcases List.mem_append.mp hname with hname | hname
    · exact isName_of_mem (List.dropLast_subset _ hname)
    · rw [List.mem_singleton.mp hname]
      exact isName_filesDir (isName_of_mem (List.mem_of_getLast? hlast))

/-- A text with a separator, split at the last one. -/
theorem eq_of_rtakeWhile {separator : Char} {text : List Char} (h : separator ∈ text) :
    text = text.take (text.length - (text.rtakeWhile (· ≠ separator)).length - 1) ++
      separator :: text.rtakeWhile (· ≠ separator) := by
  have hsplit := List.rdropWhile_append_rtakeWhile (p := fun c => decide (c ≠ separator)) (l := text)
  have hne : text.rdropWhile (fun c => decide (c ≠ separator)) ≠ [] := by
    intro hnil
    have := List.rdropWhile_eq_nil_iff.mp hnil separator h
    simp at this
  have hlast := List.rdropWhile_last_not (fun c => decide (c ≠ separator)) text hne
  rw [decide_eq_true_eq, not_not] at hlast
  have hfront := List.dropLast_append_getLast hne
  rw [hlast] at hfront
  rw [← hfront, List.append_assoc, List.singleton_append] at hsplit
  generalize text.rtakeWhile (· ≠ separator) = leaf at hsplit ⊢
  generalize (text.rdropWhile fun c => decide (c ≠ separator)).dropLast = front at hsplit
  have hcount : (front ++ separator :: leaf).length - leaf.length - 1 = front.length := by
    rw [List.length_append, List.length_cons]
    omega
  rw [← hsplit, hcount, List.take_left]

theorem eq_of_isLeafOf {directory name : String} (h : isLeafOf directory name = true) :
    ∃ leaf, name = directory ++ "/" ++ leaf ∧ IsName leaf := by
  obtain ⟨⟨parent, leaf⟩, hparts, hleaf⟩ := (Option.any_eq_true _ _).mp h
  simp only [Bool.and_eq_true, decide_eq_true_eq] at hleaf
  obtain ⟨⟨⟨rfl, hsafe⟩, -⟩, -⟩ := hleaf
  rw [parentAndLeaf] at hparts
  split at hparts
  · cases hparts
  · rename_i hslash
    dsimp only at hparts
    obtain ⟨rfl, rfl⟩ := Prod.mk.inj (Option.some.inj hparts)
    have hsplit := eq_of_rtakeWhile (not_not.mp hslash)
    have hbare : '/' ∉ name.toList.rtakeWhile (· ≠ '/') := by
      intro hmem
      have := List.mem_rtakeWhile_imp hmem
      simp at this
    refine ⟨_, ?_, ?_, ?_, by rwa [String.toList_ofList]⟩
    · apply String.ext
      rw [String.length_toList] at hsplit
      simpa [String.toList_append, String.toList_ofList] using hsplit
    · intro hempty
      exact hsafe (by rw [hempty]; decide)
    · intro hdot
      exact hsafe (by rw [hdot]; decide)

/-! ## The files that a manifest lists -/

/-- The names that the manifest lists under `attachments` for a file. -/
def attachedNames (document : Fields) (filename : String) : List String :=
  match (namedEntries document).lookup filename with
  | none => []
  | some entry =>
    if (inlineArtifact document entry filename).isSome then []
    else match entry.lookup "attachments" with
      | some (.list items) => items.filterMap fun item =>
          Value.asString ((Value.mapping (some item)).lookup "name")
      | _ => []

section References

variable {tenantId upstream filename directory : String}

theorem attachmentReference_name {seen : List String} {item : Value} {reference : AttachmentReference}
    (h : attachmentReference tenantId upstream filename directory seen item = .ok reference) :
    Value.asString ((Value.mapping (some item)).lookup "name") = some reference.name ∧
      isLeafOf directory reference.name = true := by
  unfold attachmentReference at h
  split at h
  · rename_i fields
    split at h
    · rename_i name hname
      split at h
      · cases h
      split at h
      · cases h
      rename_i hleaf
      split at h
      · cases h
      split at h
      · split at h
        · cases h
        split at h
        · cases h
        · obtain ⟨key, -, h⟩ := bind_eq_ok h
          obtain rfl := Except.ok.inj h
          refine ⟨by simp [Value.mapping, hname, Value.asString], ?_⟩
          simpa using hleaf
      · cases h
    · cases h
  · cases h

theorem attachmentLoop_names {seen : List String} {items : List Value} {references : List AttachmentReference}
    (h : attachmentLoop tenantId upstream filename directory seen items = .ok references) :
    references.map AttachmentReference.name =
        items.filterMap (fun item => Value.asString ((Value.mapping (some item)).lookup "name")) ∧
      ∀ reference ∈ references, isLeafOf directory reference.name = true := by
  induction items generalizing seen references with
  | nil =>
    obtain rfl := Except.ok.inj h
    exact ⟨rfl, nofun⟩
  | cons item items ih =>
    rw [attachmentLoop] at h
    obtain ⟨first, hfirst, h⟩ := bind_eq_ok h
    obtain ⟨rest, hrest, h⟩ := bind_eq_ok h
    obtain rfl := Except.ok.inj h
    obtain ⟨hname, hleaf⟩ := attachmentReference_name hfirst
    obtain ⟨hnames, hleaves⟩ := ih hrest
    refine ⟨?_, List.forall_mem_cons.mpr ⟨hleaf, hleaves⟩⟩
    rw [List.map_cons, hnames, List.filterMap_cons, hname]

/-- The files that an input brings are those that its entry lists, each in the directory beside it. -/
theorem artifactReference_names {document : Fields} {reference : ArtifactReference}
    (h : artifactReference tenantId upstream filename document = .ok reference) :
    reference.attachments.map AttachmentReference.name = attachedNames document filename ∧
      ∀ name ∈ attachedNames document filename, ∃ directory, attachmentsDir filename = .ok directory ∧
        isLeafOf directory name = true := by
  have hnone : ∀ names : List String, names = [] → ∀ name ∈ names,
      ∃ directory, attachmentsDir filename = .ok directory ∧ isLeafOf directory name = true := by
    rintro _ rfl
    exact nofun
  unfold artifactReference at h
  split at h
  · cases h
  split at h
  · split at h
    · rename_i entry hentry
      unfold entryReference at h
      split at h
      · rename_i text hinline
        obtain rfl := Except.ok.inj h
        have hnames : attachedNames document filename = [] := by simp [attachedNames, hentry, hinline]
        exact ⟨hnames.symm, hnone _ hnames⟩
      · rename_i hinline
        split at h
        · split at h
          · cases h
          split at h
          · cases h
          obtain ⟨key, -, h⟩ := bind_eq_ok h
          obtain ⟨attachments, hattachments, h⟩ := bind_eq_ok h
          obtain rfl := Except.ok.inj h
          unfold attachmentReferences at hattachments
          split at hattachments
          · rename_i hlist
            obtain rfl := Except.ok.inj hattachments
            have hnames : attachedNames document filename = [] := by simp [attachedNames, hentry, hinline, hlist]
            exact ⟨hnames.symm, hnone _ hnames⟩
          · rename_i hlist
            obtain rfl := Except.ok.inj hattachments
            have hnames : attachedNames document filename = [] := by simp [attachedNames, hentry, hinline, hlist]
            exact ⟨hnames.symm, hnone _ hnames⟩
          · rename_i items hlist
            obtain ⟨directory, hdirectory, hloop⟩ := bind_eq_ok hattachments
            obtain ⟨hnames, hleaves⟩ := attachmentLoop_names hloop
            have hattached : attachedNames document filename = attachments.map AttachmentReference.name := by
              rw [hnames]
              simp [attachedNames, hentry, hinline, hlist]
            refine ⟨hattached.symm, fun name hname => ⟨directory, hdirectory, ?_⟩⟩
            rw [hattached] at hname
            obtain ⟨reference, hreference, rfl⟩ := List.mem_map.mp hname
            exact hleaves reference hreference
          · cases hattachments
        · cases h
    · split at h
      · cases h
      · cases h
  · cases h

end References

end SwarmCloud.Staging
