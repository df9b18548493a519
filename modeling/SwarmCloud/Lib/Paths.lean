import Mathlib.Data.List.Basic
import Mathlib.Data.List.DropRight

/-! # Paths as segments

A path is a text with slashes between its segments; splitting and joining undo
each other. A text without a slash is one segment.
-/

namespace SwarmCloud.Lib

def segments (path : String) : List String := (path.toList.splitOn '/').map String.ofList

def joined (segs : List String) : String := String.ofList (['/'].intercalate (segs.map String.toList))

theorem segments_ne_nil (path : String) : segments path ≠ [] := by
  unfold segments
  exact fun h => List.splitOn_ne_nil _ _ (List.map_eq_nil_iff.mp h)

theorem joined_segments (path : String) : joined (segments path) = path := by
  have hmap : (segments path).map String.toList = path.toList.splitOn '/' := by
    simp [segments, List.map_map, Function.comp_def]
  rw [joined, hmap, List.intercalate_splitOn, String.ofList_toList]

theorem segments_inj {path path' : String} (h : segments path = segments path') : path = path' := by
  rw [← joined_segments path, h, joined_segments]

theorem segments_under {dir file : String} (h : '/' ∉ dir.toList) :
    segments (dir ++ "/" ++ file) = dir :: segments file := by
  have hlist : (dir ++ "/" ++ file).toList = dir.toList ++ '/' :: file.toList := by simp
  rw [segments, hlist, List.splitOn_append_cons_self_of_not_mem h, List.map_cons, String.ofList_toList]
  rfl

/-- A path whose segments begin another one is read back from that other one. -/
theorem eq_joined_take {path path' : String} (h : segments path <+: segments path') :
    path = joined ((segments path').take (segments path).length) := by
  rw [← List.prefix_iff_eq_take.mp h, joined_segments]

theorem notMem_of_mem_splitOn {x : Char} {l piece : List Char} (h : piece ∈ l.splitOn x) : x ∉ piece := by
  induction l generalizing piece with
  | nil =>
    rw [List.splitOn_nil, List.mem_singleton] at h
    simp [h]
  | cons c l ih =>
    rw [List.splitOn_cons_eq_if_modifyHead] at h
    split at h
    · rcases List.mem_cons.mp h with rfl | h
      · exact List.not_mem_nil
      · exact ih h
    · rename_i hc
      cases hrest : l.splitOn x with
      | nil => exact absurd hrest (List.splitOn_ne_nil _ _)
      | cons first rest =>
        rw [hrest, List.modifyHead_cons] at h
        rw [hrest] at ih
        rcases List.mem_cons.mp h with rfl | h
        · intro hmem
          rcases List.mem_cons.mp hmem with rfl | hmem
          · exact hc (beq_self_eq_true _)
          · exact ih List.mem_cons_self hmem
        · exact ih (List.mem_cons_of_mem _ h)

theorem slash_notMem_of_mem_segments {path seg : String} (h : seg ∈ segments path) : '/' ∉ seg.toList := by
  obtain ⟨piece, hpiece, rfl⟩ := List.mem_map.mp h
  rw [String.toList_ofList]
  exact notMem_of_mem_splitOn hpiece

theorem segments_joined {segs : List String} (hne : segs ≠ []) (h : ∀ seg ∈ segs, '/' ∉ seg.toList) :
    segments (joined segs) = segs := by
  have hlists : ∀ l ∈ segs.map String.toList, '/' ∉ l := by
    intro l hl
    obtain ⟨seg, hseg, rfl⟩ := List.mem_map.mp hl
    exact h seg hseg
  rw [segments, joined, String.toList_ofList, List.splitOn_intercalate _ hlists (by simpa using hne), List.map_map]
  simp [Function.comp_def]

theorem segments_slash (dir file : String) : segments (dir ++ "/" ++ file) = segments dir ++ segments file := by
  have hlist : (dir ++ "/" ++ file).toList = dir.toList ++ '/' :: file.toList := by simp
  rw [segments, hlist, List.splitOn_append_cons_self, List.map_append]
  rfl

theorem segments_of_slashless {seg : String} (h : '/' ∉ seg.toList) : segments seg = [seg] := by
  rw [segments, List.splitOn_eq_singleton h]
  simp

/-- The end of a text from the first place where the pattern stands: `text[text.find(pattern):]`. -/
def fromFirst (pattern : List Char) : List Char → Option (List Char)
  | [] => if pattern = [] then some [] else none
  | c :: cs => if pattern.isPrefixOf (c :: cs) then some (c :: cs) else fromFirst pattern cs

theorem fromFirst_eq_some {pattern before rest : List Char} (hrest : pattern <+: rest)
    (hfirst : ∀ u v, before ++ rest = u ++ pattern ++ v → before.length ≤ u.length) :
    fromFirst pattern (before ++ rest) = some rest := by
  induction before with
  | nil =>
    cases rest with
    | nil => simp [fromFirst, List.prefix_nil.mp hrest]
    | cons c rest =>
      rw [List.nil_append, fromFirst, if_pos (List.isPrefixOf_iff_prefix.mpr hrest)]
  | cons c before ih =>
    have hlater : ¬ pattern.isPrefixOf (c :: (before ++ rest)) = true := by
      intro hhere
      obtain ⟨v, hv⟩ := List.isPrefixOf_iff_prefix.mp hhere
      have := hfirst [] v (by simpa using hv.symm)
      simp at this
    rw [List.cons_append, fromFirst, if_neg hlater]
    refine ih fun u v huv => ?_
    have := hfirst (c :: u) v (by simpa using huv)
    simpa using this

/-- `str.strip`, by the class of characters it removes. -/
def strip (space : Char → Bool) (s : String) : String :=
  String.ofList ((s.toList.dropWhile space).rdropWhile space)

theorem strip_of_forall {space : Char → Bool} {s : String} (h : ∀ c ∈ s.toList, space c = false) :
    strip space s = s := by
  have hleft : s.toList.dropWhile space = s.toList := by
    cases hs : s.toList with
    | nil => rfl
    | cons c cs => exact List.dropWhile_cons_of_neg (by simp [h c (by simp [hs])])
  have hright : s.toList.rdropWhile space = s.toList := by
    rw [List.rdropWhile_eq_self_iff]
    intro hne
    simp [h _ (List.getLast_mem hne)]
  rw [strip, hleft, hright, String.ofList_toList]

end SwarmCloud.Lib
