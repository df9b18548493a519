import Mathlib.Data.List.Lex
import SwarmCloud.Lib.Json
import SwarmCloud.Lib.Sorting

/-! # The values a spec is made of

The Python values that reach the encoder, among them those it refuses, and the
JSON value each of the others stands for. Two values are the same JSON when
their meanings are equal: a tuple means the list of its items, a number means
its rational value, and a map means its members in the order of their names, so
the order in which they were inserted is not part of it.
-/

namespace SwarmCloud.SpecSign

open Lib

/-- A code point of a Python string. A string may hold surrogates, each of which
stands alone: UTF-8 has no form for one. -/
inductive PyChar where
  | scalar (c : Char)
  | surrogate (offset : Fin 2048)
  deriving DecidableEq

abbrev PyStr := List PyChar

/-- The string that a literal of the source denotes. -/
def py (text : String) : PyStr := text.toList.map .scalar

/-- The characters of a string without surrogates. -/
def scalars : PyStr → Option (List Char)
  | [] => some []
  | .scalar c :: s => (scalars s).map (c :: ·)
  | .surrogate _ :: _ => none

theorem scalars_eq_some {s : PyStr} {text : List Char} :
    scalars s = some text ↔ s = text.map .scalar := by
  induction s generalizing text with
  | nil => cases text <;> simp [scalars]
  | cons c s ih =>
    cases c with
    | surrogate offset => cases text <;> simp [scalars]
    | scalar c =>
      cases text with
      | nil => simp [scalars]
      | cons d text => simp [scalars, ih, and_comm]

theorem scalars_py (text : String) : scalars (py text) = some text.toList :=
  scalars_eq_some.mpr rfl

theorem py_inj {a b : String} : py a = py b ↔ a = b := by
  constructor
  · intro h
    have hchars := (scalars_py a).symm.trans ((congrArg scalars h).trans (scalars_py b))
    exact String.toList_inj.mp (Option.some.inj hchars)
  · rintro rfl
    rfl

/-- A float, by the decimal that `repr` prints: its sign, its digits as one
number, and the power of ten of the last of them. -/
inductive PyFloat where
  | finite (negative : Bool) (coefficient : Nat) (exponent : Int)
  | nonFinite
  deriving DecidableEq

def PyFloat.value : PyFloat → Option ℚ
  | .finite negative coefficient exponent =>
    some ((if negative then -1 else 1) * ((coefficient : ℚ) * 10 ^ exponent))
  | .nonFinite => none

/-- A key of a map: a string, or a value of another type. -/
inductive PyKey where
  | str (s : PyStr)
  | other
  deriving DecidableEq

def PyKey.name : PyKey → Option (List Char)
  | .str s => scalars s
  | .other => none

theorem PyKey.name_inj {k l : PyKey} {name : List Char} (hk : k.name = some name)
    (hl : l.name = some name) : k = l := by
  cases k with
  | other => cases hk
  | str s =>
    cases l with
    | other => cases hl
    | str t => rw [scalars_eq_some.mp hk, scalars_eq_some.mp hl]

inductive PyValue where
  | none
  | bool (b : Bool)
  | int (n : Int)
  | float (x : PyFloat)
  | str (s : PyStr)
  | list (items : List PyValue)
  | tuple (items : List PyValue)
  | map (members : List (PyKey × PyValue))
  | other (typeName : String)

/-- A map, its members in insertion order. -/
abbrev PyMap := List (PyKey × PyValue)

/-- `type(value).__name__` -/
def PyValue.typeName : PyValue → String
  | .none => "NoneType"
  | .bool _ => "bool"
  | .int _ => "int"
  | .float _ => "float"
  | .str _ => "str"
  | .list _ => "list"
  | .tuple _ => "tuple"
  | .map _ => "dict"
  | .other name => name

def PyValue.isNone : PyValue → Bool
  | .none => true
  | _ => false

/-- `members.get(name)` -/
def PyMap.get (members : PyMap) (name : String) : PyValue :=
  ((members.find? (·.1 == .str (py name))).map Prod.snd).getD .none

def PyMap.DistinctKeys (members : PyMap) : Prop := (members.map Prod.fst).Nodup

/-! ## Meaning -/

/-- The bytes of a text in UTF-16, high byte first. -/
def utf16be (text : List Char) : List Nat :=
  text.flatMap fun c =>
    if c.toNat < 0x10000 then [c.toNat / 256, c.toNat % 256]
    else
      let high := 0xD800 + (c.toNat - 0x10000) / 0x400
      let low := 0xDC00 + (c.toNat - 0x10000) % 0x400
      [high / 256, high % 256, low / 256, low % 256]

mutual

/-- The JSON value, if `v` has one. -/
def PyValue.meaning : PyValue → Option Json
  | .none => some .null
  | .bool b => some (.bool b)
  | .int n => some (.num n)
  | .float x => x.value.map .num
  | .str s => (scalars s).map .str
  | .list items => (meaningItems items).map .arr
  | .tuple items => (meaningItems items).map .arr
  | .map members =>
    (meaningMembers members).map fun named => .obj (sortBy (fun m => utf16be m.1) named)
  | .other _ => Option.none

def meaningItems : List PyValue → Option (List Json)
  | [] => some []
  | v :: items => v.meaning.bind fun j => (meaningItems items).map (j :: ·)

def meaningMembers : List (PyKey × PyValue) → Option (List (List Char × Json))
  | [] => some []
  | (key, v) :: members =>
    key.name.bind fun name => v.meaning.bind fun j => (meaningMembers members).map ((name, j) :: ·)

end

/-- Equal as JSON values. -/
def SameJson (v w : PyValue) : Prop := v.meaning = w.meaning

theorem sameJson_str {s t : PyStr} (hs : ∃ j, (PyValue.str s).meaning = some j)
    (h : SameJson (.str s) (.str t)) : s = t := by
  obtain ⟨j, hj⟩ := hs
  have hj' : (PyValue.str t).meaning = some j := h ▸ hj
  rw [PyValue.meaning] at hj hj'
  obtain ⟨text, htext, rfl⟩ := Option.map_eq_some_iff.mp hj
  obtain ⟨text', htext', heq⟩ := Option.map_eq_some_iff.mp hj'
  cases heq
  rw [scalars_eq_some.mp htext, scalars_eq_some.mp htext']

theorem sameJson_int {m n : Int} (h : SameJson (.int m) (.int n)) : m = n := by
  rw [SameJson, PyValue.meaning, PyValue.meaning] at h
  exact Int.cast_injective (Json.num.inj (Option.some.inj h))

section Maps

variable {ms ms' : PyMap} {named : List (List Char × Json)} {j : Json}

def MemberMeans (m : PyKey × PyValue) (a : List Char × Json) : Prop :=
  m.1.name = some a.1 ∧ m.2.meaning = some a.2

theorem meaningMembers_mem (h : meaningMembers ms = some named) :
    (∀ m ∈ ms, ∃ a ∈ named, MemberMeans m a) ∧ (∀ a ∈ named, ∃ m ∈ ms, MemberMeans m a) := by
  induction ms generalizing named with
  | nil =>
    obtain rfl : [] = named := by simpa [meaningMembers] using h
    simp
  | cons m ms ih =>
    obtain ⟨key, v⟩ := m
    rw [meaningMembers] at h
    obtain ⟨name, hname, h⟩ := Option.bind_eq_some_iff.mp h
    obtain ⟨j, hj, h⟩ := Option.bind_eq_some_iff.mp h
    obtain ⟨rest, hrest, rfl⟩ := Option.map_eq_some_iff.mp h
    have hhead : MemberMeans (key, v) (name, j) := ⟨hname, hj⟩
    obtain ⟨hforth, hback⟩ := ih hrest
    constructor
    · rintro m (_ | ⟨_, hm⟩)
      · exact ⟨_, List.mem_cons_self, hhead⟩
      · obtain ⟨a, ha, hmeans⟩ := hforth m hm
        exact ⟨a, List.mem_cons_of_mem _ ha, hmeans⟩
    · rintro a (_ | ⟨_, ha⟩)
      · exact ⟨_, List.mem_cons_self, hhead⟩
      · obtain ⟨m, hm, hmeans⟩ := hback a ha
        exact ⟨m, List.mem_cons_of_mem _ hm, hmeans⟩

/-- A member of one map has a member of the same name and meaning in every map
with the same meaning. -/
theorem mem_of_same_meaning (h : (PyValue.map ms).meaning = some j)
    (h' : (PyValue.map ms').meaning = some j) {key : PyKey} {v : PyValue} (hm : (key, v) ∈ ms) :
    ∃ v', (key, v') ∈ ms' ∧ v'.meaning = v.meaning := by
  rw [PyValue.meaning] at h h'
  obtain ⟨named, hnamed, rfl⟩ := Option.map_eq_some_iff.mp h
  obtain ⟨named', hnamed', hsorted⟩ := Option.map_eq_some_iff.mp h'
  have hmem : ∀ a, a ∈ named' ↔ a ∈ named := by
    intro a
    rw [← @mem_sortBy _ _ _ (fun m => utf16be m.1), Json.obj.inj hsorted, mem_sortBy]
  obtain ⟨a, ha, hname, hmeans⟩ := (meaningMembers_mem hnamed).1 _ hm
  obtain ⟨m', hm', hname', hmeans'⟩ := (meaningMembers_mem hnamed').2 a ((hmem a).mpr ha)
  have hkey : m'.1 = key := PyKey.name_inj hname' hname
  exact ⟨m'.2, hkey ▸ hm', hmeans'.trans hmeans.symm⟩

theorem PyMap.get_of_mem (hd : ms.DistinctKeys) {name : String} {v : PyValue}
    (hm : (PyKey.str (py name), v) ∈ ms) : ms.get name = v := by
  induction ms with
  | nil => cases hm
  | cons m ms ih =>
    rw [DistinctKeys, List.map_cons, List.nodup_cons] at hd
    obtain rfl | hm := List.mem_cons.mp hm
    · simp [get]
    · have hne : m.1 ≠ .str (py name) := by
        intro heq
        exact hd.1 (List.mem_map.mpr ⟨_, hm, heq.symm⟩)
      have hrest := ih hd.2 hm
      rw [get] at hrest ⊢
      rwa [List.find?_cons_of_neg (by simpa using hne)]

theorem PyMap.get_of_notMem {name : String} (hm : ∀ v, (PyKey.str (py name), v) ∉ ms) :
    ms.get name = .none := by
  have hnone : ms.find? (·.1 == .str (py name)) = none := by
    rw [List.find?_eq_none]
    rintro ⟨key, v⟩ hmem heq
    obtain rfl : key = .str (py name) := by simpa using heq
    exact hm v hmem
  rw [get, hnone]
  rfl

theorem mem_meaning (h : (PyValue.map ms).meaning = some j) {m : PyKey × PyValue} (hm : m ∈ ms) :
    ∃ a, m.2.meaning = some a := by
  rw [PyValue.meaning] at h
  obtain ⟨named, hnamed, -⟩ := Option.map_eq_some_iff.mp h
  obtain ⟨a, -, -, hmeans⟩ := (meaningMembers_mem hnamed).1 m hm
  exact ⟨a.2, hmeans⟩

/-- Maps of one meaning agree under every name. -/
theorem sameJson_get (hd : ms.DistinctKeys) (hd' : ms'.DistinctKeys)
    (h : (PyValue.map ms).meaning = some j) (h' : (PyValue.map ms').meaning = some j)
    (name : String) : SameJson (ms.get name) (ms'.get name) := by
  unfold SameJson
  by_cases hm : ∃ v, (PyKey.str (py name), v) ∈ ms
  · obtain ⟨v, hm⟩ := hm
    obtain ⟨v', hm', hmeaning⟩ := mem_of_same_meaning h h' hm
    rw [PyMap.get_of_mem hd hm, PyMap.get_of_mem hd' hm', hmeaning]
  · rw [not_exists] at hm
    rw [PyMap.get_of_notMem hm, PyMap.get_of_notMem]
    intro v' hm'
    obtain ⟨v, hv, -⟩ := mem_of_same_meaning h' h hm'
    exact hm v hv

end Maps

end SwarmCloud.SpecSign
