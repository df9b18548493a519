import Mathlib.Data.List.DropRight
import SwarmCloud.Lib.Results
import SwarmCloud.SpecSign.Value

/-! # The canonical encoder

`jcs` writes a value as RFC 8785 has it and refuses a value without a canonical
form. Texts are lists of characters; only the last step makes bytes of them.
-/

namespace SwarmCloud.SpecSign

open Lib

/-- JCS numbers are IEEE doubles, so an integer is exact only within this bound. -/
def maxSafeInteger : Nat := 2 ^ 53 - 1

def maxDepth : Nat := 32

/-- Why a document has no canonical form. -/
inductive SpecNotCanonical where
  | integerRange (path : PyStr)
  | notFinite (path : PyStr)
  | loneSurrogate (path : PyStr)
  | tooDeep (path : PyStr)
  | keyNotString (path : PyStr)
  | noJsonForm (path : PyStr) (typeName : String)
  | unknownFormat (specFormat : Int)
  | metadataNotMap
  | notCovered (field : String) (specFormat : Int)
  | notInteger (field : String) (typeName : String)
  | blockWithoutTenant
  | unknownBlock (block : PyStr)
  | blockNotMap (block : PyStr)
  | unknownKind (kind : PyStr)
  | recordNotMap (kind : PyStr)
  | unknownScope (kind : PyStr)
  | workspaceWithoutTenant (kind : PyStr)
  | platformWithTenant (kind : PyStr)
  | recordWithoutId (kind : PyStr) (name : String)
  | platformSettingsNotMap
  deriving DecidableEq

/-- `str(n)` -/
def intText (n : Int) : List Char :=
  if n < 0 then '-' :: digitsOf n.natAbs else digitsOf n.natAbs

section Message

-- `repr` of a string, which quotes what it prints
variable (repr : PyStr → PyStr)

def SpecNotCanonical.message : SpecNotCanonical → PyStr
  | .integerRange path => path ++ py " is an integer outside +/-(2**53 - 1)"
  | .notFinite path => path ++ py " is not a finite number"
  | .loneSurrogate path => path ++ py " holds a lone surrogate"
  | .tooDeep path => path ++ py " is nested deeper than 32 levels"
  | .keyNotString path => path ++ py " has a key that is not a string"
  | .noJsonForm path typeName =>
    path ++ py (" is a " ++ typeName ++ ", which JSON has no form for")
  | .unknownFormat specFormat =>
    py "spec format " ++ (intText specFormat).map .scalar ++
      py " is not one of (1, 2, 3, 4, 5, 6, 7, 8)"
  | .metadataNotMap => py "metadata is not a map"
  | .notCovered field specFormat =>
    py (field ++ " is set, and format ") ++ (intText specFormat).map .scalar ++
      py " does not cover it"
  | .notInteger field typeName => py (field ++ " is a " ++ typeName ++ ", not an integer")
  | .blockWithoutTenant => py "a settings block names no tenant"
  | .unknownBlock block =>
    py "settings block " ++ repr block ++ py (" is not one of ('top', 'merge', " ++
      "'code_intelligence', 'budget', 'quality_gates', 'plugins', 'contract_review')")
  | .blockNotMap block => py "settings block " ++ repr block ++ py " is not a map"
  | .unknownKind kind =>
    py "plugin record kind " ++ repr kind ++
      py " is not one of ('install', 'version', 'intake')"
  | .recordNotMap kind => py "plugin " ++ kind ++ py " record is not a map"
  | .unknownScope kind =>
    py "plugin " ++ kind ++ py " record's scope is not one of ('platform', 'workspace')"
  | .workspaceWithoutTenant kind =>
    py "workspace plugin " ++ kind ++ py " record names no tenant"
  | .platformWithTenant kind => py "platform plugin " ++ kind ++ py " record names a tenant"
  | .recordWithoutId kind name => py "plugin " ++ kind ++ py (" record has no " ++ name)
  | .platformSettingsNotMap => py "platform settings are not a map"

end Message

/-! ## Strings and numbers -/

/-- The characters of `text` if UTF-8 can encode it. -/
def encodable (text : PyStr) (path : PyStr) : Except SpecNotCanonical (List Char) :=
  match scalars text with
  | some chars => .ok chars
  | none => .error (.loneSurrogate path)

def string (text : PyStr) (path : PyStr) : Except SpecNotCanonical (List Char) :=
  (encodable text path).map quote

/-- One digit before the point, the others behind it. -/
def mantissa (digits : List Char) : List Char :=
  if digits.length = 1 then digits else digits.take 1 ++ '.' :: digits.drop 1

/-- ECMAScript's layout of the digits of a positive number, without trailing
zeros, the last of which counts `10 ^ exponent`. -/
def layout (digits : List Char) (exponent : Int) : List Char :=
  let k := digits.length
  let n := exponent + k
  if k ≤ n ∧ n ≤ 21 then digits ++ List.replicate (n - k).toNat '0'
  else if 0 < n ∧ n ≤ 21 then digits.take n.toNat ++ '.' :: digits.drop n.toNat
  else if -6 < n ∧ n ≤ 0 then '0' :: '.' :: (List.replicate (-n).toNat '0' ++ digits)
  else
    let e := n - 1
    mantissa digits ++ 'e' :: (if 0 ≤ e then '+' else '-') :: digitsOf e.natAbs

def positiveNumber (coefficient : Nat) (exponent : Int) : List Char :=
  let digits := digitsOf coefficient
  let stripped := digits.rdropWhile (· == '0')
  layout stripped (exponent + ((digits.length : Int) - (stripped.length : Int)))

def number (x : PyFloat) (path : PyStr) : Except SpecNotCanonical (List Char) :=
  match x with
  | .nonFinite => .error (.notFinite path)
  | .finite negative coefficient exponent =>
    if coefficient = 0 then .ok ['0']
    else if negative then .ok ('-' :: positiveNumber coefficient exponent)
    else .ok (positiveNumber coefficient exponent)

/-! ## Values -/

/-- The names of a map's members, refused in insertion order. -/
def namedMembers {α : Type} (path : PyStr) :
    List (PyKey × α) → Except SpecNotCanonical (List (List Char × α))
  | [] => .ok []
  | (.other, _) :: _ => .error (.keyNotString path)
  | (.str s, a) :: members => do
    let name ← encodable s path
    let named ← namedMembers path members
    return (name, a) :: named

/-- The texts of a map's members, refused in the order they are written in. -/
def memberTexts :
    List (List Char × Except SpecNotCanonical (List Char)) → Except SpecNotCanonical (List (List Char))
  | [] => .ok []
  | (name, encoded) :: members => do
    let text ← encoded
    let texts ← memberTexts members
    return memberText name text :: texts

def keyText : PyKey → PyStr
  | .str s => s
  | .other => []

mutual

def encode (value : PyValue) (path : PyStr) (depth : Nat) : Except SpecNotCanonical (List Char) :=
  match value with
  | .none => .ok ['n', 'u', 'l', 'l']
  | .bool true => .ok ['t', 'r', 'u', 'e']
  | .bool false => .ok ['f', 'a', 'l', 's', 'e']
  | .int n => if maxSafeInteger < n.natAbs then .error (.integerRange path) else .ok (intText n)
  | .float x => number x path
  | .str s => string s path
  | .list items =>
    if maxDepth ≤ depth then .error (.tooDeep path)
    else do
      let texts ← encodeItems items path 0 (depth + 1)
      return '[' :: ([','].intercalate texts ++ [']'])
  | .tuple items =>
    if maxDepth ≤ depth then .error (.tooDeep path)
    else do
      let texts ← encodeItems items path 0 (depth + 1)
      return '[' :: ([','].intercalate texts ++ [']'])
  | .map members =>
    if maxDepth ≤ depth then .error (.tooDeep path)
    else do
      let named ← namedMembers path (encodeMembers members path (depth + 1))
      -- the UTF-16 code units of the raw names, not of their escaped form
      let texts ← memberTexts (sortBy (fun m => utf16be m.1) named)
      return '\x7b' :: ([','].intercalate texts ++ ['\x7d'])
  | .other typeName => .error (.noJsonForm path typeName)

def encodeItems (items : List PyValue) (path : PyStr) (i : Nat) (depth : Nat) :
    Except SpecNotCanonical (List (List Char)) :=
  match items with
  | [] => .ok []
  | v :: items => do
    let text ← encode v (path ++ py "[" ++ (digitsOf i).map .scalar ++ py "]") depth
    let texts ← encodeItems items path (i + 1) depth
    return text :: texts

/-- Each member's encoding, an error still a value: only the first one in the
sorted order is raised. -/
def encodeMembers (members : List (PyKey × PyValue)) (path : PyStr) (depth : Nat) :
    List (PyKey × Except SpecNotCanonical (List Char)) :=
  match members with
  | [] => []
  | (key, v) :: members =>
    (key, encode v (path ++ py "." ++ keyText key) depth) :: encodeMembers members path depth

end

def jcs (value : PyValue) : Except SpecNotCanonical ByteArray :=
  (encode value (py "$") 0).map fun text => (String.ofList text).toUTF8

/-! ## Refused values -/

/-- The errors about a value, which name the path to it. -/
def SpecNotCanonical.atPath : SpecNotCanonical → Bool
  | .integerRange _ | .notFinite _ | .loneSurrogate _ | .tooDeep _ | .keyNotString _ => true
  | .noJsonForm _ _ => true
  | _ => false

theorem encodable_error {s path : PyStr} {e : SpecNotCanonical} (h : encodable s path = .error e) :
    e.atPath = true := by
  unfold encodable at h
  split at h <;> cases h
  rfl

theorem number_error {x : PyFloat} {path : PyStr} {e : SpecNotCanonical}
    (h : number x path = .error e) : e.atPath = true := by
  unfold number at h
  split at h
  · cases h
    rfl
  · split at h
    · cases h
    · split at h <;> cases h

theorem namedMembers_error {α : Type} {path : PyStr} {members : List (PyKey × α)}
    {e : SpecNotCanonical} (h : namedMembers path members = .error e) : e.atPath = true := by
  fun_induction namedMembers path members with
  | case1 => cases h
  | case2 a members =>
    cases h
    rfl
  | case3 s a members ih =>
    obtain h | ⟨name, -, h⟩ := bind_eq_error h
    · exact encodable_error h
    · obtain h | ⟨named, -, h⟩ := bind_eq_error h
      · exact ih h
      · cases h

theorem namedMembers_mem {α : Type} {path : PyStr} {members : List (PyKey × α)}
    {named : List (List Char × α)} (h : namedMembers path members = .ok named) {a : α}
    (ha : a ∈ named.map Prod.snd) : a ∈ members.map Prod.snd := by
  fun_induction namedMembers path members generalizing named with
  | case1 =>
    cases h
    exact ha
  | case2 b members => cases h
  | case3 s b members ih =>
    obtain ⟨name, -, h⟩ := bind_eq_ok h
    obtain ⟨rest, hrest, h⟩ := bind_eq_ok h
    cases h
    obtain rfl | ha := List.mem_cons.mp ha
    · exact List.mem_cons_self
    · exact List.mem_cons_of_mem _ (ih hrest ha)

theorem memberTexts_error {members : List (List Char × Except SpecNotCanonical (List Char))}
    {e : SpecNotCanonical} (h : memberTexts members = .error e) :
    .error e ∈ members.map Prod.snd := by
  induction members with
  | nil => cases h
  | cons m members ih =>
    obtain ⟨name, encoded⟩ := m
    rw [memberTexts] at h
    obtain h | ⟨text, -, h⟩ := bind_eq_error h
    · exact List.mem_cons.mpr (.inl h.symm)
    · obtain h | ⟨texts, -, h⟩ := bind_eq_error h
      · exact List.mem_cons_of_mem _ (ih h)
      · cases h

mutual

theorem encode_error (v : PyValue) (path : PyStr) (depth : Nat) (e : SpecNotCanonical)
    (h : encode v path depth = .error e) : e.atPath = true := by
  cases v with
  | none => cases h
  | bool b => cases b <;> cases h
  | int n =>
    rw [encode] at h
    split at h <;> cases h
    rfl
  | float x => exact number_error h
  | str s => exact encodable_error (map_eq_error h)
  | list items | tuple items =>
    rw [encode] at h
    split at h
    · cases h
      rfl
    · obtain h | ⟨texts, -, h⟩ := bind_eq_error h
      · exact encodeItems_error items path 0 (depth + 1) e h
      · cases h
  | map members =>
    rw [encode] at h
    split at h
    · cases h
      rfl
    · obtain h | ⟨named, hnamed, h⟩ := bind_eq_error h
      · exact namedMembers_error h
      · obtain h | ⟨texts, -, h⟩ := bind_eq_error h
        · have hmem := memberTexts_error h
          rw [List.mem_map] at hmem
          obtain ⟨m, hm, herror⟩ := hmem
          refine encodeMembers_error members path (depth + 1) e ?_
          exact namedMembers_mem hnamed (List.mem_map.mpr ⟨m, mem_sortBy.mp hm, herror⟩)
        · cases h
  | other typeName =>
    cases h
    rfl

theorem encodeItems_error (items : List PyValue) (path : PyStr) (i depth : Nat)
    (e : SpecNotCanonical) (h : encodeItems items path i depth = .error e) : e.atPath = true := by
  cases items with
  | nil => cases h
  | cons v items =>
    rw [encodeItems] at h
    obtain h | ⟨text, -, h⟩ := bind_eq_error h
    · exact encode_error v _ depth e h
    · obtain h | ⟨texts, -, h⟩ := bind_eq_error h
      · exact encodeItems_error items path (i + 1) depth e h
      · cases h

theorem encodeMembers_error (members : List (PyKey × PyValue)) (path : PyStr) (depth : Nat)
    (e : SpecNotCanonical) (h : .error e ∈ (encodeMembers members path depth).map Prod.snd) :
    e.atPath = true := by
  match members with
  | [] => cases h
  | (key, v) :: members =>
    rw [encodeMembers] at h
    obtain h | h := List.mem_cons.mp h
    · exact encode_error v _ depth e h.symm
    · exact encodeMembers_error members path depth e h

end

theorem jcs_error {v : PyValue} {e : SpecNotCanonical} (h : jcs v = .error e) : e.atPath = true :=
  encode_error v _ _ _ (map_eq_error h)

end SwarmCloud.SpecSign
