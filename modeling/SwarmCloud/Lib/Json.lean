import SwarmCloud.Lib.Decimal

/-! # JSON texts

A JSON value, the text of a string as JSON writes it, and a reader of texts
without white space. `Reads text v` says that the reader finds `v` at the start
of `text`, whatever delimiter follows; its rules build up the text of a value
from the texts of its parts. A text has one reading only (`Reads.unique`), so a
writer whose texts all have readings never writes two values alike.
-/

namespace SwarmCloud.Lib

inductive Json where
  | null
  | bool (b : Bool)
  | num (q : ℚ)
  | str (text : List Char)
  | arr (items : List Json)
  | obj (members : List (List Char × Json))

/-! ## Strings -/

def hexDigit (n : Nat) : Char := if n < 10 then Char.ofNat (48 + n) else Char.ofNat (87 + n)

def hexValue (c : Char) : Nat := if c.isDigit then c.toNat - 48 else c.toNat - 87

/-- The characters with a two-character escape, and the letter of it. -/
def shortEscapes : List (Char × Char) :=
  [('"', '"'), ('\\', '\\'), (Char.ofNat 8, 'b'), (Char.ofNat 12, 'f'), ('\n', 'n'), ('\r', 'r'),
    ('\t', 't')]

/-- One character inside quotes: its short escape where it has one, `\u00xx` for
the other control characters, the character itself otherwise. -/
def escapeChar (c : Char) : List Char :=
  match shortEscapes.find? (·.1 == c) with
  | some escape => ['\\', escape.2]
  | none =>
    if c.toNat < 32 then ['\\', 'u', '0', '0', hexDigit (c.toNat / 16), hexDigit (c.toNat % 16)]
    else [c]

def quote (text : List Char) : List Char := '"' :: text.flatMap escapeChar ++ ['"']

def unescape (e : Char) : Char := ((shortEscapes.find? (·.2 == e)).map (·.1)).getD e

/-- The characters up to the closing quote, and what follows it. -/
def readString : List Char → Option (List Char × List Char)
  | [] => none
  | c :: rest =>
    if c = '"' then some ([], rest)
    else if c = '\\' then
      match rest with
      | [] => none
      | e :: rest =>
        if e = 'u' then
          match rest with
          | a :: b :: x :: y :: rest =>
            let code := ((hexValue a * 16 + hexValue b) * 16 + hexValue x) * 16 + hexValue y
            (readString rest).map fun p => (Char.ofNat code :: p.1, p.2)
          | _ => none
        else (readString rest).map fun p => (unescape e :: p.1, p.2)
    else (readString rest).map fun p => (c :: p.1, p.2)

theorem readString_close (rest : List Char) : readString ('"' :: rest) = some ([], rest) := by
  rw [readString.eq_def]
  simp

theorem readString_plain {c : Char} (hq : c ≠ '"') (hb : c ≠ '\\') (rest : List Char) :
    readString (c :: rest) = (readString rest).map fun p => (c :: p.1, p.2) := by
  rw [readString.eq_def]
  simp [hq, hb]

theorem readString_short {e : Char} (he : e ≠ 'u') (rest : List Char) :
    readString ('\\' :: e :: rest) = (readString rest).map fun p => (unescape e :: p.1, p.2) := by
  rw [readString.eq_def]
  simp [he]

theorem readString_control {n : Nat} (h : n < 32) (rest : List Char) :
    readString ('\\' :: 'u' :: '0' :: '0' :: hexDigit (n / 16) :: hexDigit (n % 16) :: rest) =
      (readString rest).map fun p => (Char.ofNat n :: p.1, p.2) := by
  have hhex : ∀ d < 16, hexValue (hexDigit d) = d := by decide
  have hzero : hexValue '0' = 0 := by decide
  rw [readString.eq_def]
  simp [hzero, hhex (n / 16) (by omega), hhex (n % 16) (by omega), Nat.div_add_mod']

theorem readString_escapeChar (c : Char) (rest : List Char) :
    readString (escapeChar c ++ rest) = (readString rest).map fun p => (c :: p.1, p.2) := by
  have htable : ∀ escape ∈ shortEscapes, escape.2 ≠ 'u' ∧ unescape escape.2 = escape.1 := by decide
  unfold escapeChar
  split
  · rename_i escape hfind
    obtain ⟨hletter, hback⟩ := htable escape (List.mem_of_find?_eq_some hfind)
    have hc : escape.1 = c := by simpa using List.find?_some hfind
    rw [← hc, ← hback]
    exact readString_short hletter rest
  · rename_i hfind
    have hother : ∀ escape ∈ shortEscapes, escape.1 ≠ c := by simpa using hfind
    split
    · rename_i hlow
      have hread := readString_control hlow rest
      rwa [Char.ofNat_toNat] at hread
    · exact readString_plain (hother ('"', '"') (by decide)).symm (hother ('\\', '\\') (by decide)).symm rest

theorem readString_flatMap_escapeChar (text rest : List Char) :
    readString (text.flatMap escapeChar ++ '"' :: rest) = some (text, rest) := by
  induction text with
  | nil => exact readString_close rest
  | cons c text ih =>
    rw [List.flatMap_cons, List.append_assoc, readString_escapeChar, ih]
    rfl

/-! ## Values -/

def isNumberChar (c : Char) : Bool := c.isDigit || c = '-' || c = '+' || c = '.' || c = 'e'

/-- `text` without `word` at its start. -/
def skip : List Char → List Char → Option (List Char)
  | [], text => some text
  | _ :: _, [] => none
  | w :: word, c :: text => if w = c then skip word text else none

mutual

/-- The value at the start of a text, and what follows it. Each call takes one
unit of fuel, and the length of the text is enough. -/
def readValue : Nat → List Char → Option (Json × List Char)
  | 0, _ => none
  | _ + 1, [] => none
  | fuel + 1, c :: rest =>
    if c = 'n' then (skip ['u', 'l', 'l'] rest).map fun rest => (.null, rest)
    else if c = 't' then (skip ['r', 'u', 'e'] rest).map fun rest => (.bool true, rest)
    else if c = 'f' then (skip ['a', 'l', 's', 'e'] rest).map fun rest => (.bool false, rest)
    else if c = '"' then (readString rest).map fun p => (.str p.1, p.2)
    else if c = '[' then
      if rest.head? = some ']' then some (.arr [], rest.tail)
      else (readItems fuel rest).map fun p => (.arr p.1, p.2)
    else if c = '\x7b' then
      if rest.head? = some '\x7d' then some (.obj [], rest.tail)
      else (readMembers fuel rest).map fun p => (.obj p.1, p.2)
    else if isNumberChar c then
      some (.num (numberValue (c :: rest.takeWhile isNumberChar)), rest.dropWhile isNumberChar)
    else none

def readItems : Nat → List Char → Option (List Json × List Char)
  | 0, _ => none
  | fuel + 1, text =>
    match readValue fuel text with
    | none => none
    | some (v, rest) =>
      if rest.head? = some ',' then (readItems fuel rest.tail).map fun p => (v :: p.1, p.2)
      else if rest.head? = some ']' then some ([v], rest.tail)
      else none

def readMembers : Nat → List Char → Option (List (List Char × Json) × List Char)
  | 0, _ => none
  | fuel + 1, text =>
    match (skip ['"'] text).bind readString with
    | none => none
    | some (name, rest) =>
      match (skip [':'] rest).bind (readValue fuel) with
      | none => none
      | some (v, rest) =>
        if rest.head? = some ',' then
          (readMembers fuel rest.tail).map fun p => ((name, v) :: p.1, p.2)
        else if rest.head? = some '\x7d' then some ([(name, v)], rest.tail)
        else none

end

/-- No number runs on into `rest`. -/
def Delimited (rest : List Char) : Prop := ∀ c ∈ rest.head?, isNumberChar c = false

def Reads (text : List Char) (v : Json) : Prop :=
  ∀ fuel rest, text.length ≤ fuel → Delimited rest → readValue fuel (text ++ rest) = some (v, rest)

theorem Reads.unique {text : List Char} {v w : Json} (hv : Reads text v) (hw : Reads text w) :
    v = w := by
  have hnone : Delimited [] := by simp [Delimited]
  have hread := (hv text.length [] le_rfl hnone).symm.trans (hw text.length [] le_rfl hnone)
  simpa using hread

section Rules

theorem delimited_cons {c : Char} (h : isNumberChar c = false) (rest : List Char) :
    Delimited (c :: rest) := by
  simpa [Delimited] using h

theorem readValue_none_of_close {c : Char} (hc : c = ']' ∨ c = '\x7d') (fuel : Nat)
    (rest : List Char) : readValue fuel (c :: rest) = none := by
  cases fuel with
  | zero => rfl
  | succ fuel =>
    obtain rfl | rfl := hc <;> simp [readValue, isNumberChar]

/-- What has a reading is not empty and starts with no closing bracket. -/
theorem Reads.head {text : List Char} {v : Json} (h : Reads text v) (rest : List Char) :
    (text ++ rest).head? ≠ some ']' := by
  have hread := h text.length [] le_rfl (by simp [Delimited])
  cases text with
  | nil => cases hread
  | cons c text =>
    intro hhead
    obtain rfl : c = ']' := by simpa using hhead
    rw [List.cons_append, readValue_none_of_close (.inl rfl)] at hread
    cases hread

theorem reads_cons {c : Char} {text : List Char} {v : Json}
    (h : ∀ fuel rest, text.length ≤ fuel → Delimited rest →
      readValue (fuel + 1) (c :: (text ++ rest)) = some (v, rest)) : Reads (c :: text) v := by
  intro fuel rest hfuel hrest
  cases fuel with
  | zero => simp at hfuel
  | succ fuel => exact h fuel rest (by simpa using hfuel) hrest

theorem reads_null : Reads ['n', 'u', 'l', 'l'] .null :=
  reads_cons fun _ _ _ _ => by simp [readValue, skip]

theorem reads_true : Reads ['t', 'r', 'u', 'e'] (.bool true) :=
  reads_cons fun _ _ _ _ => by simp [readValue, skip]

theorem reads_false : Reads ['f', 'a', 'l', 's', 'e'] (.bool false) :=
  reads_cons fun _ _ _ _ => by simp [readValue, skip]

theorem reads_quote (text : List Char) : Reads (quote text) (.str text) := by
  refine reads_cons fun fuel rest _ _ => ?_
  have hread : readString ((text.flatMap escapeChar ++ ['"']) ++ rest) = some (text, rest) := by
    rw [List.append_assoc]
    exact readString_flatMap_escapeChar text rest
  rw [readValue.eq_def]
  simp [-List.append_assoc, hread]

theorem takeWhile_number {text rest : List Char} (htext : ∀ c ∈ text, isNumberChar c = true)
    (hrest : Delimited rest) :
    (text ++ rest).takeWhile isNumberChar = text ∧ (text ++ rest).dropWhile isNumberChar = rest := by
  rw [List.takeWhile_append_of_pos htext, List.dropWhile_append_of_pos htext]
  cases rest with
  | nil => simp
  | cons c rest =>
    have hc : isNumberChar c = false := hrest c rfl
    simp [hc]

theorem reads_number {text : List Char} (hne : text ≠ [])
    (htext : ∀ c ∈ text, isNumberChar c = true) : Reads text (.num (numberValue text)) := by
  cases text with
  | nil => exact absurd rfl hne
  | cons c text =>
    refine reads_cons fun fuel rest _ hrest => ?_
    have hc := htext c List.mem_cons_self
    -- the other openings are no number characters
    have hother : ∀ d, isNumberChar d = false → c ≠ d := by
      rintro d hd rfl
      rw [hc] at hd
      cases hd
    obtain ⟨htake, hdrop⟩ :=
      takeWhile_number (fun d hd => htext d (List.mem_cons_of_mem _ hd)) hrest
    rw [readValue.eq_def]
    simp [hother 'n' (by decide), hother 't' (by decide), hother 'f' (by decide),
      hother '"' (by decide), hother '[' (by decide), hother '\x7b' (by decide), hc, htake, hdrop]

theorem readItems_join {items : List (List Char × Json)} (hne : items ≠ [])
    (h : ∀ item ∈ items, Reads item.1 item.2) (fuel : Nat) (rest : List Char)
    (hfuel : ([','].intercalate (items.map Prod.fst)).length < fuel) :
    readItems fuel ([','].intercalate (items.map Prod.fst) ++ ']' :: rest) =
      some (items.map Prod.snd, rest) := by
  induction items generalizing fuel with
  | nil => exact absurd rfl hne
  | cons item items ih =>
    obtain _ | fuel := fuel
    · cases hfuel
    have hitem := h item List.mem_cons_self
    cases items with
    | nil =>
      have hread := hitem fuel (']' :: rest) (by simpa [Nat.lt_succ_iff] using hfuel)
        (delimited_cons (by decide) rest)
      simp [readItems, hread]
    | cons next items =>
      have hread := hitem fuel (',' :: ([','].intercalate ((next :: items).map Prod.fst) ++ ']' :: rest))
        (by simp at hfuel; omega) (delimited_cons (by decide) _)
      have htail := ih (List.cons_ne_nil _ _) (fun item hi => h item (List.mem_cons_of_mem _ hi)) fuel
        (by simp at hfuel ⊢; omega)
      simp only [List.map_cons, List.intercalate_cons_cons, List.append_assoc, List.cons_append,
        List.nil_append] at hread htail ⊢
      rw [readItems, hread]
      simp [htail]

theorem reads_arr {items : List (List Char × Json)} (h : ∀ item ∈ items, Reads item.1 item.2) :
    Reads ('[' :: ([','].intercalate (items.map Prod.fst) ++ [']'])) (.arr (items.map Prod.snd)) := by
  refine reads_cons fun fuel rest hfuel _ => ?_
  cases items with
  | nil => simp [readValue]
  | cons item items =>
    have hitems := readItems_join (List.cons_ne_nil _ _) h fuel rest (by simpa using hfuel)
    have hopen : ([','].intercalate ((item :: items).map Prod.fst) ++ ']' :: rest).head? ≠ some ']' := by
      have hitem := h item List.mem_cons_self
      cases items with
      | nil => simpa using hitem.head (']' :: rest)
      | cons next items =>
        rw [List.map_cons, List.map_cons, List.intercalate_cons_cons, List.append_assoc, List.append_assoc]
        exact hitem.head _
    rw [readValue.eq_def]
    simp only [List.append_assoc, List.cons_append, List.nil_append, hopen, hitems]
    simp

def memberText (name text : List Char) : List Char := quote name ++ ':' :: text

theorem readMembers_join {members : List (List Char × List Char × Json)} (hne : members ≠ [])
    (h : ∀ m ∈ members, Reads m.2.1 m.2.2) (fuel : Nat) (rest : List Char)
    (hfuel : ([','].intercalate (members.map fun m => memberText m.1 m.2.1)).length < fuel) :
    readMembers fuel
        ([','].intercalate (members.map fun m => memberText m.1 m.2.1) ++ '\x7d' :: rest) =
      some (members.map fun m => (m.1, m.2.2), rest) := by
  have hname : ∀ (name rest : List Char),
      (skip ['"'] (quote name ++ rest)).bind readString = some (name, rest) := by
    intro name rest
    simpa [skip, quote] using readString_flatMap_escapeChar name rest
  induction members generalizing fuel with
  | nil => exact absurd rfl hne
  | cons m members ih =>
    obtain _ | fuel := fuel
    · cases hfuel
    have hm := h m List.mem_cons_self
    cases members with
    | nil =>
      have hread := hm fuel ('\x7d' :: rest) (by simp [memberText] at hfuel; omega)
        (delimited_cons (by decide) rest)
      simp [readMembers, memberText, hname, skip, hread]
    | cons next members =>
      have hread := hm fuel
        (',' :: ([','].intercalate ((next :: members).map fun m => memberText m.1 m.2.1) ++
          '\x7d' :: rest))
        (by simp [memberText] at hfuel; omega) (delimited_cons (by decide) _)
      have htail := ih (List.cons_ne_nil _ _) (fun m hi => h m (List.mem_cons_of_mem _ hi)) fuel
        (by simp [memberText] at hfuel ⊢; omega)
      simp only [List.map_cons, List.intercalate_cons_cons, List.append_assoc, List.cons_append,
        List.nil_append] at hread htail ⊢
      rw [readMembers, memberText, List.append_assoc, hname, List.cons_append]
      simp [skip, hread, htail]

theorem reads_obj {members : List (List Char × List Char × Json)}
    (h : ∀ m ∈ members, Reads m.2.1 m.2.2) :
    Reads ('\x7b' :: ([','].intercalate (members.map fun m => memberText m.1 m.2.1) ++ ['\x7d']))
      (.obj (members.map fun m => (m.1, m.2.2))) := by
  refine reads_cons fun fuel rest hfuel _ => ?_
  cases members with
  | nil => simp [readValue]
  | cons m members =>
    have hmembers := readMembers_join (List.cons_ne_nil _ _) h fuel rest (by simpa using hfuel)
    have hopen : ([','].intercalate ((m :: members).map fun m => memberText m.1 m.2.1) ++
        '\x7d' :: rest).head? ≠ some '\x7d' := by
      rw [List.map_cons, memberText, quote, List.cons_append, List.cons_append,
        List.intercalate_cons_cons_left]
      simp
    rw [readValue.eq_def]
    simp only [List.append_assoc, List.cons_append, List.nil_append, hopen, hmembers]
    simp

end Rules

end SwarmCloud.Lib
