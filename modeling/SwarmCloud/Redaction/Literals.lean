import Mathlib.Algebra.Group.Nat.Defs
import SwarmCloud.Lib.Sorting
import Mathlib.Data.List.Dedup

/-! # The written forms of a learned literal

A credential that was masked once is looked for everywhere else: as it is, and as
JSON text writes it inside a string, once and twice. A text is a list of code
points, surrogates included.
-/

namespace SwarmCloud.Redaction

open Lib

abbrev CodePoint := Fin 0x110000

abbrev Text := List CodePoint

/-- The code points of a Lean string. -/
def textOf (s : String) : Text := s.toList.map fun c => Fin.ofNat 0x110000 c.toNat

/-! ## JSON escapes -/

def hexDigit (upper : Bool) (n : Nat) : CodePoint :=
  Fin.ofNat 0x110000 (if n < 10 then 48 + n else (if upper then 55 else 87) + n)

def hex4 (n : Nat) : Text := [12, 8, 4, 0].map fun shift => hexDigit false (n / 2 ^ shift % 16)

def unicodeEscape (n : Nat) : Text := textOf "\\u" ++ hex4 n

/-- The characters with a two-character escape, and the letter of it. -/
def shortEscapes : List (Nat × String) :=
  [(34, "\""), (92, "\\"), (10, "n"), (13, "r"), (9, "t"), (12, "f"), (8, "b")]

/-- One character of `json.dumps`. -/
def escapeCodePoint (asciiOnly : Bool) (c : CodePoint) : Text :=
  match shortEscapes.lookup c.val with
  | some letter => textOf "\\" ++ textOf letter
  | none =>
    if c.val < 32 then unicodeEscape c.val
    else if asciiOnly && 126 < c.val then
      if c.val < 0x10000 then unicodeEscape c.val
      else
        unicodeEscape (0xD800 + (c.val - 0x10000) / 0x400) ++ unicodeEscape (0xDC00 + (c.val - 0x10000) % 0x400)
    else [c]

/-- `json.dumps(text)[1:-1]`. -/
def escaped (asciiOnly : Bool) (text : Text) : Text := text.flatMap (escapeCodePoint asciiOnly)

def isLowerHex (c : CodePoint) : Bool := (48 ≤ c.val && c.val ≤ 57) || (97 ≤ c.val && c.val ≤ 102)

def upperHex (c : CodePoint) : CodePoint := if 97 ≤ c.val then Fin.ofNat 0x110000 (c.val - 32) else c

/-- The substitution of `_UNICODE_ESCAPE`: hexadecimal digits in upper case. `skip` characters belong to an escape
already found. -/
def upperEscapes : Nat → Text → Text
  | _, [] => []
  | skip + 1, c :: rest => (if skip < 4 then upperHex c else c) :: upperEscapes skip rest
  | 0, c :: rest =>
    if c.val = 92 && rest.head?.any (·.val = 117) && 5 ≤ rest.length && ((rest.drop 1).take 4).all isLowerHex then
      c :: upperEscapes 5 rest
    else c :: upperEscapes 0 rest

/-- `text.replace("/", "\\/")`. -/
def slashesEscaped (text : Text) : Text := text.flatMap fun c => if c.val = 47 then textOf "\\/" else [c]

/-! ## Forms -/

/-- The ways in which one level of JSON writes a text. -/
def written (text : Text) : List Text :=
  [true, false].flatMap fun asciiOnly =>
    [escaped asciiOnly text, upperEscapes 0 (escaped asciiOnly text), slashesEscaped (escaped asciiOnly text)]

/-- No character that JSON escapes. -/
def isPlain (text : Text) : Bool :=
  text.all fun c => c.val < 128 && 32 ≤ c.val && c.val ≠ 34 && c.val ≠ 92 && c.val ≠ 47

/-- Longest first. The order among forms of one length is the set's. -/
def longestFirst (forms : List Text) : List Text := sortBy (fun form => -(form.length : Int)) forms.dedup

/-- `_literal_forms`. -/
def literalForms (literal : Text) : List Text :=
  if isPlain literal then [literal]
  else longestFirst (literal :: written literal ++ (written literal).flatMap written)

/-- `_forms_of`. -/
def formsOf (literals : List Text) : List Text :=
  longestFirst ((literals.filter fun literal => !literal.isEmpty).flatMap literalForms)

/-! ## Bytes -/

/-- `encode("utf-8", "surrogatepass")`, one code point. -/
def utf8 (c : CodePoint) : List UInt8 :=
  let tail (shift : Nat) : UInt8 := UInt8.ofNat (0x80 + c.val / 2 ^ shift % 64)
  if c.val < 0x80 then [UInt8.ofNat c.val]
  else if c.val < 0x800 then [UInt8.ofNat (0xC0 + c.val / 2 ^ 6), tail 0]
  else if c.val < 0x10000 then [UInt8.ofNat (0xE0 + c.val / 2 ^ 12), tail 6, tail 0]
  else [UInt8.ofNat (0xF0 + c.val / 2 ^ 18), tail 12, tail 6, tail 0]

/-- `_encoded_forms`. -/
def encodedForms (literals : List Text) : List (List UInt8) := (formsOf literals).map fun form => form.flatMap utf8

end SwarmCloud.Redaction
