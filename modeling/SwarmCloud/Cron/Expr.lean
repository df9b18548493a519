import Mathlib.Data.Finset.Sort
import Mathlib.Data.Finset.Lattice.Basic
import Mathlib.Order.Interval.Finset.Nat
import SwarmCloud.Lib.Calendar
import SwarmCloud.Lib.Decimal
import SwarmCloud.Lib.Results
import SwarmCloud.Lib.Substrings
import SwarmCloud.Quota.Broker

/-! # Cron expressions

`cronexpr.py`: the parser of five-field expressions, and the days an expression
names. A day is its ordinal in the calendar; the sets of an expression hold
allowed values, with day of week 7 folded to 0. What the interpreter knows about
characters outside ASCII is a parameter.
-/

namespace SwarmCloud.Cron

open Lib

/-- What `str` and `int` do with a character; the laws say what they do with ASCII. -/
structure Python where
  upper : Char → List Char
  lower : List Char → List Char
  isdigit : Char → Bool
  /-- The value of a decimal digit: what `\d` matches and `int` reads. -/
  decimal : Char → Option Nat
  repr : List Char → String
  upper_ascii : ∀ c, c.toNat < 128 → upper c = [c.toUpper]
  lower_ascii : ∀ text, (∀ c ∈ text, c.toNat < 128) → lower text = text.map Char.toLower
  lower_digit : ∀ text, ∀ c ∈ text, c.isDigit = true → c ∈ lower text
  isdigit_ascii : ∀ c, c.toNat < 128 → isdigit c = c.isDigit
  decimal_ascii : ∀ c, c.toNat < 128 → decimal c = if c.isDigit then some (digitValue c) else none
  isdigit_of_decimal : ∀ c, (decimal c).isSome → isdigit c = true

/-- An interpreter that knows ASCII only. -/
def Python.ascii : Python where
  upper c := [c.toUpper]
  lower text := text.map Char.toLower
  isdigit := Char.isDigit
  decimal c := if c.isDigit then some (digitValue c) else none
  repr text := "'" ++ String.ofList text ++ "'"
  upper_ascii _ _ := rfl
  lower_ascii _ _ := rfl
  lower_digit text c hmem hc := by
    have hsame : c.toLower = c := by
      unfold Char.toLower
      rw [dif_neg]
      simp only [Char.isDigit, Bool.and_eq_true, decide_eq_true_eq, UInt32.le_iff_toNat_le, ge_iff_le] at hc ⊢
      have hlow : 'A'.val.toNat = 65 := rfl
      have hnine : '9'.val.toNat = 57 := rfl
      omega
    exact List.mem_map.mpr ⟨c, hmem, hsame⟩
  isdigit_ascii _ _ := rfl
  decimal_ascii _ _ := rfl
  isdigit_of_decimal c h := by
    by_contra hnot
    rw [if_neg hnot] at h
    cases h

/-- The five fields, in the order of the text. -/
inductive CronField
  | minute
  | hour
  | dayOfMonth
  | month
  | dayOfWeek
deriving DecidableEq, Repr

namespace CronField

def bounds : CronField → Nat × Nat
  | minute => (0, 59)
  | hour => (0, 23)
  | dayOfMonth => (1, 31)
  | month => (1, 12)
  | dayOfWeek => (0, 7)

def low (field : CronField) : Nat := field.bounds.1

def high (field : CronField) : Nat := field.bounds.2

def label : CronField → String
  | minute => "minute"
  | hour => "hour"
  | dayOfMonth => "day of month"
  | month => "month"
  | dayOfWeek => "day of week"

end CronField

def monthNames : List String :=
  ["JAN", "FEB", "MAR", "APR", "MAY", "JUN", "JUL", "AUG", "SEP", "OCT", "NOV", "DEC"]

def dayNames : List String := ["SUN", "MON", "TUE", "WED", "THU", "FRI", "SAT"]

def aliases : List (String × String) :=
  [("@hourly", "0 * * * *"), ("@daily", "0 0 * * *"), ("@weekly", "0 0 * * 0"), ("@monthly", "0 0 1 * *")]

structure CronError where
  code : String
  message : String
deriving DecidableEq, Repr

/-- What `parse` raises: its own error, or the `ValueError` of `int`. -/
inductive Refusal
  | cron (error : CronError)
  | value
deriving DecidableEq, Repr

def cronError (code message : String) : Refusal := .cron ⟨code, message⟩

structure CronExpr where
  source : List Char
  minutes : Finset Nat
  hours : Finset Nat
  days : Finset Nat
  months : Finset Nat
  weekdays : Finset Nat
  daysRestricted : Bool
  weekdaysRestricted : Bool
deriving DecidableEq

/-- Both day fields restricted: a day that either names fires. -/
def CronExpr.dayMatches (expr : CronExpr) (day : Int) : Bool :=
  let date := Date.ofOrdinal day
  let inDom := decide (date.day ∈ expr.days)
  let inDow := decide (weekday day ∈ expr.weekdays)
  if date.month ∉ expr.months then false
  else if expr.daysRestricted && expr.weekdaysRestricted then inDom || inDow
  else inDom && inDow

/-! ## Fields -/

def substituteNames (text : List Char) (names : List String) (base : Nat) : List Char :=
  (names.zipIdx base).foldl (fun text name => replaceAll name.1.toList (digitsOf name.2) text) text

/-- The text of a field as it is read: upper case, with the names of its field replaced. -/
def CronField.rewritten (py : Python) (field : CronField) (text : List Char) : List Char :=
  let upper := text.flatMap py.upper
  match field with
  | month => substituteNames upper monthNames 1
  | dayOfWeek => substituteNames upper dayNames 0
  | _ => upper

def isQuartz (c : Char) : Bool := c = 'L' || c = 'W' || c = '#' || c = '?'

def isAllowed (py : Python) (c : Char) : Bool :=
  py.isdigit c || c = '*' || c = ',' || c = '-' || c = '/'

def checkChars (py : Python) (field : CronField) (text : List Char) : List Char → Except Refusal Unit
  | [] => .ok ()
  | c :: more =>
    if isQuartz c then
      .error (cronError "quartz_syntax"
        (field.label ++ ": " ++ py.repr [c] ++ " is Quartz syntax, which this cron does not support"))
    else if !isAllowed py c then
      .error (cronError "bad_character"
        (field.label ++ ": " ++ py.repr [c] ++ " is not allowed in " ++ py.repr text))
    else checkChars py field text more

def Python.isDecimal (py : Python) (c : Char) : Bool := (py.decimal c).isSome

/-- `int(text)`; it refuses more than 4300 digits. -/
def Python.int (py : Python) (text : List Char) : Except Refusal Nat :=
  if 4300 < text.length then .error .value
  else .ok (text.foldl (fun n c => 10 * n + (py.decimal c).getD 0) 0)

/-- The groups of `_ELEMENT`: `*` or one or two numbers, and a step. -/
structure ElementMatch where
  /-- `none` is `*`. -/
  span : Option (List Char × Option (List Char))
  step : Option (List Char)
deriving DecidableEq, Repr

/-- The end of an element: nothing, or `/` and a number. -/
def matchStep (py : Python) (span : Option (List Char × Option (List Char))) :
    List Char → Option ElementMatch
  | [] => some ⟨span, none⟩
  | '/' :: digits => if digits ≠ [] ∧ digits.all py.isDecimal then some ⟨span, some digits⟩ else none
  | _ => none

/-- What follows the first number of an element. -/
def matchLast (py : Python) (first : List Char) : List Char → Option ElementMatch
  | '-' :: more =>
    let last := more.takeWhile py.isDecimal
    if last = [] then none else matchStep py (some (first, some last)) (more.dropWhile py.isDecimal)
  | rest => matchStep py (some (first, none)) rest

def matchElement (py : Python) (element : List Char) : Option ElementMatch :=
  match element with
  | '*' :: rest => matchStep py none rest
  | _ =>
    let first := element.takeWhile py.isDecimal
    if first = [] then none else matchLast py first (element.dropWhile py.isDecimal)

/-- `range(start, stop, step)` as a set. -/
def stepsFrom (start stop step : Nat) : Finset Nat :=
  (Finset.Ico start stop).filter fun value => (value - start) % step = 0

def natText (n : Nat) : String := String.ofList (digitsOf n)

/-- The numbers an element begins and ends with, before they are checked. -/
def spanOf (py : Python) (field : CronField) (found : ElementMatch) : Except Refusal (Nat × Nat) :=
  match found.span with
  | none => .ok (field.low, field.high)
  | some (first, none) => do
    let start ← py.int first
    return (start, if found.step.isSome then field.high else start)
  | some (first, some last) => do
    let start ← py.int first
    let stop ← py.int last
    return (start, stop)

def stepOf (py : Python) (found : ElementMatch) : Except Refusal Nat :=
  match found.step with
  | none => .ok 1
  | some digits => py.int digits

/-- The values of an element, after its numbers are checked. -/
def valuesOf (py : Python) (field : CronField) (element : List Char) (start stop step : Nat) :
    Except Refusal (Finset Nat) :=
  let outside := fun value : Nat => cronError "out_of_range"
    (field.label ++ ": " ++ natText value ++ " is outside " ++ natText field.low ++ "-" ++ natText field.high)
  if start < field.low ∨ field.high < start then .error (outside start)
  else if stop < field.low ∨ field.high < stop then .error (outside stop)
  else if stop < start then
    .error (cronError "reversed_range" (field.label ++ ": " ++ py.repr element ++ " runs backwards"))
  else if step < 1 ∨ field.high - field.low + 1 < step then
    .error (cronError "bad_step" (field.label ++ ": the step in " ++ py.repr element ++ " must be 1-" ++
      natText (field.high - field.low + 1)))
  else .ok (stepsFrom start (stop + 1) step)

def parseElement (py : Python) (field : CronField) (element : List Char) : Except Refusal (Finset Nat) :=
  match matchElement py element with
  | none => .error (cronError "bad_field"
      (field.label ++ ": " ++ py.repr element ++ " is not N, A-B, * or a step of one"))
  | some found => do
    let bounds ← spanOf py field found
    let step ← stepOf py found
    valuesOf py field element bounds.1 bounds.2 step

def parseElements (py : Python) (field : CronField) : List (List Char) → Except Refusal (Finset Nat)
  | [] => .ok ∅
  | element :: more => do
    let values ← parseElement py field element
    let others ← parseElements py field more
    return values ∪ others

def CronField.folded (field : CronField) (values : Finset Nat) : Finset Nat :=
  if field = dayOfWeek ∧ 7 ∈ values then insert 0 (values.erase 7) else values

def parseField (py : Python) (field : CronField) (text : List Char) : Except Refusal (Finset Nat) := do
  checkChars py field text (field.rewritten py text)
  let values ← parseElements py field ((field.rewritten py text).splitOn ',')
  return field.folded values

/-! ## Expressions -/

def canFire (expr : CronExpr) : Bool :=
  if expr.weekdaysRestricted then true
  else decide (∃ month ∈ expr.months, ∃ day ∈ expr.days, day ≤ longestMonth month)

/-- `text.split()`. -/
def words (text : List Char) : List (List Char) :=
  (text.splitOnP Quota.isSpace).filter (· ≠ [])

/-- The text after an alias is replaced. -/
def expanded (py : Python) (source : List Char) : Except Refusal (List Char) :=
  if source.head? = some '@' then
    match aliases.lookup (String.ofList (py.lower source)) with
    | none => .error (cronError "unknown_alias"
        (String.ofList source ++ " is not supported; the aliases are " ++ ", ".intercalate (aliases.map Prod.fst)))
    | some expression => .ok expression.toList
  else .ok source

/-- The expression of five fields, whether or not it names a day. -/
def parseFields (py : Python) (source minute hour day month week : List Char) : Except Refusal CronExpr := do
  let minutes ← parseField py .minute minute
  let hours ← parseField py .hour hour
  let days ← parseField py .dayOfMonth day
  let months ← parseField py .month month
  let weekdays ← parseField py .dayOfWeek week
  return {
    source := source
    minutes := minutes
    hours := hours
    days := days
    months := months
    weekdays := weekdays
    daysRestricted := day.head? ≠ some '*'
    weekdaysRestricted := week.head? ≠ some '*' }

def parse (py : Python) (text : String) : Except Refusal CronExpr :=
  if text.toList.all Quota.isSpace then .error (cronError "empty" "a cron expression is required")
  else do
    let source := [' '].intercalate (words text.toList)
    let expression ← expanded py source
    match expression.splitOn ' ' with
    | [minute, hour, day, month, week] => do
      let expr ← parseFields py source minute hour day month week
      if canFire expr then return expr
      else .error (cronError "never_fires"
        (String.ofList source ++ " names no day that exists, so it would never fire"))
    | fields =>
      if fields.length = 6 then
        .error (cronError "seconds_field" "six fields: a seconds field is not supported; use five")
      else .error (cronError "field_count" (natText fields.length ++
        " fields: an expression is minute, hour, day of month, month, day of week"))

end SwarmCloud.Cron
