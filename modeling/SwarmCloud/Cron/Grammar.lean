import SwarmCloud.Cron.Expr

/-! # The grammar of cron expressions

A reading says how the parts of a text are spelled; the grammar over it says what
a text of five fields denotes. The documented reading takes the text as it
stands, with ASCII numbers and whole names; the reading of the parser is over the
text it has rewritten. `parse` accepts what the grammar accepts in its own
reading, with the sets that the elements denote.
-/

namespace SwarmCloud.Cron

open Lib

structure Reading where
  /-- What is looked up among the aliases. -/
  aliasText : List Char → List Char
  field : CronField → List Char → List Char
  number : CronField → List Char → Nat → Prop
  step : CronField → List Char → Nat → Prop

/-- The values from `first` to `last`, each `step`-th of them. -/
def every (first last step : Nat) : Finset Nat :=
  (Finset.Icc first last).filter fun value => step ∣ value - first

section Grammar

variable (reading : Reading) (field : CronField)

/-- `*`, `N` or `A-B`: its first value, its last, and its last when a step follows. -/
inductive Span : List Char → Nat → Nat → Nat → Prop
  | star : Span ['*'] field.low field.high field.high
  | one {text : List Char} {n : Nat} : reading.number field text n → Span text n n field.high
  | range {text text' : List Char} {n m : Nat} : reading.number field text n → reading.number field text' m →
      Span (text ++ '-' :: text') n m m

inductive Element : List Char → Finset Nat → Prop
  | plain {text : List Char} {first last open' : Nat} : Span reading field text first last open' →
      field.low ≤ first → first ≤ last → last ≤ field.high → Element text (every first last 1)
  | stepped {text digits : List Char} {first last open' step : Nat} : Span reading field text first last open' →
      field.low ≤ first → first ≤ open' → open' ≤ field.high → reading.step field digits step → 1 ≤ step →
      step ≤ field.high - field.low + 1 → Element (text ++ '/' :: digits) (every first open' step)

/-- A comma list of elements. -/
inductive Elements : List Char → Finset Nat → Prop
  | last {text : List Char} {values : Finset Nat} : Element reading field text values → Elements text values
  | more {text rest : List Char} {values others : Finset Nat} : Element reading field text values →
      Elements rest others → Elements (text ++ ',' :: rest) (values ∪ others)

/-- A field and its values, with day of week 7 folded to 0. -/
def FieldReads (text : List Char) (values : Finset Nat) : Prop :=
  ∃ listed, Elements reading field (reading.field field text) listed ∧ field.folded listed = values

end Grammar

/-- The text with one space between its words. -/
def normalised (text : String) : List Char := [' '].intercalate (words text.toList)

/-- The fields of a text: what stands between its spaces, or what the alias that it is stands for. -/
def FieldsOf (reading : Reading) (source : List Char) (fields : List (List Char)) : Prop :=
  fields = source.splitOn ' ' ∨
    ∃ entry ∈ aliases, reading.aliasText source = entry.1.toList ∧ fields = entry.2.toList.splitOn ' '

def CronExpr.NamesDay (expr : CronExpr) : Prop :=
  ∃ date : Date, date.Valid ∧ 1 ≤ date.year ∧ date.year ≤ 9999 ∧ expr.dayMatches date.toOrdinal = true

/-- The grammar accepts the text, and these are the sets it denotes. -/
def Accepts (reading : Reading) (text : String) (expr : CronExpr) : Prop :=
  ∃ minute hour day month week,
    FieldsOf reading (normalised text) [minute, hour, day, month, week] ∧
    FieldReads reading .minute minute expr.minutes ∧ FieldReads reading .hour hour expr.hours ∧
    FieldReads reading .dayOfMonth day expr.days ∧ FieldReads reading .month month expr.months ∧
    FieldReads reading .dayOfWeek week expr.weekdays ∧ expr.source = normalised text ∧
    expr.daysRestricted = decide (day.head? ≠ some '*') ∧
    expr.weekdaysRestricted = decide (week.head? ≠ some '*') ∧ expr.NamesDay

/-! ## The two readings -/

def CronField.names : CronField → List (String × Nat)
  | month => monthNames.zipIdx 1
  | dayOfWeek => dayNames.zipIdx 0
  | _ => []

/-- An ASCII decimal number. -/
def DecimalNumber (text : List Char) (n : Nat) : Prop :=
  text ≠ [] ∧ (∀ c ∈ text, c.isDigit = true) ∧ ofDigits text = n

/-- A whole name in either case of its letters. -/
def WholeName (field : CronField) (text : List Char) (n : Nat) : Prop :=
  (String.ofList (text.map Char.toUpper), n) ∈ field.names

def documented : Reading where
  aliasText word := word.map Char.toLower
  field _ text := text
  number field text n := DecimalNumber text n ∨ WholeName field text n
  step _ := DecimalNumber

def Python.Number (py : Python) (text : List Char) (n : Nat) : Prop :=
  text ≠ [] ∧ (∀ c ∈ text, py.isDecimal c = true) ∧ py.int text = .ok n

def rewriting (py : Python) : Reading where
  aliasText source := if source.head? = some '@' then py.lower source else source
  field field text := field.rewritten py text
  number _ := py.Number
  step _ := py.Number

/-! ## Elements -/

variable {py : Python} {field : CronField}

theorem Python.isDecimal_false {c : Char} (h : c.toNat < 128) (hc : c.isDigit = false) :
    py.isDecimal c = false := by
  rw [Python.isDecimal, py.decimal_ascii c h, if_neg (by simp [hc])]
  rfl

/-- The number texts that the groups hold. -/
def ElementMatch.numbers (found : ElementMatch) : List (List Char) :=
  (match found.span with
    | none => []
    | some (first, none) => [first]
    | some (first, some last) => [first, last]) ++ found.step.toList

def spanText : Option (List Char × Option (List Char)) → List Char
  | none => ['*']
  | some (first, none) => first
  | some (first, some last) => first ++ '-' :: last

def stepText : Option (List Char) → List Char
  | none => []
  | some digits => '/' :: digits

def Python.Digits (py : Python) (text : List Char) : Prop := text ≠ [] ∧ ∀ c ∈ text, py.isDecimal c = true

theorem matchStep_eq_some {span : Option (List Char × Option (List Char))} {rest : List Char}
    {found : ElementMatch} :
    matchStep py span rest = some found ↔
      found.span = span ∧ rest = stepText found.step ∧ ∀ digits ∈ found.step, py.Digits digits := by
  constructor
  · intro h
    unfold matchStep at h
    split at h
    · cases h
      exact ⟨rfl, rfl, fun digits hdigits => by simp at hdigits⟩
    · rename_i digits
      split at h
      · rename_i hdigits
        cases h
        refine ⟨rfl, rfl, ?_⟩
        intro digits' hmem
        cases hmem
        exact ⟨hdigits.1, List.all_eq_true.mp hdigits.2⟩
      · cases h
    · cases h
  · obtain ⟨span', step⟩ := found
    rintro ⟨rfl, rfl, hdigits⟩
    cases step with
    | none => rfl
    | some digits =>
      obtain ⟨hne, hall⟩ := hdigits digits rfl
      rw [stepText, matchStep, if_pos ⟨hne, List.all_eq_true.mpr hall⟩]

theorem stepText_head {step : Option (List Char)} {c : Char} {rest : List Char} (h : stepText step = c :: rest) :
    c = '/' := by
  cases step with
  | none => cases h
  | some digits =>
    cases h
    rfl

/-- The run of digits that a text begins with ends where something else stands. -/
theorem takeWhile_run {digits rest : List Char} (hdigits : ∀ c ∈ digits, py.isDecimal c = true)
    (hrest : ∀ c ∈ rest.head?, py.isDecimal c = false) :
    (digits ++ rest).takeWhile py.isDecimal = digits ∧ (digits ++ rest).dropWhile py.isDecimal = rest := by
  have htake : rest.takeWhile py.isDecimal = [] ∧ rest.dropWhile py.isDecimal = rest := by
    cases rest with
    | nil => exact ⟨rfl, rfl⟩
    | cons c rest =>
      have hc := hrest c rfl
      simp [hc]
  rw [List.takeWhile_append_of_pos hdigits, List.dropWhile_append_of_pos hdigits, htake.1, htake.2]
  exact ⟨List.append_nil digits, rfl⟩

theorem digits_takeWhile {element : List Char} (h : element.takeWhile py.isDecimal ≠ []) :
    py.Digits (element.takeWhile py.isDecimal) :=
  ⟨h, fun _ hc => List.mem_takeWhile_imp hc⟩

theorem head_ne_star {first rest : List Char} (h : py.Digits first) : ∀ more, first ++ rest ≠ '*' :: more := by
  intro more heq
  obtain ⟨hne, hall⟩ := h
  cases first with
  | nil => exact hne rfl
  | cons c first =>
    cases heq
    have hstar : py.isDecimal '*' = false := Python.isDecimal_false (by decide) (by decide)
    rw [hall '*' List.mem_cons_self] at hstar
    cases hstar

theorem matchElement_number {first rest : List Char} (hfirst : py.Digits first)
    (hrest : ∀ c ∈ rest.head?, py.isDecimal c = false) :
    matchElement py (first ++ rest) = matchLast py first rest := by
  obtain ⟨htake, hdrop⟩ := takeWhile_run hfirst.2 hrest
  unfold matchElement
  split
  · exact absurd ‹_› (head_ne_star hfirst _)
  · rw [htake, hdrop]
    exact if_neg hfirst.1

theorem stepText_not_decimal (step : Option (List Char)) :
    ∀ c ∈ (stepText step).head?, py.isDecimal c = false := by
  intro c hc
  cases step with
  | none => cases hc
  | some digits =>
    cases hc
    exact Python.isDecimal_false (by decide) (by decide)

theorem matchLast_eq_some {first rest : List Char} {found : ElementMatch} :
    matchLast py first rest = some found ↔
      (∃ last, found.span = some (first, some last) ∧ rest = '-' :: (last ++ stepText found.step) ∧
        py.Digits last ∧ ∀ digits ∈ found.step, py.Digits digits) ∨
      (found.span = some (first, none) ∧ rest = stepText found.step ∧ ∀ digits ∈ found.step, py.Digits digits) := by
  constructor
  · intro h
    unfold matchLast at h
    split at h
    · rename_i more
      dsimp only at h
      split at h
      · cases h
      · rename_i hlast
        obtain ⟨hspan, hrest, hdigits⟩ := matchStep_eq_some.mp h
        refine .inl ⟨more.takeWhile py.isDecimal, hspan, ?_, digits_takeWhile hlast, hdigits⟩
        rw [← hrest, List.takeWhile_append_dropWhile]
    · exact .inr (matchStep_eq_some.mp h)
  · rintro (⟨last, hspan, rfl, hlast, hdigits⟩ | ⟨hspan, rfl, hdigits⟩)
    · obtain ⟨htake, hdrop⟩ := takeWhile_run hlast.2 (stepText_not_decimal found.step)
      simp only [matchLast, htake, hdrop, if_neg hlast.1]
      exact matchStep_eq_some.mpr ⟨hspan, rfl, hdigits⟩
    · unfold matchLast
      split
      · exact absurd (stepText_head ‹_›) (by decide)
      · exact matchStep_eq_some.mpr ⟨hspan, rfl, hdigits⟩

/-- The groups of a match are the parts of the element, and hold digits. -/
theorem matchElement_eq_some {element : List Char} {found : ElementMatch} :
    matchElement py element = some found ↔
      element = spanText found.span ++ stepText found.step ∧ ∀ digits ∈ found.numbers, py.Digits digits := by
  constructor
  · intro h
    unfold matchElement at h
    split at h
    · obtain ⟨hspan, hrest, hdigits⟩ := matchStep_eq_some.mp h
      rw [ElementMatch.numbers, hspan, hrest]
      exact ⟨rfl, fun digits hmem => hdigits digits (by simpa using hmem)⟩
    · dsimp only at h
      split at h
      · cases h
      · rename_i hne
        have hfirst := digits_takeWhile hne
        have hsplit := List.takeWhile_append_dropWhile (p := py.isDecimal) (l := element)
        rcases matchLast_eq_some.mp h with ⟨last, hspan, hrest, hlast, hdigits⟩ | ⟨hspan, hrest, hdigits⟩
        · rw [ElementMatch.numbers, hspan, spanText, List.append_assoc, List.cons_append, ← hrest, hsplit]
          refine ⟨rfl, ?_⟩
          simp only [List.cons_append, List.nil_append, List.mem_cons, Option.mem_toList]
          rintro digits (rfl | rfl | hmem)
          · exact hfirst
          · exact hlast
          · exact hdigits digits hmem
        · rw [ElementMatch.numbers, hspan, spanText, ← hrest, hsplit]
          refine ⟨rfl, ?_⟩
          simp only [List.cons_append, List.nil_append, List.mem_cons, Option.mem_toList]
          rintro digits (rfl | hmem)
          · exact hfirst
          · exact hdigits digits hmem
  · obtain ⟨span, step⟩ := found
    rintro ⟨rfl, hdigits⟩
    have hstep : ∀ digits ∈ step, py.Digits digits := by
      intro digits hmem
      exact hdigits digits (List.mem_append_right _ (by simpa using hmem))
    rcases span with _ | ⟨first, _ | last⟩
    · exact matchStep_eq_some.mpr ⟨rfl, rfl, hstep⟩
    · have hfirst : py.Digits first := hdigits first (by simp [ElementMatch.numbers])
      rw [spanText, matchElement_number hfirst (stepText_not_decimal step)]
      exact matchLast_eq_some.mpr (.inr ⟨rfl, rfl, hstep⟩)
    · have hfirst : py.Digits first := hdigits first (by simp [ElementMatch.numbers])
      have hlast : py.Digits last := hdigits last (by simp [ElementMatch.numbers])
      have hdash : ∀ c ∈ ('-' :: (last ++ stepText step)).head?, py.isDecimal c = false := by
        intro c hc
        cases hc
        exact Python.isDecimal_false (by decide) (by decide)
      rw [spanText, List.append_assoc, List.cons_append, matchElement_number hfirst hdash]
      exact matchLast_eq_some.mpr (.inl ⟨last, rfl, rfl, hlast, hstep⟩)

theorem stepsFrom_eq_every (first last step : Nat) : stepsFrom first (last + 1) step = every first last step := by
  ext value
  simp only [stepsFrom, every, Finset.mem_filter, Finset.mem_Ico, Finset.mem_Icc, Nat.lt_succ_iff,
    Nat.dvd_iff_mod_eq_zero]

theorem Python.Digits.number {digits : List Char} {n : Nat} (h : py.Digits digits) (hint : py.int digits = .ok n) :
    py.Number digits n :=
  ⟨h.1, h.2, hint⟩

/-- The span and the step of an element, each as the grammar has it. -/
theorem span_of_match {found : ElementMatch} {start stop : Nat} (hdigits : ∀ digits ∈ found.numbers, py.Digits digits)
    (h : spanOf py field found = .ok (start, stop)) :
    ∃ last open', Span (rewriting py) field (spanText found.span) start last open' ∧
      stop = if found.step.isSome then open' else last := by
  obtain ⟨span, step⟩ := found
  match span with
  | none =>
    cases h
    exact ⟨_, _, .star, by simp⟩
  | some (first, none) =>
    obtain ⟨n, hn, hrest⟩ := bind_eq_ok h
    cases hrest
    exact ⟨_, _, .one ((hdigits first (by simp [ElementMatch.numbers])).number hn), rfl⟩
  | some (first, some last) =>
    obtain ⟨n, hn, hrest⟩ := bind_eq_ok h
    obtain ⟨m, hm, hrest⟩ := bind_eq_ok hrest
    cases hrest
    have hfirst := (hdigits first (by simp [ElementMatch.numbers])).number hn
    have hlast := (hdigits last (by simp [ElementMatch.numbers])).number hm
    exact ⟨_, _, .range hfirst hlast, by simp⟩

theorem valuesOf_eq_ok {element : List Char} {start stop step : Nat} {values : Finset Nat} :
    valuesOf py field element start stop step = .ok values ↔
      field.low ≤ start ∧ start ≤ stop ∧ stop ≤ field.high ∧ 1 ≤ step ∧ step ≤ field.high - field.low + 1 ∧
        every start stop step = values := by
  rw [← stepsFrom_eq_every]
  constructor
  · intro h
    unfold valuesOf at h
    dsimp only at h
    split at h
    · cases h
    · split at h
      · cases h
      · split at h
        · cases h
        · split at h
          · cases h
          · cases h
            exact ⟨by omega, by omega, by omega, by omega, by omega, rfl⟩
  · rintro ⟨hlow, hle, hhigh, hone, hwidth, rfl⟩
    unfold valuesOf
    dsimp only
    rw [if_neg (by omega), if_neg (by omega), if_neg (by omega), if_neg (by omega)]

theorem element_of_parseElement {text : List Char} {values : Finset Nat}
    (h : parseElement py field text = .ok values) : Element (rewriting py) field text values := by
  unfold parseElement at h
  split at h
  · cases h
  · rename_i found hfound
    obtain ⟨rfl, hdigits⟩ := matchElement_eq_some.mp hfound
    obtain ⟨⟨start, stop⟩, hspan, h⟩ := bind_eq_ok h
    obtain ⟨step, hstep, h⟩ := bind_eq_ok h
    obtain ⟨hlow, hle, hhigh, hone, hwidth, rfl⟩ := valuesOf_eq_ok.mp h
    obtain ⟨last, open', hgrammar, rfl⟩ := span_of_match hdigits hspan
    obtain ⟨span, group⟩ := found
    cases group with
    | none =>
      cases hstep
      rw [stepText, List.append_nil]
      exact .plain hgrammar hlow hle hhigh
    | some digits =>
      have hnumber : py.Number digits step :=
        (hdigits digits (List.mem_append_right _ (by simp))).number hstep
      exact .stepped hgrammar hlow hle hhigh hnumber hone hwidth

/-- The groups of a text that the grammar takes for a span. -/
theorem exists_span_group {text : List Char} {first last open' : Nat}
    (h : Span (rewriting py) field text first last open') :
    ∃ span, spanText span = text ∧ (∀ digits ∈ ElementMatch.numbers ⟨span, none⟩, py.Digits digits) ∧
      ∀ step, spanOf py field ⟨span, step⟩ = .ok (first, if step.isSome then open' else last) := by
  cases h with
  | star =>
    refine ⟨none, rfl, ?_, fun step => by simp [spanOf]⟩
    intro digits hmem
    cases hmem
  | one hnumber =>
    obtain ⟨hne, hall, hint⟩ := hnumber
    refine ⟨some (text, none), rfl, ?_, ?_⟩
    · intro digits hmem
      rw [List.mem_singleton.mp hmem]
      exact ⟨hne, hall⟩
    · intro step
      simp only [spanOf, hint]
      rfl
  | @range text text' n m hfirst hlast =>
    obtain ⟨hne, hall, hint⟩ := hfirst
    obtain ⟨hne', hall', hint'⟩ := hlast
    refine ⟨some (text, some text'), rfl, ?_, ?_⟩
    · intro digits hmem
      rcases List.mem_cons.mp hmem with rfl | hmem
      · exact ⟨hne, hall⟩
      · rw [List.mem_singleton.mp hmem]
        exact ⟨hne', hall'⟩
    · intro step
      simp only [spanOf, hint, hint', ite_self]
      rfl

theorem parseElement_of_element {text : List Char} {values : Finset Nat}
    (h : Element (rewriting py) field text values) : parseElement py field text = .ok values := by
  cases h with
  | plain hspan hlow hle hhigh =>
    obtain ⟨span, rfl, hdigits, hspanOf⟩ := exists_span_group hspan
    have hmatch : matchElement py (spanText span) = some ⟨span, none⟩ :=
      matchElement_eq_some.mpr ⟨by simp [stepText], hdigits⟩
    rw [parseElement, hmatch]
    dsimp only
    rw [hspanOf none]
    exact valuesOf_eq_ok.mpr ⟨hlow, hle, hhigh, le_refl 1, by omega, rfl⟩
  | @stepped text digits first last open' step hspan hlow hle hhigh hstep hone hwidth =>
    obtain ⟨span, rfl, hdigits, hspanOf⟩ := exists_span_group hspan
    obtain ⟨hne, hall, hint⟩ := hstep
    have hmatch : matchElement py (spanText span ++ '/' :: digits) = some ⟨span, some digits⟩ := by
      refine matchElement_eq_some.mpr ⟨rfl, ?_⟩
      intro number hmem
      rcases List.mem_append.mp hmem with hmem | hmem
      · exact hdigits number (List.mem_append_left _ hmem)
      · rw [List.mem_singleton.mp hmem]
        exact ⟨hne, hall⟩
    rw [parseElement, hmatch]
    dsimp only
    rw [hspanOf (some digits)]
    simp only [stepOf, hint]
    exact valuesOf_eq_ok.mpr ⟨hlow, hle, hhigh, hone, hwidth, rfl⟩

/-! ## Fields -/

/-- What an element is written with. -/
def Python.isElementChar (py : Python) (c : Char) : Prop :=
  py.isDecimal c = true ∨ c = '*' ∨ c = '-' ∨ c = '/'

theorem isElementChar_of_span {text : List Char} {first last open' : Nat}
    (h : Span (rewriting py) field text first last open') : ∀ c ∈ text, py.isElementChar c := by
  intro c hc
  cases h with
  | star => exact .inr (.inl (List.mem_singleton.mp hc))
  | one hnumber => exact .inl (hnumber.2.1 c hc)
  | range hfirst hlast =>
    rcases List.mem_append.mp hc with hc | hc
    · exact .inl (hfirst.2.1 c hc)
    · rcases List.mem_cons.mp hc with hc | hc
      · exact .inr (.inr (.inl hc))
      · exact .inl (hlast.2.1 c hc)

theorem isElementChar_of_element {text : List Char} {values : Finset Nat}
    (h : Element (rewriting py) field text values) : ∀ c ∈ text, py.isElementChar c := by
  intro c hc
  cases h with
  | plain hspan => exact isElementChar_of_span hspan c hc
  | stepped hspan hlow hle hhigh hstep =>
    rcases List.mem_append.mp hc with hc | hc
    · exact isElementChar_of_span hspan c hc
    · rcases List.mem_cons.mp hc with hc | hc
      · exact .inr (.inr (.inr hc))
      · exact .inl (hstep.2.1 c hc)

theorem isElementChar_of_elements {text : List Char} {values : Finset Nat}
    (h : Elements (rewriting py) field text values) : ∀ c ∈ text, py.isElementChar c ∨ c = ',' := by
  induction h with
  | last helement => exact fun c hc => .inl (isElementChar_of_element helement c hc)
  | more helement _ ih =>
    intro c hc
    rcases List.mem_append.mp hc with hc | hc
    · exact .inl (isElementChar_of_element helement c hc)
    · rcases List.mem_cons.mp hc with hc | hc
      · exact .inr hc
      · exact ih c hc

theorem comma_not_mem {text : List Char} {values : Finset Nat}
    (h : Element (rewriting py) field text values) : ',' ∉ text := by
  intro hmem
  have hcomma : py.isDecimal ',' = false := Python.isDecimal_false (by decide) (by decide)
  rcases isElementChar_of_element h ',' hmem with hdecimal | hstar | hdash | hslash
  · rw [hdecimal] at hcomma
    cases hcomma
  · exact absurd hstar (by decide)
  · exact absurd hdash (by decide)
  · exact absurd hslash (by decide)

theorem isAllowed_of_elementChar {c : Char} (h : py.isElementChar c ∨ c = ',') :
    isQuartz c = false ∧ isAllowed py c = true := by
  rcases h with (hdecimal | rfl | rfl | rfl) | rfl
  · constructor
    · by_contra hquartz
      have hcases : c = 'L' ∨ c = 'W' ∨ c = '#' ∨ c = '?' := by
        simpa [isQuartz, or_assoc] using Bool.eq_true_of_not_eq_false hquartz
      have hnot : py.isDecimal c = false := by
        rcases hcases with rfl | rfl | rfl | rfl <;> exact Python.isDecimal_false (by decide) (by decide)
      rw [hdecimal] at hnot
      cases hnot
    · simp [isAllowed, py.isdigit_of_decimal c hdecimal]
  all_goals simp [isQuartz, isAllowed]

theorem checkChars_of_elements {text line : List Char} (h : ∀ c ∈ line, py.isElementChar c ∨ c = ',') :
    checkChars py field text line = .ok () := by
  induction line with
  | nil => rfl
  | cons c line ih =>
    obtain ⟨hquartz, hallowed⟩ := isAllowed_of_elementChar (h c List.mem_cons_self)
    rw [checkChars, hquartz, hallowed]
    exact ih fun c' hc' => h c' (List.mem_cons_of_mem c hc')

theorem elements_of_parseElements {pieces : List (List Char)} {values : Finset Nat} (hpieces : pieces ≠ [])
    (h : parseElements py field pieces = .ok values) :
    Elements (rewriting py) field ([','].intercalate pieces) values := by
  induction pieces generalizing values with
  | nil => exact absurd rfl hpieces
  | cons piece more ih =>
    obtain ⟨first, hfirst, h⟩ := bind_eq_ok h
    obtain ⟨others, hothers, h⟩ := bind_eq_ok h
    cases h
    cases more with
    | nil =>
      cases hothers
      rw [Finset.union_empty]
      simpa using Elements.last (element_of_parseElement hfirst)
    | cons next more =>
      rw [List.intercalate_cons_cons, List.append_assoc]
      exact .more (element_of_parseElement hfirst) (ih (by simp) hothers)

theorem parseElements_of_elements {text : List Char} {values : Finset Nat}
    (h : Elements (rewriting py) field text values) :
    parseElements py field (text.splitOn ',') = .ok values := by
  induction h with
  | last helement =>
    rw [List.splitOn_eq_singleton (comma_not_mem helement), parseElements, parseElement_of_element helement]
    simp [parseElements, pure, Except.pure, bind, Except.bind]
  | more helement _ ih =>
    rw [List.splitOn_append_cons_self_of_not_mem (comma_not_mem helement), parseElements,
      parseElement_of_element helement, ih]
    rfl

/-- A field is read exactly as the grammar reads what it is rewritten to. -/
theorem parseField_eq_ok {text : List Char} {values : Finset Nat} :
    parseField py field text = .ok values ↔ FieldReads (rewriting py) field text values := by
  constructor
  · intro h
    obtain ⟨_, -, h⟩ := bind_eq_ok h
    obtain ⟨listed, hlisted, h⟩ := bind_eq_ok h
    cases h
    have helements := elements_of_parseElements (List.splitOn_ne_nil _ _) hlisted
    rw [List.intercalate_splitOn] at helements
    exact ⟨listed, helements, rfl⟩
  · rintro ⟨listed, helements, rfl⟩
    have hchars : checkChars py field text (field.rewritten py text) = .ok () :=
      checkChars_of_elements (isElementChar_of_elements helements)
    have hlisted : parseElements py field ((field.rewritten py text).splitOn ',') = .ok listed :=
      parseElements_of_elements helements
    rw [parseField, hchars]
    simp only [hlisted]
    rfl

/-! ## What the parser rewrites -/

theorem Python.upper_self (py : Python) {c : Char} (h : c.toNat < 128) (hup : c.toUpper = c) : py.upper c = [c] := by
  rw [py.upper_ascii c h, hup]

theorem foldl_replaceAll_around {c : Char} {before after : List Char} {names : List (String × Nat)}
    (h : ∀ name ∈ names, c ∉ name.1.toList ∧ name.1.toList ≠ []) :
    names.foldl (fun text name => replaceAll name.1.toList (digitsOf name.2) text) (before ++ c :: after) =
      names.foldl (fun text name => replaceAll name.1.toList (digitsOf name.2) text) before ++
        c :: names.foldl (fun text name => replaceAll name.1.toList (digitsOf name.2) text) after := by
  induction names generalizing before after with
  | nil => rfl
  | cons name names ih =>
    obtain ⟨hc, hne⟩ := h name List.mem_cons_self
    rw [List.foldl_cons, replaceAll_around hc hne, ih fun other hother => h other (List.mem_cons_of_mem name hother)]
    rfl

theorem rewritten_eq (field : CronField) (text : List Char) :
    field.rewritten py text = field.names.foldl
      (fun text name => replaceAll name.1.toList (digitsOf name.2) text) (text.flatMap py.upper) := by
  cases field <;> simp only [CronField.rewritten, CronField.names, substituteNames, List.foldl_nil]

/-- Characters that neither the upper case nor the names touch. -/
def isSeparator (c : Char) : Prop := c = '*' ∨ c = ',' ∨ c = '-' ∨ c = '/' ∨ c = '@'

theorem not_mem_names {c : Char} (h : isSeparator c) :
    ∀ name ∈ field.names, c ∉ name.1.toList ∧ name.1.toList ≠ [] := by
  rcases h with rfl | rfl | rfl | rfl | rfl <;> cases field <;> decide

/-- A separator parts what is rewritten. -/
theorem rewritten_around {c : Char} (h : isSeparator c) (before after : List Char) :
    field.rewritten py (before ++ c :: after) =
      field.rewritten py before ++ c :: field.rewritten py after := by
  have hupper : py.upper c = [c] := by
    rcases h with rfl | rfl | rfl | rfl | rfl <;> exact py.upper_self (by decide) (by decide)
  rw [rewritten_eq, rewritten_eq, rewritten_eq, List.flatMap_append, List.flatMap_cons, hupper]
  exact foldl_replaceAll_around (not_mem_names h)

theorem rewritten_nil : field.rewritten py [] = [] := by
  rw [rewritten_eq, List.flatMap_nil]
  induction field.names with
  | nil => rfl
  | cons name names ih => exact ih

theorem rewritten_head {c : Char} {text : List Char} (hc : isSeparator c) (h : text.head? = some c) :
    (field.rewritten py text).head? = some c := by
  cases text with
  | nil => cases h
  | cons c' rest =>
    cases h
    have haround := @rewritten_around py field c hc [] rest
    rw [List.nil_append, rewritten_nil, List.nil_append] at haround
    rw [haround]
    rfl

/-! ## What is read -/

theorem first_mem_every {first last step : Nat} (h : first ≤ last) : first ∈ every first last step :=
  Finset.mem_filter.mpr ⟨Finset.mem_Icc.mpr ⟨le_refl first, h⟩, by simp⟩

theorem bounds_of_mem_every {first last step value : Nat} (h : value ∈ every first last step) :
    first ≤ value ∧ value ≤ last :=
  Finset.mem_Icc.mp (Finset.mem_filter.mp h).1

theorem values_of_element {reading : Reading} {text : List Char} {values : Finset Nat}
    (h : Element reading field text values) :
    values.Nonempty ∧ ∀ value ∈ values, field.low ≤ value ∧ value ≤ field.high := by
  cases h with
  | plain _ hlow hle hhigh =>
    refine ⟨⟨_, first_mem_every hle⟩, fun value hvalue => ?_⟩
    obtain ⟨hfrom, huntil⟩ := bounds_of_mem_every hvalue
    exact ⟨le_trans hlow hfrom, le_trans huntil hhigh⟩
  | stepped _ hlow hle hhigh =>
    refine ⟨⟨_, first_mem_every hle⟩, fun value hvalue => ?_⟩
    obtain ⟨hfrom, huntil⟩ := bounds_of_mem_every hvalue
    exact ⟨le_trans hlow hfrom, le_trans huntil hhigh⟩

theorem values_of_elements {reading : Reading} {text : List Char} {values : Finset Nat}
    (h : Elements reading field text values) :
    values.Nonempty ∧ ∀ value ∈ values, field.low ≤ value ∧ value ≤ field.high := by
  induction h with
  | last helement => exact values_of_element helement
  | more helement _ ih =>
    obtain ⟨hnonempty, hbounds⟩ := values_of_element helement
    refine ⟨hnonempty.mono Finset.subset_union_left, fun value hvalue => ?_⟩
    rcases Finset.mem_union.mp hvalue with hvalue | hvalue
    · exact hbounds value hvalue
    · exact ih.2 value hvalue

theorem span_head {text : List Char} {first last open' : Nat} (h : Span (rewriting py) field text first last open') :
    ∃ c rest, text = c :: rest ∧ (c = '*' → first = field.low) := by
  have hnumber : ∀ {text : List Char} {n : Nat}, py.Number text n → ∃ c rest, text = c :: rest ∧ c ≠ '*' := by
    rintro text n ⟨hne, hall, -⟩
    obtain ⟨c, rest, rfl⟩ := List.exists_cons_of_ne_nil hne
    refine ⟨c, rest, rfl, ?_⟩
    rintro rfl
    have hstar : py.isDecimal '*' = false := Python.isDecimal_false (by decide) (by decide)
    rw [hall '*' List.mem_cons_self] at hstar
    cases hstar
  cases h with
  | star => exact ⟨'*', [], rfl, fun _ => rfl⟩
  | one hone =>
    obtain ⟨c, rest, rfl, hc⟩ := hnumber hone
    exact ⟨c, rest, rfl, fun h => absurd h hc⟩
  | @range _ text' _ _ hfirst _ =>
    obtain ⟨c, rest, rfl, hc⟩ := hnumber hfirst
    exact ⟨c, rest ++ '-' :: text', rfl, fun h => absurd h hc⟩

theorem element_head {text : List Char} {values : Finset Nat} (h : Element (rewriting py) field text values) :
    ∃ c rest, text = c :: rest ∧ (c = '*' → field.low ∈ values) := by
  cases h with
  | plain hspan _ hle =>
    obtain ⟨c, rest, rfl, hstar⟩ := span_head hspan
    exact ⟨c, rest, rfl, fun h => hstar h ▸ first_mem_every hle⟩
  | @stepped _ digits _ _ _ _ hspan _ hle =>
    obtain ⟨c, rest, rfl, hstar⟩ := span_head hspan
    exact ⟨c, rest ++ '/' :: digits, rfl, fun h => hstar h ▸ first_mem_every hle⟩

theorem elements_head {text : List Char} {values : Finset Nat} (h : Elements (rewriting py) field text values) :
    ∃ c rest, text = c :: rest ∧ (c = '*' → field.low ∈ values) := by
  cases h with
  | last helement => exact element_head helement
  | @more _ others _ _ helement _ =>
    obtain ⟨c, rest, rfl, hstar⟩ := element_head helement
    exact ⟨c, rest ++ ',' :: others, rfl, fun h => Finset.mem_union_left _ (hstar h)⟩

/-- What a field reads is a set of its values, with the lowest when it begins with `*`. -/
theorem fieldReads_values {text : List Char} {values : Finset Nat} (h : FieldReads (rewriting py) field text values) :
    values.Nonempty ∧
      (∀ value ∈ values, field.low ≤ value ∧ value ≤ field.high ∧ (field = .dayOfWeek → value < 7)) ∧
      (text.head? = some '*' → field.low ∈ values) := by
  obtain ⟨listed, helements, rfl⟩ := h
  obtain ⟨hnonempty, hbounds⟩ := values_of_elements helements
  have hstar : text.head? = some '*' → field.low ∈ listed := by
    intro htext
    obtain ⟨c, rest, hrest, hlow⟩ := elements_head helements
    have hhead := @rewritten_head py field '*' text (.inl rfl) htext
    change (rewriting py).field field text = _ at hrest
    rw [show field.rewritten py text = c :: rest from hrest] at hhead
    exact hlow (Option.some.inj hhead)
  unfold CronField.folded
  split
  · rename_i hseven
    obtain ⟨rfl, hseven⟩ := hseven
    refine ⟨⟨0, Finset.mem_insert_self _ _⟩, ?_, fun _ => Finset.mem_insert_self _ _⟩
    intro value hvalue
    rcases Finset.mem_insert.mp hvalue with rfl | hvalue
    · exact ⟨by decide, by decide, fun _ => by decide⟩
    · obtain ⟨hne, hmem⟩ := Finset.mem_erase.mp hvalue
      obtain ⟨hlow, hhigh⟩ := hbounds value hmem
      have hhigh' : value ≤ 7 := hhigh
      exact ⟨hlow, hhigh, fun _ => by omega⟩
  · rename_i hnot
    refine ⟨hnonempty, ?_, hstar⟩
    intro value hvalue
    obtain ⟨hlow, hhigh⟩ := hbounds value hvalue
    refine ⟨hlow, hhigh, ?_⟩
    rintro rfl
    have hhigh' : value ≤ 7 := hhigh
    have hne : value ≠ 7 := by
      rintro rfl
      exact hnot ⟨rfl, hvalue⟩
    omega

/-! ## Expressions -/

/-- What holds of the sets of every expression that `parse` answers. -/
structure CronExpr.WellFormed (expr : CronExpr) : Prop where
  minutes : expr.minutes.Nonempty ∧ ∀ minute ∈ expr.minutes, minute < 60
  hours : expr.hours.Nonempty ∧ ∀ hour ∈ expr.hours, hour < 24
  days : expr.days.Nonempty ∧ ∀ day ∈ expr.days, 1 ≤ day ∧ day ≤ 31
  months : expr.months.Nonempty ∧ ∀ month ∈ expr.months, 1 ≤ month ∧ month ≤ 12
  weekdays : expr.weekdays.Nonempty ∧ ∀ day ∈ expr.weekdays, day < 7
  daysStarred : expr.daysRestricted = false → 1 ∈ expr.days
  weekdaysStarred : expr.weekdaysRestricted = false → 0 ∈ expr.weekdays

theorem wellFormed_of_reads {expr : CronExpr} {minute hour day month week : List Char}
    (hminute : FieldReads (rewriting py) .minute minute expr.minutes)
    (hhour : FieldReads (rewriting py) .hour hour expr.hours)
    (hday : FieldReads (rewriting py) .dayOfMonth day expr.days)
    (hmonth : FieldReads (rewriting py) .month month expr.months)
    (hweek : FieldReads (rewriting py) .dayOfWeek week expr.weekdays)
    (hdays : expr.daysRestricted = decide (day.head? ≠ some '*'))
    (hweekdays : expr.weekdaysRestricted = decide (week.head? ≠ some '*')) : expr.WellFormed where
  minutes := by
    obtain ⟨hnonempty, hbounds, -⟩ := fieldReads_values hminute
    exact ⟨hnonempty, fun minute hmem => Nat.lt_succ_of_le (hbounds minute hmem).2.1⟩
  hours := by
    obtain ⟨hnonempty, hbounds, -⟩ := fieldReads_values hhour
    exact ⟨hnonempty, fun hour hmem => Nat.lt_succ_of_le (hbounds hour hmem).2.1⟩
  days := by
    obtain ⟨hnonempty, hbounds, -⟩ := fieldReads_values hday
    exact ⟨hnonempty, fun day hmem => ⟨(hbounds day hmem).1, (hbounds day hmem).2.1⟩⟩
  months := by
    obtain ⟨hnonempty, hbounds, -⟩ := fieldReads_values hmonth
    exact ⟨hnonempty, fun month hmem => ⟨(hbounds month hmem).1, (hbounds month hmem).2.1⟩⟩
  weekdays := by
    obtain ⟨hnonempty, hbounds, -⟩ := fieldReads_values hweek
    exact ⟨hnonempty, fun day hmem => (hbounds day hmem).2.2 rfl⟩
  daysStarred := by
    intro hstarred
    rw [hdays, decide_eq_false_iff_not, not_not] at hstarred
    exact (fieldReads_values hday).2.2 hstarred
  weekdaysStarred := by
    intro hstarred
    rw [hweekdays, decide_eq_false_iff_not, not_not] at hstarred
    exact (fieldReads_values hweek).2.2 hstarred

theorem dayMatches_iff {expr : CronExpr} {day : Int} :
    expr.dayMatches day = true ↔
      (Date.ofOrdinal day).month ∈ expr.months ∧
        (if expr.daysRestricted = true ∧ expr.weekdaysRestricted = true then
            (Date.ofOrdinal day).day ∈ expr.days ∨ weekday day ∈ expr.weekdays
          else (Date.ofOrdinal day).day ∈ expr.days ∧ weekday day ∈ expr.weekdays) := by
  unfold CronExpr.dayMatches
  dsimp only
  by_cases hmonth : (Date.ofOrdinal day).month ∈ expr.months
  · rw [if_neg (not_not.mpr hmonth)]
    by_cases hboth : expr.daysRestricted = true ∧ expr.weekdaysRestricted = true
    · rw [if_pos (by simpa using hboth), if_pos hboth]
      simp [hmonth]
    · rw [if_neg (by simpa using hboth), if_neg hboth]
      simp [hmonth]
  · simp [hmonth]

/-- A well-formed expression that can fire names a day, and only such a one does. -/
theorem canFire_iff {expr : CronExpr} (h : expr.WellFormed) : canFire expr = true ↔ expr.NamesDay := by
  have hnames : ∀ month ∈ expr.months, ∀ day, 1 ≤ day ∧ day ≤ longestMonth month → ∀ on ∈ expr.weekdays,
      (expr.daysRestricted = true ∧ expr.weekdaysRestricted = true) ∨ day ∈ expr.days → expr.NamesDay := by
    intro month hmonth day hday on hon hmode
    obtain ⟨date, hvalid, hfrom, huntil, rfl, rfl, rfl⟩ :=
      exists_on_weekday (h.months.2 month hmonth) hday (h.weekdays.2 on hon)
    refine ⟨date, hvalid, hfrom, huntil, dayMatches_iff.mpr ?_⟩
    rw [ofOrdinal_toOrdinal hvalid]
    refine ⟨hmonth, ?_⟩
    split
    · exact .inr hon
    · rename_i hnot
      exact ⟨hmode.resolve_left hnot, hon⟩
  have hlongest : ∀ month ∈ expr.months, 1 ≤ longestMonth month := by
    intro month _
    unfold longestMonth
    split <;> decide
  constructor
  · intro hcan
    obtain ⟨month, hmonth⟩ := h.months.1
    obtain ⟨on, hon⟩ := h.weekdays.1
    unfold canFire at hcan
    split at hcan
    · rename_i hweek
      cases hdays : expr.daysRestricted with
      | true => exact hnames month hmonth 1 ⟨le_refl 1, hlongest month hmonth⟩ on hon (.inl ⟨hdays, hweek⟩)
      | false =>
        exact hnames month hmonth 1 ⟨le_refl 1, hlongest month hmonth⟩ on hon (.inr (h.daysStarred hdays))
    · obtain ⟨month, hmonth, day, hday, hlong⟩ := of_decide_eq_true hcan
      exact hnames month hmonth day ⟨(h.days.2 day hday).1, hlong⟩ on hon (.inr hday)
  · rintro ⟨date, ⟨hfrom, huntil, hone, hlast⟩, -, -, hmatches⟩
    obtain ⟨hmonth, hday⟩ := dayMatches_iff.mp hmatches
    rw [ofOrdinal_toOrdinal ⟨hfrom, huntil, hone, hlast⟩] at hmonth hday
    unfold canFire
    split
    · rfl
    · rename_i hweek
      rw [if_neg fun hboth => hweek hboth.2] at hday
      exact decide_eq_true ⟨date.month, hmonth, date.day, hday.1, le_trans hlast (daysInMonth_le _ _)⟩

/-! ## Texts -/

theorem words_of_blank {text : List Char} (h : text.all Quota.isSpace = true) : words text = [] := by
  have hpieces : ∀ piece ∈ text.splitOnP Quota.isSpace, piece = [] := by
    induction text with
    | nil => simp
    | cons c rest ih =>
      obtain ⟨hc, hrest⟩ := Bool.and_eq_true_iff.mp (List.all_cons ▸ h)
      rw [List.splitOnP_cons_eq_if_modifyHead, if_pos hc]
      intro piece hpiece
      rcases List.mem_cons.mp hpiece with rfl | hpiece
      · rfl
      · exact ih hrest piece hpiece
  unfold words
  exact List.filter_eq_nil_iff.mpr fun piece hpiece => by simp [hpieces piece hpiece]

/-- A field of the text does not begin an alias. -/
theorem not_alias_of_reads {minute : List Char} {values : Finset Nat}
    (h : FieldReads (rewriting py) field minute values) : minute.head? ≠ some '@' := by
  intro hhead
  obtain ⟨listed, helements, -⟩ := h
  have hrewritten : ((rewriting py).field field minute).head? = some '@' :=
    rewritten_head (.inr (.inr (.inr (.inr rfl)))) hhead
  obtain ⟨c, rest, hrest, -⟩ := elements_head helements
  rw [hrest] at hrewritten
  have hc : c = '@' := Option.some.inj hrewritten
  have hat : py.isDecimal '@' = false := Python.isDecimal_false (by decide) (by decide)
  rcases isElementChar_of_elements helements c (hrest ▸ List.mem_cons_self) with (hdec | rfl | rfl | rfl) | rfl
  · rw [hc, hat] at hdec
    cases hdec
  all_goals exact absurd hc (by decide)

theorem lookup_alias {entry : String × String} (h : entry ∈ aliases) : aliases.lookup entry.1 = some entry.2 := by
  have hall : ∀ entry ∈ aliases, aliases.lookup entry.1 = some entry.2 := by decide
  exact hall entry h

theorem alias_head {entry : String × String} (h : entry ∈ aliases) : entry.1.toList.head? = some '@' := by
  have hall : ∀ entry ∈ aliases, entry.1.toList.head? = some '@' := by decide
  exact hall entry h

theorem fieldsOf_expanded {source expression : List Char} (h : expanded py source = .ok expression) :
    FieldsOf (rewriting py) source (expression.splitOn ' ') := by
  unfold expanded at h
  split at h
  · rename_i hhead
    split at h
    · cases h
    · rename_i found hlookup
      cases h
      obtain ⟨before, after, hentries, -⟩ := List.lookup_eq_some_iff.mp hlookup
      refine .inr ⟨(String.ofList (py.lower source), found), ?_, ?_, rfl⟩
      · rw [hentries]
        exact List.mem_append_right _ List.mem_cons_self
      · change (if source.head? = some '@' then py.lower source else source) = _
        rw [if_pos hhead, String.toList_ofList]
  · cases h
    exact .inl rfl

theorem expanded_of_fieldsOf {source minute : List Char} {more : List (List Char)} {values : Finset Nat}
    (h : FieldsOf (rewriting py) source (minute :: more)) (hmore : more ≠ [])
    (hminute : FieldReads (rewriting py) field minute values) :
    ∃ expression, expanded py source = .ok expression ∧ expression.splitOn ' ' = minute :: more := by
  rcases h with hfields | ⟨entry, hentry, htext, hfields⟩
  · have hhead : source.head? ≠ some '@' := by
      intro hhead
      have hsource : [' '].intercalate (source.splitOn ' ') = source := List.intercalate_splitOn ' '
      rw [← hfields, List.intercalate_cons_of_ne_nil hmore] at hsource
      rw [← hsource] at hhead
      cases minute with
      | nil => cases hhead
      | cons c minute => exact not_alias_of_reads hminute hhead
    exact ⟨source, if_neg hhead, hfields.symm⟩
  · have halias := alias_head hentry
    change (if source.head? = some '@' then py.lower source else source) = _ at htext
    split at htext
    · rename_i hhead
      refine ⟨entry.2.toList, ?_, hfields.symm⟩
      rw [expanded, if_pos hhead, htext, String.ofList_toList, lookup_alias hentry]
    · rename_i hhead
      rw [← htext] at halias
      exact absurd halias hhead

/-- `parse` accepts exactly what the grammar accepts in the parser's own reading. -/
theorem parse_iff_accepts {text : String} {expr : CronExpr} :
    parse py text = .ok expr ↔ Accepts (rewriting py) text expr := by
  constructor
  · intro h
    unfold parse at h
    split at h
    · cases h
    · obtain ⟨expression, hexpanded, h⟩ := bind_eq_ok h
      have hfields := fieldsOf_expanded hexpanded
      split at h
      · rename_i minute hour day month week hsplit
        obtain ⟨parsed, hparsed, h⟩ := bind_eq_ok h
        obtain ⟨minutes, hminute, hparsed⟩ := bind_eq_ok hparsed
        obtain ⟨hours, hhour, hparsed⟩ := bind_eq_ok hparsed
        obtain ⟨days, hday, hparsed⟩ := bind_eq_ok hparsed
        obtain ⟨months, hmonth, hparsed⟩ := bind_eq_ok hparsed
        obtain ⟨weekdays, hweek, hparsed⟩ := bind_eq_ok hparsed
        cases hparsed
        split at h
        · rename_i hcan
          cases h
          rw [parseField_eq_ok] at hminute hhour hday hmonth hweek
          refine ⟨minute, hour, day, month, week, hsplit ▸ hfields, hminute, hhour, hday, hmonth, hweek, rfl, rfl,
            rfl, ?_⟩
          exact (canFire_iff (by exact wellFormed_of_reads hminute hhour hday hmonth hweek rfl rfl)).mp hcan
        · cases h
      · split at h <;> cases h
  · rintro ⟨minute, hour, day, month, week, hfields, hminute, hhour, hday, hmonth, hweek, hsource, hdays,
      hweekdays, hnames⟩
    have hformed := wellFormed_of_reads hminute hhour hday hmonth hweek hdays hweekdays
    obtain ⟨expression, hexpanded, hsplit⟩ := expanded_of_fieldsOf hfields (by simp) hminute
    rw [← parseField_eq_ok] at hminute hhour hday hmonth hweek
    have hblank : ¬ text.toList.all Quota.isSpace = true := by
      intro hblank
      rw [normalised, words_of_blank hblank] at hexpanded
      cases hexpanded
      simp at hsplit
    have hfive : parseFields py (normalised text) minute hour day month week = .ok expr := by
      rw [parseFields, hminute, hhour, hday, hmonth, hweek]
      obtain ⟨source, minutes, hours, days, months, weekdays, daysRestricted, weekdaysRestricted⟩ := expr
      cases hsource
      cases hdays
      cases hweekdays
      rfl
    rw [parse, if_neg hblank]
    change (expanded py (normalised text) >>= _) = _
    rw [hexpanded]
    dsimp only [bind, Except.bind]
    rw [hsplit]
    change (parseFields py (normalised text) minute hour day month week >>= _) = _
    rw [hfive]
    exact if_pos ((canFire_iff hformed).mpr hnames)

theorem wellFormed_of_parse {text : String} {expr : CronExpr} (hparse : parse py text = .ok expr) : expr.WellFormed := by
  obtain ⟨minute, hour, day, month, week, -, hminute, hhour, hday, hmonth, hweek, -, hdays, hweekdays, -⟩ :=
    parse_iff_accepts.mp hparse
  exact wellFormed_of_reads hminute hhour hday hmonth hweek hdays hweekdays

end SwarmCloud.Cron
