import SwarmCloud.Cron.Grammar

/-! # How the grammar is spelled, and how the parser reads it

What the documented grammar accepts, the parser accepts with the same sets, as
long as no number is too long for `int`. The other way the parser replaces names
wherever they stand and reads every decimal digit there is, so it accepts more:
for a text in ASCII whose names stand alone it is the grammar's sentences and sets.
-/

namespace SwarmCloud.Cron

open Lib

/-! ## ASCII -/

def IsAscii (text : List Char) : Prop := ∀ c ∈ text, c.toNat < 128

theorem forall_ascii {P : Char → Prop} (h : ∀ n < 128, P (Char.ofNat n)) {c : Char} (hc : c.toNat < 128) : P c := by
  have hp := h c.toNat hc
  rwa [Char.ofNat_toNat] at hp

theorem toUpper_of_large {c : Char} (h : 128 ≤ c.toNat) : c.toUpper = c := by
  have hlarge : 128 ≤ c.val.toNat := h
  have hz : 'z'.val.toNat = 122 := rfl
  unfold Char.toUpper
  rw [dif_neg]
  rw [UInt32.le_iff_toNat_le, UInt32.le_iff_toNat_le]
  omega

theorem toLower_of_large {c : Char} (h : 128 ≤ c.toNat) : c.toLower = c := by
  have hlarge : 128 ≤ c.val.toNat := h
  have hz : 'Z'.val.toNat = 90 := rfl
  unfold Char.toLower
  rw [dif_neg]
  rw [ge_iff_le, UInt32.le_iff_toNat_le, UInt32.le_iff_toNat_le]
  omega

theorem isAscii_of_upper {text : List Char} (h : IsAscii (text.map Char.toUpper)) : IsAscii text := by
  intro c hc
  by_contra hlarge
  have hupper := h c.toUpper (List.mem_map_of_mem hc)
  rw [toUpper_of_large (not_lt.mp hlarge)] at hupper
  exact hlarge hupper

theorem isAscii_of_lower {text : List Char} (h : IsAscii (text.map Char.toLower)) : IsAscii text := by
  intro c hc
  by_contra hlarge
  have hlower := h c.toLower (List.mem_map_of_mem hc)
  rw [toLower_of_large (not_lt.mp hlarge)] at hlower
  exact hlarge hlower

variable {py : Python} {field : CronField}

theorem upper_of_ascii {text : List Char} (h : IsAscii text) : text.flatMap py.upper = text.map Char.toUpper := by
  induction text with
  | nil => rfl
  | cons c rest ih =>
    rw [List.flatMap_cons, py.upper_ascii c (h c List.mem_cons_self), ih fun c' hc' => h c' (List.mem_cons_of_mem c hc')]
    rfl

theorem ascii_of_digit {c : Char} (h : c.isDigit = true) : c.toNat < 128 := by
  have hbound := (Bool.and_eq_true_iff.mp h).2
  have hnine : '9'.val.toNat = 57 := rfl
  rw [decide_eq_true_iff, UInt32.le_iff_toNat_le] at hbound
  have hval : c.toNat = c.val.toNat := rfl
  omega

/-! ## What the names leave -/

theorem mem_replaceAll {pattern new text : List Char} {c : Char} (h : c ∈ replaceAll pattern new text) :
    c ∈ new ∨ c ∈ text := by
  have hpieces : ∀ pieces : List (List Char), c ∈ new.intercalate pieces → c ∈ new ∨ ∃ piece ∈ pieces, c ∈ piece := by
    intro pieces
    induction pieces with
    | nil => exact fun h => absurd h List.not_mem_nil
    | cons piece more ih =>
      intro h
      cases more with
      | nil => exact .inr ⟨piece, List.mem_cons_self, by simpa using h⟩
      | cons next more =>
        rw [List.intercalate_cons_cons, List.append_assoc] at h
        rcases List.mem_append.mp h with h | h
        · exact .inr ⟨piece, List.mem_cons_self, h⟩
        · rcases List.mem_append.mp h with h | h
          · exact .inl h
          · rcases ih h with hnew | ⟨other, hother, hc⟩
            · exact .inl hnew
            · exact .inr ⟨other, List.mem_cons_of_mem piece hother, hc⟩
  rcases hpieces _ h with hnew | ⟨piece, hpiece, hc⟩
  · exact .inl hnew
  · exact .inr (((cutAt_pieces text).2 0 piece hpiece).subset hc)

/-- What the upper case has and each replacement of a name keeps, the rewritten text has. -/
theorem rewritten_keeps {text : List Char} {I : List Char → Prop} (hupper : I (text.flatMap py.upper))
    (hname : ∀ name ∈ field.names, ∀ line, I line → I (replaceAll name.1.toList (digitsOf name.2) line)) :
    I (field.rewritten py text) := by
  rw [rewritten_eq]
  exact List.foldlRecOn _ _ hupper fun line hline name hmem => hname name hmem line hline

/-- What is rewritten holds the characters of the upper case, and digits. -/
theorem mem_rewritten {text : List Char} {c : Char} (h : c ∈ field.rewritten py text) :
    c.isDigit = true ∨ c ∈ text.flatMap py.upper := by
  refine rewritten_keeps (I := fun line => c ∈ line → c.isDigit = true ∨ c ∈ text.flatMap py.upper) .inr ?_ h
  intro name _ line hline hmem
  rcases mem_replaceAll hmem with hnew | hold
  · exact .inl (isDigit_of_mem_digitsOf hnew)
  · exact hline hold

theorem letters_of_names : ∀ name ∈ field.names, ∃ c ∈ name.1.toList, c.isAlpha = true := by
  have hany : ∀ name ∈ field.names, name.1.toList.any Char.isAlpha = true := by
    cases field <;> decide
  exact fun name hname => List.any_eq_true.mp (hany name hname)

/-- A text without letters is read as it stands. -/
theorem rewritten_of_no_letter {text : List Char} (hascii : IsAscii text) (h : ∀ c ∈ text, c.isAlpha = false) :
    field.rewritten py text = text := by
  have hupper : text.map Char.toUpper = text := by
    refine List.map_congr_left (g := id) (fun c hc => ?_) |>.trans (List.map_id text)
    have hself : ∀ n < 128, (Char.ofNat n).isAlpha = false → (Char.ofNat n).toUpper = Char.ofNat n := by
      decide
    exact forall_ascii (P := fun c => c.isAlpha = false → c.toUpper = c) hself (hascii c hc) (h c hc)
  refine rewritten_keeps (I := (· = text)) ((upper_of_ascii hascii).trans hupper) ?_
  rintro name hname line rfl
  obtain ⟨c, hc, halpha⟩ := letters_of_names name hname
  refine replaceAll_of_not_infix (fun hnil => ?_) fun hinner => ?_
  · rw [hnil] at hc
    exact absurd hc List.not_mem_nil
  · rw [h c (hinner.subset hc)] at halpha
    cases halpha

/-- A name alone is read as its number. -/
theorem rewritten_of_name {text : List Char} {n : Nat} (h : WholeName field text n) :
    field.rewritten py text = digitsOf n := by
  have hnumbers : ∀ name ∈ field.names, field.names.foldl
      (fun text name => replaceAll name.1.toList (digitsOf name.2) text) name.1.toList = digitsOf name.2 := by
    cases field <;> decide
  have hname : ∀ name ∈ field.names, IsAscii name.1.toList := by
    have hall : ∀ name ∈ field.names, name.1.toList.all (fun c => c.toNat < 128) = true := by
      cases field <;> decide
    exact fun name hmem c hc => of_decide_eq_true (List.all_eq_true.mp (hall name hmem) c hc)
  have hletters := hname _ h
  rw [String.toList_ofList] at hletters
  rw [rewritten_eq, upper_of_ascii (isAscii_of_upper hletters)]
  have hnumber := hnumbers _ h
  rwa [String.toList_ofList] at hnumber

/-! ## Numbers -/

/-- No run of digits is longer than `int` reads. -/
def ShortNumbers (text : List Char) : Prop :=
  ∀ run, run <:+: text → (∀ c ∈ run, c.isDigit = true) → run.length ≤ 4300

theorem ShortNumbers.of_infix {text part : List Char} (h : ShortNumbers text) (hpart : part <:+: text) :
    ShortNumbers part :=
  fun run hrun hdigits => h run (hrun.trans hpart) hdigits

theorem number_of_decimal {text : List Char} {n : Nat} (h : DecimalNumber text n) (hlength : text.length ≤ 4300) :
    py.Number text n := by
  obtain ⟨hne, hdigits, rfl⟩ := h
  refine ⟨hne, fun c hc => ?_, ?_⟩
  · rw [Python.isDecimal, py.decimal_ascii c (ascii_of_digit (hdigits c hc)), if_pos (hdigits c hc)]
    rfl
  · rw [Python.int, if_neg (not_lt.mpr hlength), ofDigits]
    congr 1
    refine List.foldl_ext _ _ 0 fun n c hc => ?_
    rw [py.decimal_ascii c (ascii_of_digit (hdigits c hc)), if_pos (hdigits c hc)]
    rfl

theorem alpha_of_digit {c : Char} (h : c.isDigit = true) : c.isAlpha = false := by
  have hall : ∀ n < 128, (Char.ofNat n).isDigit = true → (Char.ofNat n).isAlpha = false := by decide
  exact forall_ascii (P := fun c => c.isDigit = true → c.isAlpha = false) hall (ascii_of_digit h) h

theorem rewritten_of_digits {text : List Char} (h : ∀ c ∈ text, c.isDigit = true) :
    field.rewritten py text = text :=
  rewritten_of_no_letter (fun c hc => ascii_of_digit (h c hc)) fun c hc => alpha_of_digit (h c hc)

theorem number_of_name {text : List Char} {n : Nat} (h : WholeName field text n) :
    py.Number (field.rewritten py text) n := by
  have hnumbers : ∀ name ∈ field.names, digitsOf name.2 ≠ [] ∧ (digitsOf name.2).all Char.isDigit = true ∧
      ofDigits (digitsOf name.2) = name.2 ∧ (digitsOf name.2).length ≤ 4300 := by
    cases field <;> decide
  obtain ⟨hne, hdigits, hvalue, hlength⟩ := hnumbers _ h
  rw [rewritten_of_name h]
  exact number_of_decimal ⟨hne, List.all_eq_true.mp hdigits, hvalue⟩ hlength

theorem number_rewritten {text : List Char} {n : Nat} (hshort : ShortNumbers text)
    (h : documented.number field text n) : py.Number (field.rewritten py text) n := by
  rcases h with hdecimal | hname
  · rw [rewritten_of_digits hdecimal.2.1]
    exact number_of_decimal hdecimal (hshort text List.infix_rfl hdecimal.2.1)
  · exact number_of_name hname

/-! ## From the grammar to the parser -/

theorem span_rewritten {text : List Char} {first last open' : Nat} (hshort : ShortNumbers text)
    (h : Span documented field text first last open') :
    Span (rewriting py) field (field.rewritten py text) first last open' := by
  cases h with
  | star =>
    have hstar := @rewritten_around py field '*' (.inl rfl) [] []
    rw [List.nil_append, rewritten_nil, List.nil_append] at hstar
    rw [hstar]
    exact .star
  | one hnumber => exact .one (number_rewritten hshort hnumber)
  | @range text text' n m hfirst hlast =>
    rw [rewritten_around (.inr (.inr (.inl rfl)))]
    refine .range (number_rewritten (hshort.of_infix ?_) hfirst) (number_rewritten (hshort.of_infix ?_) hlast)
    · exact (List.prefix_append text _).isInfix
    · exact ((List.suffix_cons '-' text').trans (List.suffix_append text _)).isInfix

theorem element_rewritten {text : List Char} {values : Finset Nat} (hshort : ShortNumbers text)
    (h : Element documented field text values) :
    Element (rewriting py) field (field.rewritten py text) values := by
  cases h with
  | plain hspan hlow hle hhigh => exact .plain (span_rewritten hshort hspan) hlow hle hhigh
  | @stepped text digits first last open' step hspan hlow hle hhigh hstep hone hwidth =>
    rw [rewritten_around (.inr (.inr (.inr (.inl rfl))))]
    have hdigits : digits <:+: text ++ '/' :: digits :=
      ((List.suffix_cons '/' digits).trans (List.suffix_append text _)).isInfix
    have hnumber : py.Number (field.rewritten py digits) step := by
      rw [rewritten_of_digits hstep.2.1]
      exact number_of_decimal hstep (hshort digits hdigits hstep.2.1)
    exact .stepped (span_rewritten (hshort.of_infix (List.prefix_append text _).isInfix) hspan) hlow hle hhigh
      hnumber hone hwidth

theorem elements_rewritten {text : List Char} {values : Finset Nat} (hshort : ShortNumbers text)
    (h : Elements documented field text values) :
    Elements (rewriting py) field (field.rewritten py text) values := by
  induction h with
  | last helement => exact .last (element_rewritten hshort helement)
  | @more text rest values others helement _ ih =>
    rw [rewritten_around (.inr (.inl rfl))]
    refine .more (element_rewritten (hshort.of_infix (List.prefix_append text _).isInfix) helement)
      (ih (hshort.of_infix ?_))
    exact ((List.suffix_cons ',' rest).trans (List.suffix_append text _)).isInfix

theorem fieldReads_rewritten {text : List Char} {values : Finset Nat} (hshort : ShortNumbers text)
    (h : FieldReads documented field text values) : FieldReads (rewriting py) field text values := by
  obtain ⟨listed, helements, rfl⟩ := h
  exact ⟨listed, elements_rewritten hshort helements, rfl⟩

theorem isAscii_alias {entry : String × String} (h : entry ∈ aliases) :
    IsAscii entry.1.toList ∧ ∀ c ∈ entry.1.toList, c.isDigit = false := by
  have hall : ∀ entry ∈ aliases, entry.1.toList.all (fun c => c.toNat < 128 && !c.isDigit) = true := by
    decide
  have hchar : ∀ c ∈ entry.1.toList, c.toNat < 128 ∧ c.isDigit = false := by
    intro c hc
    simpa using List.all_eq_true.mp (hall entry h) c hc
  exact ⟨fun c hc => (hchar c hc).1, fun c hc => (hchar c hc).2⟩

theorem aliasText_rewriting {source : List Char} {entry : String × String} (h : entry ∈ aliases)
    (htext : source.map Char.toLower = entry.1.toList) : (rewriting py).aliasText source = entry.1.toList := by
  have hascii := isAscii_of_lower (htext ▸ (isAscii_alias h).1)
  have hhead := alias_head h
  rw [← htext] at hhead
  have hat : source.head? = some '@' := by
    cases source with
    | nil => cases hhead
    | cons c rest =>
      have hall : ∀ n < 128, (Char.ofNat n).toLower = '@' → Char.ofNat n = '@' := by decide
      have hc : c = '@' := forall_ascii (P := fun c => c.toLower = '@' → c = '@') hall
        (hascii c List.mem_cons_self) (Option.some.inj hhead)
      rw [hc]
      rfl
  change (if source.head? = some '@' then py.lower source else source) = _
  rw [if_pos hat, py.lower_ascii source hascii, htext]

theorem infix_of_mem_splitOn {sep : Char} {text part : List Char} (h : part ∈ text.splitOn sep) : part <:+: text := by
  have hinner : part <:+: [sep].intercalate (text.splitOn sep) := infix_intercalate h
  rwa [List.intercalate_splitOn] at hinner

/-- The fields of an alias, or parts of the text. -/
theorem shortNumbers_field {source : List Char} {fields : List (List Char)} (h : FieldsOf documented source fields)
    (hshort : ShortNumbers source) : ∀ text ∈ fields, ShortNumbers text := by
  intro text htext
  rcases h with rfl | ⟨entry, hentry, -, rfl⟩
  · exact hshort.of_infix (infix_of_mem_splitOn htext)
  · have hinner := infix_of_mem_splitOn htext
    have hlength : ∀ entry ∈ aliases, entry.2.toList.length ≤ 4300 := by decide
    intro run hrun _
    exact le_trans (hrun.trans hinner).length_le (hlength entry hentry)

/-- The parser reads a text of the grammar as the grammar does, when its numbers are short. -/
theorem accepts_rewriting {text : String} {expr : CronExpr} (h : Accepts documented text expr)
    (hshort : ShortNumbers (normalised text)) : Accepts (rewriting py) text expr := by
  obtain ⟨minute, hour, day, month, week, hfields, hminute, hhour, hday, hmonth, hweek, hrest⟩ := h
  have hparts := shortNumbers_field hfields hshort
  have hfields' : FieldsOf (rewriting py) (normalised text) [minute, hour, day, month, week] := by
    rcases hfields with hsame | ⟨entry, hentry, htext, hsame⟩
    · exact .inl hsame
    · exact .inr ⟨entry, hentry, aliasText_rewriting hentry htext, hsame⟩
  exact ⟨minute, hour, day, month, week, hfields', fieldReads_rewritten (hparts minute (by simp)) hminute,
    fieldReads_rewritten (hparts hour (by simp)) hhour, fieldReads_rewritten (hparts day (by simp)) hday,
    fieldReads_rewritten (hparts month (by simp)) hmonth, fieldReads_rewritten (hparts week (by simp)) hweek, hrest⟩

/-! ## Long numbers -/

theorem upper_run {run text : List Char} (hrun : run <:+: text) (h : ∀ c ∈ run, c.isDigit = true) :
    run <:+: text.flatMap py.upper := by
  obtain ⟨before, after, rfl⟩ := hrun
  have hself : run.flatMap py.upper = run := by
    have hrewritten := @rewritten_of_digits py .minute run h
    rwa [rewritten_eq] at hrewritten
  rw [List.flatMap_append, List.flatMap_append, hself]
  exact ⟨_, _, rfl⟩

theorem rewritten_run {run text : List Char} (hrun : run <:+: text) (h : ∀ c ∈ run, c.isDigit = true) :
    run <:+: field.rewritten py text := by
  have hletters : ∀ name ∈ field.names, (∀ c ∈ name.1.toList, c.isDigit = false) ∧ name.1.toList ≠ [] := by
    have hall : ∀ name ∈ field.names, name.1.toList.all (fun c => !c.isDigit) = true ∧ name.1.toList ≠ [] := by
      cases field <;> decide
    refine fun name hname => ⟨fun c hc => ?_, (hall name hname).2⟩
    simpa using List.all_eq_true.mp (hall name hname).1 c hc
  refine rewritten_keeps (upper_run hrun h) fun name hname line hline => ?_
  obtain ⟨hdigit, hne⟩ := hletters name hname
  refine infix_replaceAll (fun c hc hmem => ?_) hne hline
  have hletter := hdigit c hmem
  rw [h c hc] at hletter
  cases hletter

theorem short_of_number {text run : List Char} {n : Nat} (h : py.Number text n) (hrun : run <:+: text) :
    run.length ≤ 4300 := by
  by_contra hlong
  have hlength := hrun.length_le
  have hint := h.2.2
  rw [Python.int, if_pos (by omega)] at hint
  cases hint

theorem not_mem_of_digits {run : List Char} {sep : Char} (hdigits : ∀ c ∈ run, c.isDigit = true)
    (hsep : sep.isDigit = false) : sep ∉ run := by
  intro hmem
  rw [hdigits sep hmem] at hsep
  cases hsep

/-- The parser's numbers are short, and separators part its digits. -/
theorem short_of_span {text run : List Char} {first last open' : Nat}
    (h : Span (rewriting py) field text first last open') (hrun : run <:+: text)
    (hdigits : ∀ c ∈ run, c.isDigit = true) : run.length ≤ 4300 := by
  cases h with
  | star => exact le_trans hrun.length_le (by decide)
  | one hnumber => exact short_of_number hnumber hrun
  | range hfirst hlast =>
    rcases infix_of_infix_around (not_mem_of_digits hdigits (by decide)) hrun with hrun | hrun
    · exact short_of_number hfirst hrun
    · exact short_of_number hlast hrun

theorem short_of_elements {text run : List Char} {values : Finset Nat}
    (h : Elements (rewriting py) field text values) (hrun : run <:+: text)
    (hdigits : ∀ c ∈ run, c.isDigit = true) : run.length ≤ 4300 := by
  have helement : ∀ {text : List Char} {values : Finset Nat}, Element (rewriting py) field text values →
      run <:+: text → run.length ≤ 4300 := by
    intro text values h hrun
    cases h with
    | plain hspan => exact short_of_span hspan hrun hdigits
    | stepped hspan _ _ _ hstep =>
      rcases infix_of_infix_around (not_mem_of_digits hdigits (by decide)) hrun with hrun | hrun
      · exact short_of_span hspan hrun hdigits
      · exact short_of_number hstep hrun
  induction h with
  | last h => exact helement h hrun
  | more h _ ih =>
    rcases infix_of_infix_around (not_mem_of_digits hdigits (by decide)) hrun with hrun | hrun
    · exact helement h hrun
    · exact ih hrun

theorem short_of_fieldReads {text run : List Char} {values : Finset Nat}
    (h : FieldReads (rewriting py) field text values) (hrun : run <:+: text)
    (hdigits : ∀ c ∈ run, c.isDigit = true) : run.length ≤ 4300 := by
  obtain ⟨listed, helements, -⟩ := h
  exact short_of_elements helements (rewritten_run hrun hdigits) hdigits

/-- A text with a longer number is not accepted. -/
theorem shortNumbers_of_accepts {text : String} {expr : CronExpr} (h : Accepts (rewriting py) text expr) :
    ShortNumbers (normalised text) := by
  obtain ⟨minute, hour, day, month, week, hfields, hminute, hhour, hday, hmonth, hweek, -⟩ := h
  intro run hrun hdigits
  rcases hfields with hsame | ⟨entry, hentry, htext, -⟩
  · have hsource : [' '].intercalate ((normalised text).splitOn ' ') = normalised text :=
      List.intercalate_splitOn ' '
    rw [← hsame] at hsource
    rw [← hsource] at hrun
    have hspace : ' ' ∉ run := not_mem_of_digits hdigits (by decide)
    obtain ⟨part, hpart, hin⟩ := exists_piece_of_infix (n := 0) hspace (by simp) hrun
    simp only [List.mem_cons, List.not_mem_nil, or_false] at hpart
    rcases hpart with rfl | rfl | rfl | rfl | rfl
    · exact short_of_fieldReads hminute hin hdigits
    · exact short_of_fieldReads hhour hin hdigits
    · exact short_of_fieldReads hday hin hdigits
    · exact short_of_fieldReads hmonth hin hdigits
    · exact short_of_fieldReads hweek hin hdigits
  · cases run with
    | nil => exact Nat.zero_le _
    | cons c run =>
      have hc := hdigits c List.mem_cons_self
      have hmem : c ∈ normalised text := hrun.subset List.mem_cons_self
      have halias : c ∈ entry.1.toList := by
        rw [← htext]
        change c ∈ if (normalised text).head? = some '@' then py.lower (normalised text) else normalised text
        split
        · exact py.lower_digit _ c hmem hc
        · exact hmem
      have hnot := (isAscii_alias hentry).2 c halias
      rw [hc] at hnot
      cases hnot

/-! ## Names that stand alone -/

def NoLetter (text : List Char) : Prop := ∀ c ∈ text, c.isAlpha = false

def SpeltToken (field : CronField) (token : List Char) : Prop := NoLetter token ∨ ∃ n, WholeName field token n

/-- Letters stand in an element as whole names only, and not in a step. -/
def SpeltElement (field : CronField) (element : List Char) : Prop :=
  (∀ token ∈ (element.takeWhile (· ≠ '/')).splitOn '-', SpeltToken field token) ∧
    NoLetter (element.dropWhile (· ≠ '/'))

def SpeltField (field : CronField) (text : List Char) : Prop :=
  ∀ element ∈ text.splitOn ',', SpeltElement field element

/-- A text in ASCII whose names stand alone. -/
def SpeltText (text : String) : Prop :=
  IsAscii (normalised text) ∧
    ∀ minute hour day month week, (normalised text).splitOn ' ' = [minute, hour, day, month, week] →
      SpeltField .minute minute ∧ SpeltField .hour hour ∧ SpeltField .dayOfMonth day ∧ SpeltField .month month ∧
        SpeltField .dayOfWeek week

theorem mem_rewritten_iff {sep : Char} (hsep : isSeparator sep) {text : List Char} (hascii : IsAscii text) :
    sep ∈ field.rewritten py text ↔ sep ∈ text := by
  constructor
  · intro hmem
    have hdigit : sep.isDigit = false := by
      rcases hsep with rfl | rfl | rfl | rfl | rfl <;> decide
    have hback : ∀ n < 128, (Char.ofNat n).toUpper.isAlpha = false → (Char.ofNat n).toUpper = Char.ofNat n := by
      decide
    have halpha : sep.isAlpha = false := by
      rcases hsep with rfl | rfl | rfl | rfl | rfl <;> decide
    rcases mem_rewritten hmem with h | h
    · rw [h] at hdigit
      cases hdigit
    · rw [upper_of_ascii hascii] at h
      obtain ⟨c, hc, rfl⟩ := List.mem_map.mp h
      have hself := forall_ascii (P := fun c => c.toUpper.isAlpha = false → c.toUpper = c) hback (hascii c hc) halpha
      rwa [hself]
  · intro hmem
    obtain ⟨before, after, rfl⟩ := List.append_of_mem hmem
    rw [rewritten_around hsep]
    exact List.mem_append_right _ List.mem_cons_self

theorem first_inj {sep : Char} {before before' after after' : List Char}
    (h : before ++ sep :: after = before' ++ sep :: after') (hnot : sep ∉ before) (hnot' : sep ∉ before') :
    before = before' ∧ after = after' := by
  have hsplit := congrArg (List.splitOn sep) h
  rw [List.splitOn_append_cons_self_of_not_mem hnot, List.splitOn_append_cons_self_of_not_mem hnot'] at hsplit
  obtain rfl := (List.cons.inj hsplit).1
  exact ⟨rfl, (List.cons.inj (List.append_cancel_left h)).2⟩

/-- The first separator of what is rewritten is the first of the text. -/
theorem exists_around {sep : Char} (hsep : isSeparator sep) {text before after : List Char} (hascii : IsAscii text)
    (h : field.rewritten py text = before ++ sep :: after) (hnot : sep ∉ before) :
    ∃ before' after', text = before' ++ sep :: after' ∧ sep ∉ before' ∧ IsAscii before' ∧ IsAscii after' ∧
      field.rewritten py before' = before ∧ field.rewritten py after' = after := by
  have hmem : sep ∈ text := by
    rw [← @mem_rewritten_iff py field sep hsep text hascii, h]
    exact List.mem_append_right _ List.mem_cons_self
  obtain ⟨before', after', rfl, hnot'⟩ := List.eq_append_cons_of_mem hmem
  have hbefore : IsAscii before' := fun c hc => hascii c (List.mem_append_left _ hc)
  have hafter : IsAscii after' := fun c hc => hascii c (List.mem_append_right _ (List.mem_cons_of_mem sep hc))
  have hnotRewritten : sep ∉ field.rewritten py before' := fun hin => hnot' ((mem_rewritten_iff hsep hbefore).mp hin)
  rw [rewritten_around hsep] at h
  obtain ⟨hsame, hsame'⟩ := first_inj h hnotRewritten hnot
  exact ⟨before', after', rfl, hnot', hbefore, hafter, hsame, hsame'⟩

/-! ## From the parser to the grammar -/

theorem decimal_of_number {token : List Char} {n : Nat} (hascii : IsAscii token) (h : py.Number token n) :
    DecimalNumber token n := by
  have hdigits : ∀ c ∈ token, c.isDigit = true := by
    intro c hc
    have hdecimal := h.2.1 c hc
    by_contra hnot
    rw [Python.isDecimal_false (hascii c hc) (Bool.eq_false_iff.mpr hnot)] at hdecimal
    cases hdecimal
  have hshort := short_of_number h List.infix_rfl
  have hsame := (@number_of_decimal py token _ ⟨h.1, hdigits, rfl⟩ hshort).2.2
  rw [h.2.2] at hsame
  exact ⟨h.1, hdigits, (Except.ok.inj hsame).symm⟩

theorem number_back {token : List Char} {n : Nat} (hascii : IsAscii token) (hspelt : SpeltToken field token)
    (h : py.Number (field.rewritten py token) n) : documented.number field token n := by
  rcases hspelt with hletter | ⟨m, hname⟩
  · rw [rewritten_of_no_letter hascii hletter] at h
    exact .inl (decimal_of_number hascii h)
  · have hnumber := (@number_of_name py field token m hname).2.2
    rw [h.2.2] at hnumber
    rw [Except.ok.inj hnumber]
    exact .inr hname

theorem sep_not_mem_of_number {token : List Char} {n : Nat} {sep : Char} (h : py.Number token n)
    (hsep : isSeparator sep) : sep ∉ token := by
  intro hmem
  have hdecimal := h.2.1 sep hmem
  have hnot : py.isDecimal sep = false := by
    rcases hsep with rfl | rfl | rfl | rfl | rfl <;> exact Python.isDecimal_false (by decide) (by decide)
  rw [hdecimal] at hnot
  cases hnot

theorem span_back {text whole : List Char} {first last open' : Nat}
    (h : Span (rewriting py) field whole first last open') (hwhole : field.rewritten py text = whole)
    (hascii : IsAscii text) (hspelt : ∀ token ∈ text.splitOn '-', SpeltToken field token) :
    Span documented field text first last open' := by
  have hdash : isSeparator '-' := .inr (.inr (.inl rfl))
  have htoken : '-' ∉ field.rewritten py text → SpeltToken field text := by
    intro hnot
    rw [mem_rewritten_iff hdash hascii] at hnot
    rw [List.splitOn_eq_singleton hnot] at hspelt
    exact hspelt text (List.mem_singleton_self text)
  cases h with
  | star =>
    rcases htoken (by rw [hwhole]; decide) with hletter | ⟨m, hname⟩
    · rw [rewritten_of_no_letter hascii hletter] at hwhole
      rw [hwhole]
      exact .star
    · have hnumber := @number_of_name py field text m hname
      rw [hwhole] at hnumber
      exact absurd (List.mem_singleton_self '*') (sep_not_mem_of_number hnumber (.inl rfl))
  | one hnumber =>
    have hnot : '-' ∉ field.rewritten py text := hwhole ▸ sep_not_mem_of_number hnumber hdash
    rw [← hwhole] at hnumber
    exact .one (number_back hascii (htoken hnot) hnumber)
  | @range before after n m hfirst hlast =>
    obtain ⟨before', after', rfl, hnot, hbefore, hafter, rfl, rfl⟩ :=
      exists_around hdash hascii hwhole (sep_not_mem_of_number hfirst hdash)
    have hnot' : '-' ∉ after' := fun hmem =>
      sep_not_mem_of_number hlast hdash ((mem_rewritten_iff hdash hafter).mpr hmem)
    rw [List.splitOn_append_cons_self_of_not_mem hnot, List.splitOn_eq_singleton hnot'] at hspelt
    exact .range (number_back hbefore (hspelt before' (by simp)) hfirst)
      (number_back hafter (hspelt after' (by simp)) hlast)

theorem slash_not_mem_span {text : List Char} {first last open' : Nat}
    (h : Span (rewriting py) field text first last open') : '/' ∉ text := by
  have hslash : isSeparator '/' := .inr (.inr (.inr (.inl rfl)))
  cases h with
  | star => decide
  | one hnumber => exact sep_not_mem_of_number hnumber hslash
  | range hfirst hlast =>
    intro hmem
    rcases List.mem_append.mp hmem with hmem | hmem
    · exact sep_not_mem_of_number hfirst hslash hmem
    · rcases List.mem_cons.mp hmem with hmem | hmem
      · exact absurd hmem (by decide)
      · exact sep_not_mem_of_number hlast hslash hmem

theorem element_back {text whole : List Char} {values : Finset Nat} (h : Element (rewriting py) field whole values)
    (hwhole : field.rewritten py text = whole) (hascii : IsAscii text) (hspelt : SpeltElement field text) :
    Element documented field text values := by
  have hslash : isSeparator '/' := .inr (.inr (.inr (.inl rfl)))
  have htake : ∀ {before after : List Char}, '/' ∉ before →
      (before ++ after).takeWhile (· ≠ '/') = before ++ after.takeWhile (· ≠ '/') ∧
        (before ++ after).dropWhile (· ≠ '/') = after.dropWhile (· ≠ '/') := by
    intro before after hnot
    have hall : ∀ c ∈ before, decide (c ≠ '/') = true := fun c hc =>
      decide_eq_true fun heq => hnot (heq ▸ hc)
    exact ⟨List.takeWhile_append_of_pos hall, List.dropWhile_append_of_pos hall⟩
  obtain ⟨htokens, hletter⟩ := hspelt
  cases h with
  | plain hspan hlow hle hhigh =>
    have hnot : '/' ∉ text := fun hmem =>
      slash_not_mem_span hspan (hwhole ▸ (mem_rewritten_iff hslash hascii).mpr hmem)
    have hsame := (@htake text [] hnot).1
    rw [List.append_nil, List.takeWhile_nil, List.append_nil] at hsame
    rw [hsame] at htokens
    exact .plain (span_back hspan hwhole hascii htokens) hlow hle hhigh
  | stepped hspan hlow hle hhigh hstep hone hwidth =>
    obtain ⟨before, after, rfl, hnot, hbefore, hafter, hsame, hsame'⟩ :=
      exists_around hslash hascii hwhole (slash_not_mem_span hspan)
    obtain ⟨htakeEq, hdropEq⟩ := @htake before ('/' :: after) hnot
    have hnone : ('/' :: after).takeWhile (· ≠ '/') = [] := List.takeWhile_cons_of_neg (by simp)
    have hkept : ('/' :: after).dropWhile (· ≠ '/') = '/' :: after := List.dropWhile_cons_of_neg (by simp)
    rw [htakeEq, hnone, List.append_nil] at htokens
    rw [hdropEq, hkept] at hletter
    rw [rewritten_of_no_letter hafter fun c hc => hletter c (List.mem_cons_of_mem '/' hc)] at hsame'
    rw [← hsame'] at hstep
    exact .stepped (span_back hspan hsame hbefore htokens) hlow hle hhigh (decimal_of_number hafter hstep) hone hwidth

theorem elements_back {text whole : List Char} {values : Finset Nat}
    (h : Elements (rewriting py) field whole values) (hwhole : field.rewritten py text = whole)
    (hascii : IsAscii text) (hspelt : SpeltField field text) : Elements documented field text values := by
  have hcomma : isSeparator ',' := .inr (.inl rfl)
  induction h generalizing text with
  | last helement =>
    have hnot : ',' ∉ text := fun hmem =>
      comma_not_mem helement (hwhole ▸ (mem_rewritten_iff hcomma hascii).mpr hmem)
    rw [SpeltField, List.splitOn_eq_singleton hnot] at hspelt
    exact .last (element_back helement hwhole hascii (hspelt text (List.mem_singleton_self text)))
  | more helement _ ih =>
    obtain ⟨before, after, rfl, hnot, hbefore, hafter, hsame, hsame'⟩ :=
      exists_around hcomma hascii hwhole (comma_not_mem helement)
    rw [SpeltField, List.splitOn_append_cons_self_of_not_mem hnot] at hspelt
    exact .more (element_back helement hsame hbefore (hspelt before List.mem_cons_self))
      (ih hsame' hafter fun element helement => hspelt element (List.mem_cons_of_mem before helement))

theorem fieldReads_back {text : List Char} {values : Finset Nat} (h : FieldReads (rewriting py) field text values)
    (hascii : IsAscii text) (hspelt : SpeltField field text) : FieldReads documented field text values := by
  obtain ⟨listed, helements, rfl⟩ := h
  exact ⟨listed, elements_back helements rfl hascii hspelt, rfl⟩

theorem speltField_of_no_letter {text : List Char} (h : NoLetter text) : SpeltField field text := by
  intro element helement
  have hletter : NoLetter element := fun c hc => h c ((infix_of_mem_splitOn helement).subset hc)
  refine ⟨fun token htoken => .inl fun c hc => ?_, fun c hc => hletter c ((List.dropWhile_sublist _).subset hc)⟩
  exact hletter c ((List.takeWhile_sublist _).subset ((infix_of_mem_splitOn htoken).subset hc))

theorem aliasText_documented {source : List Char} {entry : String × String} (h : entry ∈ aliases)
    (hascii : IsAscii source) (htext : (rewriting py).aliasText source = entry.1.toList) :
    source.map Char.toLower = entry.1.toList := by
  change (if source.head? = some '@' then py.lower source else source) = _ at htext
  split at htext
  · rwa [py.lower_ascii source hascii] at htext
  · rename_i hhead
    have halias := alias_head h
    rw [← htext] at halias
    exact absurd halias hhead

/-- What the parser accepts of a text whose names stand alone is in the grammar. -/
theorem accepts_documented {text : String} {expr : CronExpr} (hspelt : SpeltText text)
    (h : Accepts (rewriting py) text expr) : Accepts documented text expr := by
  obtain ⟨hascii, hfieldsSpelt⟩ := hspelt
  obtain ⟨minute, hour, day, month, week, hfields, hminute, hhour, hday, hmonth, hweek, hrest⟩ := h
  rcases hfields with hsame | ⟨entry, hentry, htext, hsame⟩
  · obtain ⟨hm, hh, hd, hmo, hw⟩ := hfieldsSpelt minute hour day month week hsame.symm
    have hparts : ∀ part ∈ [minute, hour, day, month, week], IsAscii part := fun part hpart c hc =>
      hascii c ((infix_of_mem_splitOn (hsame ▸ hpart)).subset hc)
    exact ⟨minute, hour, day, month, week, .inl hsame, fieldReads_back hminute (hparts minute (by simp)) hm,
      fieldReads_back hhour (hparts hour (by simp)) hh, fieldReads_back hday (hparts day (by simp)) hd,
      fieldReads_back hmonth (hparts month (by simp)) hmo, fieldReads_back hweek (hparts week (by simp)) hw, hrest⟩
  · have hexpanded : ∀ entry ∈ aliases, ∀ part ∈ entry.2.toList.splitOn ' ', ∀ c ∈ part,
        c.toNat < 128 ∧ c.isAlpha = false := by
      have hall : ∀ entry ∈ aliases, ∀ part ∈ entry.2.toList.splitOn ' ',
          part.all (fun c => c.toNat < 128 && !c.isAlpha) = true := by
        decide
      intro entry hentry part hpart c hc
      simpa using List.all_eq_true.mp (hall entry hentry part hpart) c hc
    have hparts : ∀ part ∈ [minute, hour, day, month, week], IsAscii part ∧ NoLetter part := by
      intro part hpart
      have hall := hexpanded entry hentry part (hsame ▸ hpart)
      exact ⟨fun c hc => (hall c hc).1, fun c hc => (hall c hc).2⟩
    have hback : ∀ {field : CronField} {part : List Char} {values : Finset Nat},
        part ∈ [minute, hour, day, month, week] → FieldReads (rewriting py) field part values →
          FieldReads documented field part values := fun hpart h =>
      fieldReads_back h (hparts _ hpart).1 (speltField_of_no_letter (hparts _ hpart).2)
    exact ⟨minute, hour, day, month, week, .inr ⟨entry, hentry, aliasText_documented hentry hascii htext, hsame⟩,
      hback (by simp) hminute, hback (by simp) hhour, hback (by simp) hday, hback (by simp) hmonth,
      hback (by simp) hweek, hrest⟩

/-- What the parser accepts of a text whose names stand alone is a sentence of the grammar, with its sets. -/
theorem parse_spelt {text : String} {expr : CronExpr} (hspelt : SpeltText text) (hparse : parse py text = .ok expr) :
    Accepts documented text expr :=
  accepts_documented hspelt (parse_iff_accepts.mp hparse)

end SwarmCloud.Cron
