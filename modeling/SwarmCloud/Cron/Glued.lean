import SwarmCloud.Cron.Spelling

/-! # Names and digits glued together

What the parser reads beyond the documented grammar, as a grammar of its own over the
text in capitals: where the documented one has a number or a name, and in a step, this
one has a row of decimal digits of any script and names of the field in any order, read
as the digits that they stand for side by side. `parse` accepts exactly its sentences,
so it meets the documented grammar where the two agree.
-/

namespace SwarmCloud.Cron

open Lib

variable {py : Python} {field : CronField}

/-- A row of decimals and names, and the digits that it stands for. -/
inductive Glued (py : Python) (names : List (String × Nat)) : List Char → List Char → Prop
  | nil : Glued py names [] []
  | decimal {c : Char} {text digits : List Char} : py.isDecimal c = true → Glued py names text digits →
      Glued py names (c :: text) (c :: digits)
  | name {name : String × Nat} {text digits : List Char} : name ∈ names → Glued py names text digits →
      Glued py names (name.1.toList ++ text) (digitsOf name.2 ++ digits)

/-- The number that a row of decimals and names of the field is read as. -/
def GluedNumber (py : Python) (field : CronField) (token : List Char) (n : Nat) : Prop :=
  ∃ digits, Glued py field.names token digits ∧ py.Number digits n

/-- The text in capitals, with rows of decimals and names for its numbers. -/
def loose (py : Python) : Reading where
  aliasText source := if source.head? = some '@' then py.lower source else source
  field _ text := text.flatMap py.upper
  number := GluedNumber py
  step := GluedNumber py

/-! ## Rows -/

namespace Glued

variable {names : List (String × Nat)} {text text' digits digits' : List Char}

theorem append (h : Glued py names text digits) (h' : Glued py names text' digits') :
    Glued py names (text ++ text') (digits ++ digits') := by
  induction h with
  | nil => exact h'
  | decimal hc _ ih => exact .decimal hc ih
  | name hname _ ih =>
    rw [List.append_assoc, List.append_assoc]
    exact .name hname ih

theorem mono {more : List (String × Nat)} (hsub : ∀ name ∈ names, name ∈ more) (h : Glued py names text digits) :
    Glued py more text digits := by
  induction h with
  | nil => exact .nil
  | decimal hc _ ih => exact .decimal hc ih
  | name hname _ ih => exact .name (hsub _ hname) ih

theorem of_decimals (h : ∀ c ∈ text, py.isDecimal c = true) : Glued py names text text := by
  induction text with
  | nil => exact .nil
  | cons c rest ih => exact .decimal (h c List.mem_cons_self) (ih fun c' hc' => h c' (List.mem_cons_of_mem c hc'))

theorem eq_of_no_names (h : Glued py [] text digits) : text = digits := by
  induction h with
  | nil => rfl
  | decimal _ _ ih => rw [ih]
  | name hname => exact absurd hname List.not_mem_nil

/-- A character that no name has parts the row. -/
theorem split {x : Char} {before after : List Char} (hx : ∀ name ∈ names, x ∉ name.1.toList)
    (h : Glued py names (before ++ x :: after) digits) :
    ∃ front back, digits = front ++ x :: back ∧ Glued py names before front ∧ Glued py names after back := by
  generalize hline : before ++ x :: after = line at h
  induction h generalizing before with
  | nil => simp at hline
  | @decimal c text digits hc htext ih =>
    cases before with
    | nil =>
      obtain ⟨rfl, rfl⟩ := List.cons.inj hline
      exact ⟨[], digits, rfl, .nil, htext⟩
    | cons c' before =>
      obtain ⟨rfl, hrest⟩ := List.cons.inj hline
      obtain ⟨front, back, rfl, hfront, hback⟩ := ih hrest
      exact ⟨c' :: front, back, rfl, .decimal hc hfront, hback⟩
  | @name name text digits hname htext ih =>
    rcases List.append_eq_append_iff.mp hline with ⟨more, hmore, hrest⟩ | ⟨more, rfl, hrest⟩
    · cases more with
      | nil =>
        obtain ⟨front, back, rfl, hfront, hback⟩ := @ih [] (by simpa using hrest)
        rw [List.append_nil] at hmore
        subst hmore
        refine ⟨digitsOf name.2 ++ front, back, by rw [List.append_assoc], ?_, hback⟩
        have happend := Glued.name hname hfront
        rwa [List.append_nil] at happend
      | cons c more =>
        obtain ⟨rfl, -⟩ := List.cons.inj hrest
        exact absurd (hmore ▸ List.mem_append_right _ List.mem_cons_self) (hx name hname)
    · obtain ⟨front, back, rfl, hfront, hback⟩ := ih hrest.symm
      exact ⟨digitsOf name.2 ++ front, back, by rw [List.append_assoc], .name hname hfront, hback⟩

/-- A run of characters that no name has stands for itself. -/
theorem split_run (hne : ∀ name ∈ names, name.1.toList ≠ []) {run after : List Char}
    (hrun : ∀ c ∈ run, ∀ name ∈ names, c ∉ name.1.toList) (h : Glued py names (run ++ after) digits) :
    ∃ back, digits = run ++ back ∧ Glued py names after back := by
  induction run generalizing digits with
  | nil => exact ⟨digits, rfl, h⟩
  | cons c run ih =>
    generalize hline : c :: run ++ after = line at h
    cases h with
    | nil => cases hline
    | decimal hc htext =>
      obtain ⟨rfl, rfl⟩ := List.cons.inj hline
      obtain ⟨back, rfl, hback⟩ := ih (fun c' hc' => hrun c' (List.mem_cons_of_mem c hc')) htext
      exact ⟨back, rfl, hback⟩
    | @name name text digits hname htext =>
      cases hletters : name.1.toList with
      | nil => exact absurd hletters (hne name hname)
      | cons d letters =>
        rw [hletters] at hline
        obtain ⟨rfl, -⟩ := List.cons.inj hline
        refine absurd ?_ (hrun c List.mem_cons_self name hname)
        rw [hletters]
        exact List.mem_cons_self

/-- The digits of one name are put back to the name. -/
theorem of_replaceAll {name : String × Nat} (hname : name.1.toList ≠ []) (hne : ∀ name ∈ names, name.1.toList ≠ [])
    (hdigits : ∀ c ∈ digitsOf name.2, ∀ other ∈ names, c ∉ other.1.toList)
    (h : Glued py names (replaceAll name.1.toList (digitsOf name.2) text) digits) :
    Glued py (name :: names) text digits := by
  have hpieces : ∀ pieces : List (List Char), ∀ digits, Glued py names ((digitsOf name.2).intercalate pieces) digits →
      Glued py (name :: names) (name.1.toList.intercalate pieces) digits := by
    intro pieces
    induction pieces with
    | nil => exact fun digits h => h.mono fun _ => List.mem_cons_of_mem name
    | cons piece more ih =>
      intro digits h
      cases more with
      | nil =>
        simp only [List.intercalate_singleton] at h ⊢
        exact h.mono fun _ => List.mem_cons_of_mem name
      | cons next more =>
        rw [List.intercalate_cons_cons, List.append_assoc] at h ⊢
        cases hrun : digitsOf name.2 with
        | nil => exact absurd hrun (digitsOf_ne_nil name.2)
        | cons d run =>
          rw [hrun, List.cons_append] at h
          rw [hrun] at hdigits
          obtain ⟨front, rest, rfl, hfront, hrest⟩ := h.split (hdigits d List.mem_cons_self)
          obtain ⟨back, rfl, hback⟩ :=
            hrest.split_run hne fun c hc => hdigits c (List.mem_cons_of_mem d hc)
          have hlater := ih back (hrun ▸ hback)
          have hnamed := Glued.name List.mem_cons_self hlater
          rw [hrun] at hnamed
          exact (hfront.mono fun _ => List.mem_cons_of_mem name).append hnamed
  have hback := hpieces (cutAt name.1.toList 0 text) digits h
  rwa [intercalate_cutAt hname, List.drop_zero] at hback

/-- What the names leave a row of decimals was a row of decimals and names. -/
theorem of_substituted (hne : ∀ name ∈ names, name.1.toList ≠ [])
    (hletters : ∀ name ∈ names, ∀ c ∈ name.1.toList, c.isDigit = false)
    (h : ∀ c ∈ names.foldl (fun text name => replaceAll name.1.toList (digitsOf name.2) text) text, py.isDecimal c = true) :
    Glued py names text (names.foldl (fun text name => replaceAll name.1.toList (digitsOf name.2) text) text) := by
  induction names generalizing text with
  | nil => exact of_decimals h
  | cons name names ih =>
    have hrest := ih (fun other hother => hne other (List.mem_cons_of_mem name hother))
      (fun other hother => hletters other (List.mem_cons_of_mem name hother)) h
    refine hrest.of_replaceAll (hne name List.mem_cons_self)
      (fun other hother => hne other (List.mem_cons_of_mem name hother)) fun c hc other hother hmem => ?_
    have hletter := hletters other (List.mem_cons_of_mem name hother) c hmem
    rw [isDigit_of_mem_digitsOf hc] at hletter
    cases hletter

end Glued

/-! ## Names that do not reach into each other -/

/-- No name begins inside another one and ends in what follows it. -/
def Unmixed (names : List (String × Nat)) : Prop :=
  ∀ name ∈ names, ∀ other ∈ names, name.1 ≠ other.1 → ∀ next ∈ names, ∀ k < 3,
    ¬ name.1.toList.isPrefixOf (other.1.toList.drop k ++ next.1.toList) = true

theorem names_unmixed : Unmixed field.names := by
  cases field <;> unfold Unmixed <;> decide +kernel

theorem length_names : ∀ name ∈ field.names, name.1.toList.length = 3 := by
  cases field <;> decide

theorem nodup_names : (field.names.map Prod.fst).Nodup := by
  cases field <;> decide

theorem digit_not_in_names : ∀ name ∈ field.names, ∀ c ∈ name.1.toList, c.isDigit = false ∧ c.toNat < 128 := by
  have hall : ∀ name ∈ field.names, name.1.toList.all (fun c => !c.isDigit && c.toNat < 128) = true := by
    cases field <;> decide
  intro name hname c hc
  simpa using List.all_eq_true.mp (hall name hname) c hc

/-- What a name needs of the names beside it, for its replacement to leave them whole. -/
structure Tidy (names : List (String × Nat)) : Prop where
  unmixed : Unmixed names
  length : ∀ name ∈ names, name.1.toList.length = 3
  nodup : (names.map Prod.fst).Nodup
  letters : ∀ name ∈ names, ∀ c ∈ name.1.toList, c.isDigit = false ∧ c.toNat < 128

theorem names_tidy : Tidy field.names := ⟨names_unmixed, length_names, nodup_names, digit_not_in_names⟩

namespace Tidy

variable {name other : String × Nat} {names : List (String × Nat)} {text digits : List Char}

theorem ne_nil (h : Tidy names) (hname : name ∈ names) : name.1.toList ≠ [] := by
  intro hnil
  have hlength := h.length name hname
  rw [hnil] at hlength
  cases hlength

theorem tail (h : Tidy (name :: names)) : Tidy names where
  unmixed first hfirst other hother hne next hnext :=
    h.unmixed first (List.mem_cons_of_mem name hfirst) other (List.mem_cons_of_mem name hother) hne next
      (List.mem_cons_of_mem name hnext)
  length other hother := h.length other (List.mem_cons_of_mem name hother)
  nodup := (List.nodup_cons.mp h.nodup).2
  letters other hother := h.letters other (List.mem_cons_of_mem name hother)

theorem not_decimal (h : Tidy names) (hname : name ∈ names) {c : Char} (hc : py.isDecimal c = true) :
    c ∉ name.1.toList := by
  intro hmem
  obtain ⟨hletter, hascii⟩ := h.letters name hname c hmem
  rw [Python.isDecimal_false hascii hletter] at hc
  cases hc

/-- A name does not begin inside another one that a row follows. -/
theorem not_prefix (h : Tidy names) (hname : name ∈ names) (hother : other ∈ names) (hne : name.1 ≠ other.1)
    (hrow : Glued py names text digits) {k : Nat} (hk : k < 3) :
    ¬ name.1.toList <+: other.1.toList.drop k ++ text := by
  have halone : ¬ name.1.toList <+: other.1.toList.drop k := fun hstarts =>
    h.unmixed name hname other hother hne name hname k hk
      (List.isPrefixOf_iff_prefix.mpr (hstarts.trans (List.prefix_append _ _)))
  intro hstarts
  cases hrow with
  | nil => exact halone (by simpa using hstarts)
  | decimal hc _ => exact halone (prefix_of_prefix_before (h.not_decimal hname hc) hstarts)
  | @name next rest digits hnext _ =>
    rw [← List.append_assoc] at hstarts
    have hlength : name.1.toList.length ≤ (other.1.toList.drop k ++ next.1.toList).length := by
      rw [List.length_append, h.length name hname, h.length next hnext]
      omega
    exact h.unmixed name hname other hother hne next hnext k hk
      (List.isPrefixOf_iff_prefix.mpr (List.prefix_of_prefix_length_le hstarts (List.prefix_append _ _) hlength))

/-- Another name in front of a row is left as it is. -/
theorem replaceAll_other (h : Tidy names) (hname : name ∈ names) (hother : other ∈ names) (hne : name.1 ≠ other.1)
    (hrow : Glued py names text digits) (new : List Char) :
    replaceAll name.1.toList new (other.1.toList ++ text) = other.1.toList ++ replaceAll name.1.toList new text := by
  have hnot := fun k (hk : k < 3) => h.not_prefix hname hother hne hrow hk
  obtain ⟨a, b, c, hletters⟩ := List.length_eq_three.mp (h.length other hother)
  rw [hletters] at hnot ⊢
  have hfirst := hnot 0 (by omega)
  have hsecond := hnot 1 (by omega)
  have hthird := hnot 2 (by omega)
  simp only [List.drop_zero, List.drop_succ_cons, List.cons_append, List.nil_append] at hfirst hsecond hthird ⊢
  rw [replaceAll_later hfirst, replaceAll_later hsecond, replaceAll_later hthird]

/-- The replacement of one name leaves a row of decimals and the other names. -/
theorem replaced (h : Tidy (name :: names)) (hrow : Glued py (name :: names) text digits) :
    Glued py names (replaceAll name.1.toList (digitsOf name.2) text) digits := by
  have hne := h.ne_nil List.mem_cons_self
  induction hrow with
  | nil => exact .nil
  | @decimal c text digits hc _ ih =>
    have haround := @replaceAll_around _ _ name.1.toList (digitsOf name.2) c [] text
      (h.not_decimal List.mem_cons_self hc) hne
    rw [List.nil_append] at haround
    rw [haround]
    exact .decimal hc ih
  | @name other rest digits hother hrest ih =>
    rcases List.mem_cons.mp hother with rfl | hmem
    · rw [replaceAll_pattern_append hne]
      refine Glued.append (.of_decimals fun c hc => ?_) ih
      have hdigit := isDigit_of_mem_digitsOf hc
      rw [Python.isDecimal, py.decimal_ascii c (ascii_of_digit hdigit), if_pos hdigit]
      rfl
    · have hapart : name.1 ≠ other.1 := fun heq =>
        (List.nodup_cons.mp h.nodup).1 (heq ▸ List.mem_map_of_mem hmem)
      rw [h.replaceAll_other List.mem_cons_self hother hapart hrest]
      exact .name hmem ih

theorem substituted (h : Tidy names) (hrow : Glued py names text digits) :
    names.foldl (fun text name => replaceAll name.1.toList (digitsOf name.2) text) text = digits := by
  induction names generalizing text with
  | nil => exact hrow.eq_of_no_names
  | cons name names ih => exact ih h.tail (h.replaced hrow)

end Tidy

/-! ## The two readings agree -/

/-- The text in capitals with the names of its field replaced. -/
def CronField.substituted (field : CronField) (capitals : List Char) : List Char :=
  field.names.foldl (fun text name => replaceAll name.1.toList (digitsOf name.2) text) capitals

theorem number_substituted {token : List Char} {n : Nat} :
    py.Number (field.substituted token) n ↔ GluedNumber py field token n := by
  constructor
  · intro h
    exact ⟨_, .of_substituted (fun name hname => names_tidy.ne_nil hname)
      (fun name hname c hc => (digit_not_in_names name hname c hc).1) h.2.1, h⟩
  · rintro ⟨digits, hrow, hnumber⟩
    rwa [CronField.substituted, names_tidy.substituted hrow]

theorem substituted_around {c : Char} (h : isSeparator c) (before after : List Char) :
    field.substituted (before ++ c :: after) = field.substituted before ++ c :: field.substituted after :=
  foldl_replaceAll_around (not_mem_names h)

theorem substituted_nil : field.substituted [] = [] := by
  rw [CronField.substituted]
  induction field.names with
  | nil => rfl
  | cons name names ih => exact ih

theorem mem_substituted {text : List Char} {c : Char} (h : c ∈ field.substituted text) : c.isDigit = true ∨ c ∈ text := by
  rw [CronField.substituted] at h
  generalize field.names = names at h
  induction names generalizing text with
  | nil => exact .inr h
  | cons name names ih =>
    rcases ih h with hdigit | hmem
    · exact .inl hdigit
    · rcases mem_replaceAll hmem with hnew | hold
      · exact .inl (isDigit_of_mem_digitsOf hnew)
      · exact .inr hold

theorem sep_mem_substituted {sep : Char} (hsep : isSeparator sep) {text : List Char} :
    sep ∈ field.substituted text ↔ sep ∈ text := by
  constructor
  · intro hmem
    rcases mem_substituted hmem with hdigit | hold
    · rcases hsep with rfl | rfl | rfl | rfl | rfl <;> exact absurd hdigit (by decide)
    · exact hold
  · intro hmem
    obtain ⟨before, after, rfl⟩ := List.append_of_mem hmem
    rw [substituted_around hsep]
    exact List.mem_append_right _ List.mem_cons_self

/-- The first separator of what is substituted is the first of the text. -/
theorem exists_substituted {sep : Char} (hsep : isSeparator sep) {text before after : List Char}
    (h : field.substituted text = before ++ sep :: after) (hnot : sep ∉ before) :
    ∃ before' after', text = before' ++ sep :: after' ∧ field.substituted before' = before ∧
      field.substituted after' = after := by
  have hmem : sep ∈ text := by
    rw [← @sep_mem_substituted field sep hsep text, h]
    exact List.mem_append_right _ List.mem_cons_self
  obtain ⟨before', after', rfl, hnot'⟩ := List.eq_append_cons_of_mem hmem
  rw [substituted_around hsep] at h
  exact ⟨before', after', rfl, first_inj h (mt (sep_mem_substituted hsep).mp hnot') hnot⟩

theorem Glued.eq_nil {names : List (String × Nat)} {text : List Char} (h : Glued py names text []) : text = [] := by
  generalize hdigits : ([] : List Char) = digits at h
  cases h with
  | nil => rfl
  | decimal => cases hdigits
  | name => exact absurd (List.append_eq_nil_iff.mp hdigits.symm).1 (digitsOf_ne_nil _)

theorem eq_nil_of_substituted {text : List Char} (h : field.substituted text = []) : text = [] := by
  have hall : ∀ c ∈ field.substituted text, Python.ascii.isDecimal c = true := by
    rw [h]
    exact fun c hc => absurd hc List.not_mem_nil
  have hrow := Glued.of_substituted (fun name hname => names_tidy.ne_nil hname)
    (fun name hname c hc => (digit_not_in_names name hname c hc).1) hall
  rw [← CronField.substituted, h] at hrow
  exact hrow.eq_nil

theorem star_of_substituted {text : List Char} (h : field.substituted text = ['*']) : text = ['*'] := by
  obtain ⟨before, after, rfl, hbefore, hafter⟩ := @exists_substituted field '*' (.inl rfl) text [] [] h List.not_mem_nil
  rw [eq_nil_of_substituted hbefore, eq_nil_of_substituted hafter]
  rfl

theorem substituted_star : field.substituted ['*'] = ['*'] := by
  rw [show ['*'] = [] ++ '*' :: [] from rfl, substituted_around (.inl rfl), substituted_nil]

theorem span_substituted {text : List Char} {first last open' : Nat} :
    Span (rewriting py) field (field.substituted text) first last open' ↔
      Span (loose py) field text first last open' := by
  have hdash : isSeparator '-' := .inr (.inr (.inl rfl))
  constructor
  · intro h
    generalize hwhole : field.substituted text = whole at h
    cases h with
    | star =>
      rw [star_of_substituted hwhole]
      exact .star
    | one hnumber => exact .one (number_substituted.mp (hwhole ▸ hnumber))
    | range hfirst hlast =>
      obtain ⟨before, after, rfl, rfl, rfl⟩ := exists_substituted hdash hwhole (sep_not_mem_of_number hfirst hdash)
      exact .range (number_substituted.mp hfirst) (number_substituted.mp hlast)
  · intro h
    cases h with
    | star =>
      rw [substituted_star]
      exact .star
    | one hnumber => exact .one (number_substituted.mpr hnumber)
    | range hfirst hlast =>
      rw [substituted_around hdash]
      exact .range (number_substituted.mpr hfirst) (number_substituted.mpr hlast)

theorem element_substituted {text : List Char} {values : Finset Nat} :
    Element (rewriting py) field (field.substituted text) values ↔ Element (loose py) field text values := by
  have hslash : isSeparator '/' := .inr (.inr (.inr (.inl rfl)))
  constructor
  · intro h
    generalize hwhole : field.substituted text = whole at h
    cases h with
    | plain hspan hlow hle hhigh => exact .plain (span_substituted.mp (hwhole ▸ hspan)) hlow hle hhigh
    | stepped hspan hlow hle hhigh hstep hone hwidth =>
      obtain ⟨before, after, rfl, rfl, rfl⟩ := exists_substituted hslash hwhole (slash_not_mem_span hspan)
      exact .stepped (span_substituted.mp hspan) hlow hle hhigh (number_substituted.mp hstep) hone hwidth
  · intro h
    cases h with
    | plain hspan hlow hle hhigh => exact .plain (span_substituted.mpr hspan) hlow hle hhigh
    | stepped hspan hlow hle hhigh hstep hone hwidth =>
      rw [substituted_around hslash]
      exact .stepped (span_substituted.mpr hspan) hlow hle hhigh (number_substituted.mpr hstep) hone hwidth

theorem elements_substituted {text : List Char} {values : Finset Nat} :
    Elements (rewriting py) field (field.substituted text) values ↔ Elements (loose py) field text values := by
  have hcomma : isSeparator ',' := .inr (.inl rfl)
  constructor
  · intro h
    generalize hwhole : field.substituted text = whole at h
    induction h generalizing text with
    | last helement => exact .last (element_substituted.mp (hwhole ▸ helement))
    | more helement _ ih =>
      obtain ⟨before, after, rfl, rfl, hafter⟩ := exists_substituted hcomma hwhole (comma_not_mem helement)
      exact .more (element_substituted.mp helement) (ih hafter)
  · intro h
    induction h with
    | last helement => exact .last (element_substituted.mpr helement)
    | more helement _ ih =>
      rw [substituted_around hcomma]
      exact .more (element_substituted.mpr helement) ih

theorem fieldReads_loose {text : List Char} {values : Finset Nat} :
    FieldReads (rewriting py) field text values ↔ FieldReads (loose py) field text values := by
  have hfield : (rewriting py).field field text = field.substituted ((loose py).field field text) :=
    rewritten_eq field text
  simp only [FieldReads, hfield, elements_substituted]

/-- The parser reads the sentences of the loose grammar, with its sets. -/
theorem accepts_loose {text : String} {expr : CronExpr} :
    Accepts (rewriting py) text expr ↔ Accepts (loose py) text expr := by
  simp only [Accepts, fieldReads_loose]
  rfl

/-! ## The parser and the grammar -/

/-- A sentence of the documented grammar. -/
def InGrammar (text : String) : Prop := ∃ expr, Accepts documented text expr

/-- A sentence in capitals, with rows of decimals and names of the field for its numbers. -/
def LooseSentence (py : Python) (text : String) : Prop := ∃ expr, Accepts (loose py) text expr

/-- The parser accepts a text exactly when the grammar does, with the sets the grammar gives: in the grammar
when no number is too long, outside it when its rows of decimals and names make no sentence either. -/
theorem parse_meets_grammar_iff (py : Python) (text : String) :
    (((∃ expr, parse py text = .ok expr) ↔ InGrammar text) ∧
        ∀ expr, parse py text = .ok expr → Accepts documented text expr) ↔
      (InGrammar text ∧ ShortNumbers (normalised text)) ∨ (¬ InGrammar text ∧ ¬ LooseSentence py text) := by
  have hparse : (∃ expr, parse py text = .ok expr) ↔ LooseSentence py text := by
    simp only [parse_iff_accepts, accepts_loose]
    rfl
  rw [hparse]
  constructor
  · rintro ⟨hiff, -⟩
    by_cases hin : InGrammar text
    · obtain ⟨expr, h⟩ := hiff.mpr hin
      exact .inl ⟨hin, shortNumbers_of_accepts (accepts_loose.mpr h)⟩
    · exact .inr ⟨hin, fun h => hin (hiff.mp h)⟩
  · rintro (⟨hin, hshort⟩ | ⟨hout, hnot⟩)
    · obtain ⟨expr, hexpr⟩ := hin
      have hread := parse_iff_accepts.mpr (@accepts_rewriting py text expr hexpr hshort)
      refine ⟨⟨fun _ => ⟨expr, hexpr⟩, fun _ => hparse.mp ⟨expr, hread⟩⟩, fun expr' h => ?_⟩
      rw [hread] at h
      rwa [← Except.ok.inj h]
    · refine ⟨⟨fun h => absurd h hnot, fun h => absurd h hout⟩, fun expr h => ?_⟩
      exact absurd (hparse.mp ⟨expr, h⟩) hnot

theorem number_of_elements {reading : Reading} {text : List Char} {values : Finset Nat}
    (h : Elements reading field text values)
    (hnot : ',' ∉ text ∧ '/' ∉ text ∧ '-' ∉ text ∧ '*' ∉ text) : ∃ n, reading.number field text n := by
  obtain ⟨hcomma, hslash, hdash, hstar⟩ := hnot
  cases h with
  | last helement =>
    cases helement with
    | plain hspan =>
      cases hspan with
      | star => exact absurd (List.mem_singleton_self '*') hstar
      | one hnumber => exact ⟨_, hnumber⟩
      | range => exact absurd (List.mem_append_right _ List.mem_cons_self) hdash
    | stepped => exact absurd (List.mem_append_right _ List.mem_cons_self) hslash
  | more => exact absurd (List.mem_append_right _ List.mem_cons_self) hcomma

/-- Two names written as one are read as December. -/
theorem parse_glued_names :
    (∃ expr, parse Python.ascii "0 0 1 JANFEB *" = .ok expr ∧ expr.months = {12}) ∧
      ¬ InGrammar "0 0 1 JANFEB *" := by
  constructor
  · refine ⟨
      { source := "0 0 1 JANFEB *".toList, minutes := {0}, hours := {0}, days := {1}, months := {12},
        weekdays := Finset.Icc 0 6, daysRestricted := true, weekdaysRestricted := false }, ?_, rfl⟩
    decide
  · rintro ⟨expr, minute, hour, day, month, week, hfields, -, -, -, ⟨listed, helements, -⟩, -⟩
    have hsplit : (normalised "0 0 1 JANFEB *").splitOn ' ' =
        [['0'], ['0'], ['1'], ['J', 'A', 'N', 'F', 'E', 'B'], ['*']] := by decide
    rcases hfields with hsame | ⟨entry, hentry, htext, -⟩
    · rw [hsplit] at hsame
      simp only [List.cons.injEq] at hsame
      obtain ⟨-, -, -, rfl, -⟩ := hsame
      obtain ⟨n, hdecimal | hname⟩ := number_of_elements helements (by decide)
      · have hletter := hdecimal.2.1 'J' (by decide)
        cases hletter
      · have hnames : ∀ name ∈ CronField.month.names, name.1 ≠ "JANFEB" := by decide
        have hupper : String.ofList (['J', 'A', 'N', 'F', 'E', 'B'].map Char.toUpper) = "JANFEB" := by decide
        exact hnames _ hname hupper
    · have hnone : ∀ entry ∈ aliases, (normalised "0 0 1 JANFEB *").map Char.toLower ≠ entry.1.toList := by
        decide
      exact hnone entry hentry htext

end SwarmCloud.Cron
