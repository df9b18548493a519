import Mathlib.Data.List.Induction
import SwarmCloud.Accounts.Account
import SwarmCloud.Lib.Sorting

/-! # Folding usage readings into an account

`Account.with_reading` merges a reading window by window. The readings of one
account arrive in any order; what follows says when the order shows.
-/

namespace SwarmCloud.Accounts

open Common Lib

structure Reading where
  windows : Dict String WindowReading
  observedAt : Instant

def limitResetSkew : Instant := seconds 120

namespace Account

/-- Whether a stored window is as new as `observedAt`; a window without a date of
its own is dated by the account. -/
def outdates (a : Account) (current : Option WindowReading) (observedAt : Instant) : Bool :=
  (current.bind fun w => w.observedAt <|> a.observedAt).any fun dated => observedAt ≤ dated

def mergeWindow (a : Account) (observedAt : Instant) (found : Dict String WindowReading × Bool)
    (item : String × WindowReading) : Dict String WindowReading × Bool :=
  if a.outdates (found.1.lookup item.1) observedAt then found
  else (found.1.set item.1 { item.2 with observedAt := some observedAt }, true)

/-- Whether a reading of a window shows that it is not the one a 429 refused until `limit`. -/
def showsReset (reading : WindowReading) (limit : Instant) : Bool :=
  limitResetSkew < ((reading.resetsAt - limit).natAbs : Int)

/-- `_reading_clears_limit` -/
def readingClearsLimit (a : Account) (windows merged : Dict String WindowReading) (observedAt : Instant) :
    Bool :=
  match a.limitedUntil, a.limitedWindow with
  | some limit, some name =>
    if name = "" ∨ (windows.lookup name).isNone then false
    else (merged.lookup name).any fun reading =>
      reading.observedAt = some observedAt && showsReset reading limit
  | _, _ => false

def withReading (a : Account) (r : Reading) : Account :=
  let merged := r.windows.foldl (a.mergeWindow r.observedAt) (a.windows, false)
  if merged.2 then
    let newest := match a.observedAt with
      | some seen => if r.observedAt < seen then seen else r.observedAt
      | none => r.observedAt
    let cleared := a.readingClearsLimit r.windows merged.1 r.observedAt
    { a with
      windows := merged.1
      observedAt := some newest
      limitedUntil := if cleared then none else a.limitedUntil
      limitedWindow := if cleared then none else a.limitedWindow }
  else a

/-- Readings folded in one after the other. -/
def withReadings (a : Account) (rs : List Reading) : Account := rs.foldl withReading a

/-! ## One reading -/

section One

variable {a : Account} {r : Reading} {name : String} {t : Instant} {found : Dict String WindowReading × Bool}

theorem outdates_self (w : WindowReading) : a.outdates (some { w with observedAt := some t }) t = true := by
  simp [outdates]

theorem lookup_mergeWindow (items : Dict String WindowReading) :
    (items.foldl (a.mergeWindow t) found).1.lookup name =
      match items.lookup name with
      | none => found.1.lookup name
      | some w =>
        if a.outdates (found.1.lookup name) t then found.1.lookup name
        else some { w with observedAt := some t } := by
  induction items generalizing found with
  | nil => rfl
  | cons item items ih =>
    obtain ⟨key, w⟩ := item
    rw [List.foldl_cons, ih, mergeWindow, List.lookup_cons]
    by_cases hstale : a.outdates (found.1.lookup key) t
    · rw [if_pos hstale]
      by_cases hname : name = key
      · subst hname
        simp only [beq_self_eq_true, hstale, if_true]
        split <;> rfl
      · rw [beq_false_of_ne hname]
    · rw [if_neg hstale]
      by_cases hname : name = key
      · subst hname
        simp only [beq_self_eq_true, hstale, Dict.lookup_set, if_true, outdates_self]
        split <;> rfl
      · simp only [beq_false_of_ne hname, Dict.lookup_set, hname, if_false]

theorem changed_mergeWindow (items : Dict String WindowReading) :
    (items.foldl (a.mergeWindow t) found).2 = true ↔
      found.2 = true ∨ ∃ item ∈ items, a.outdates (found.1.lookup item.1) t = false := by
  induction items generalizing found with
  | nil => simp
  | cons item items ih =>
    rw [List.foldl_cons, ih, mergeWindow]
    by_cases hstale : a.outdates (found.1.lookup item.1) t
    · simp [hstale]
    · simp [hstale]

/-- A reading is newer than what the account has of the window. -/
def Fresh (a : Account) (name : String) (t : Instant) : Prop := a.outdates (a.windows.lookup name) t = false

/-- The account takes the reading, in one window at least. -/
def Takes (a : Account) (r : Reading) : Prop :=
  ∃ name w, r.windows.lookup name = some w ∧ a.Fresh name r.observedAt

theorem changed_iff_takes :
    (r.windows.foldl (a.mergeWindow r.observedAt) (a.windows, false)).2 = true ↔ a.Takes r := by
  rw [changed_mergeWindow]
  constructor
  · rintro (hfalse | ⟨item, hitem, hfresh⟩)
    · cases hfalse
    · obtain ⟨w, hw⟩ := Dict.exists_lookup hitem
      exact ⟨item.1, w, hw, hfresh⟩
  · rintro ⟨name, w, hw, hfresh⟩
    exact .inr ⟨(name, w), Dict.mem_of_lookup hw, hfresh⟩

theorem withReading_of_not_takes (h : ¬ a.Takes r) : a.withReading r = a := by
  rw [← changed_iff_takes] at h
  rw [withReading, if_neg h]

/-- The windows after a reading: the reading's own where it is fresh. -/
theorem lookup_withReading (a : Account) (r : Reading) (name : String) :
    (a.withReading r).windows.lookup name =
      match r.windows.lookup name with
      | none => a.windows.lookup name
      | some w =>
        if a.outdates (a.windows.lookup name) r.observedAt then a.windows.lookup name
        else some { w with observedAt := some r.observedAt } := by
  by_cases htakes : a.Takes r
  · rw [withReading, if_pos (changed_iff_takes.mpr htakes)]
    exact lookup_mergeWindow r.windows
  · rw [withReading_of_not_takes htakes]
    cases hw : r.windows.lookup name with
    | none => rfl
    | some w =>
      have hstale : a.outdates (a.windows.lookup name) r.observedAt = true := by
        by_contra hfresh
        exact htakes ⟨name, w, hw, by simpa [Fresh] using hfresh⟩
      simp [hstale]

theorem lookup_of_fresh {w : WindowReading} (hw : r.windows.lookup name = some w)
    (hfresh : a.Fresh name r.observedAt) :
    (a.withReading r).windows.lookup name = some { w with observedAt := some r.observedAt } := by
  rw [lookup_withReading, hw]
  exact if_neg (by rw [hfresh]; exact Bool.false_ne_true)

theorem lookup_of_stale (hstale : ∀ w, r.windows.lookup name = some w → ¬ a.Fresh name r.observedAt) :
    (a.withReading r).windows.lookup name = a.windows.lookup name := by
  rw [lookup_withReading]
  cases hw : r.windows.lookup name with
  | none => rfl
  | some w => exact if_pos (by simpa [Fresh] using hstale w hw)

theorem observedAt_of_takes (h : a.Takes r) : (a.withReading r).observedAt =
    some (match a.observedAt with
      | some seen => if r.observedAt < seen then seen else r.observedAt
      | none => r.observedAt) := by
  rw [withReading, if_pos (changed_iff_takes.mpr h)]

theorem observedAt_mono {o : Instant} (r : Reading) (ho : a.observedAt = some o) :
    ∃ o', (a.withReading r).observedAt = some o' ∧ o ≤ o' := by
  by_cases htakes : a.Takes r
  · rw [observedAt_of_takes htakes, ho]
    by_cases hlt : r.observedAt < o
    · exact ⟨o, by simp [hlt], le_rfl⟩
    · exact ⟨r.observedAt, by simp [hlt], not_lt.mp hlt⟩
  · rw [withReading_of_not_takes htakes]
    exact ⟨o, ho, le_rfl⟩

/-- The reading ends the hold of a recorded 429. -/
def Clears (a : Account) (r : Reading) : Prop :=
  a.Takes r ∧ a.readingClearsLimit r.windows (a.withReading r).windows r.observedAt = true

theorem limit_of_clears (h : a.Clears r) :
    (a.withReading r).limitedUntil = none ∧ (a.withReading r).limitedWindow = none := by
  have hclears := h.2
  rw [withReading, if_pos (changed_iff_takes.mpr h.1)] at hclears ⊢
  dsimp only at hclears ⊢
  rw [hclears]
  exact ⟨rfl, rfl⟩

theorem limit_of_not_clears (h : ¬ a.Clears r) :
    (a.withReading r).limitedUntil = a.limitedUntil ∧ (a.withReading r).limitedWindow = a.limitedWindow := by
  by_cases htakes : a.Takes r
  · have hkept : a.readingClearsLimit r.windows (a.withReading r).windows r.observedAt = false := by
      rw [← Bool.not_eq_true]
      exact fun hclears => h ⟨htakes, hclears⟩
    rw [withReading, if_pos (changed_iff_takes.mpr htakes)] at hkept ⊢
    dsimp only at hkept ⊢
    rw [hkept]
    exact ⟨rfl, rfl⟩
  · rw [withReading_of_not_takes htakes]
    exact ⟨rfl, rfl⟩

theorem readingClearsLimit_iff {windows merged : Dict String WindowReading} :
    a.readingClearsLimit windows merged t = true ↔
      ∃ limit name x w, a.limitedUntil = some limit ∧ a.limitedWindow = some name ∧ name ≠ "" ∧
        windows.lookup name = some x ∧ merged.lookup name = some w ∧ w.observedAt = some t ∧
        showsReset w limit = true := by
  rw [readingClearsLimit]
  cases a.limitedUntil with
  | none => simp
  | some limit =>
    cases a.limitedWindow with
    | none => simp
    | some name =>
      cases hx : windows.lookup name with
      | none => simp [hx]
      | some x =>
        cases hw : merged.lookup name with
        | none => simp [hx, hw]
        | some w => simp [hx, hw]

/-! ## Many readings -/

/-- What a window is dated by is never earlier after a reading. -/
theorem outdates_withReading (r : Reading) (hstale : a.outdates (a.windows.lookup name) t = true) :
    (a.withReading r).outdates ((a.withReading r).windows.lookup name) t = true := by
  obtain ⟨w, hw⟩ : ∃ w, a.windows.lookup name = some w := by
    cases hw : a.windows.lookup name with
    | none => simp [outdates, hw] at hstale
    | some w => exact ⟨w, rfl⟩
  by_cases hfresh : ∃ x, r.windows.lookup name = some x ∧ a.Fresh name r.observedAt
  · obtain ⟨x, hx, hfresh⟩ := hfresh
    rw [lookup_of_fresh hx hfresh]
    simp only [Fresh, outdates, hw, Option.bind_some] at hfresh hstale ⊢
    cases hd : (w.observedAt <|> a.observedAt) with
    | none => simp [hd] at hstale
    | some d =>
      simp only [hd, Option.any_some, decide_eq_true_eq, decide_eq_false_iff_not, not_le] at hfresh hstale
      simpa using hstale.trans hfresh.le
  · have hsame : (a.withReading r).windows.lookup name = a.windows.lookup name :=
      lookup_of_stale fun x hx hf => hfresh ⟨x, hx, hf⟩
    rw [hsame, hw]
    rw [hw] at hstale
    cases hd : w.observedAt with
    | some d => simpa [outdates, hd] using hstale
    | none =>
      by_cases htakes : a.Takes r
      · cases ho : a.observedAt with
        | none => simp [outdates, hd, ho] at hstale
        | some o =>
          have hle : t ≤ o := by simpa [outdates, hd, ho] using hstale
          simp only [outdates, hd, Option.bind_some, observedAt_of_takes htakes, ho]
          by_cases hlt : r.observedAt < o
          · simpa [hlt] using hle
          · simpa [hlt] using hle.trans (not_lt.mp hlt)
      · rw [withReading_of_not_takes htakes]
        exact hstale

end One

section Many

variable {a : Account} {r : Reading} {name : String} {t : Instant} {s u : List Reading}

theorem fresh_iff : a.Fresh name t ↔ ∀ w, a.windows.lookup name = some w →
    ∀ d, (w.observedAt <|> a.observedAt) = some d → d < t := by
  rw [Fresh, outdates]
  cases hw : a.windows.lookup name with
  | none => simp
  | some w =>
    simp only [Option.bind_some, Option.some.injEq, forall_eq']
    cases (w.observedAt <|> a.observedAt) with
    | none => simp
    | some d => simp

theorem withReadings_concat (a : Account) (s : List Reading) (r : Reading) :
    a.withReadings (s ++ [r]) = (a.withReadings s).withReading r := by
  rw [withReadings, List.foldl_append]
  rfl

theorem withReadings_append (a : Account) (s u : List Reading) :
    a.withReadings (s ++ u) = (a.withReadings s).withReadings u := by
  rw [withReadings, List.foldl_append]
  rfl

theorem outdates_withReadings (s : List Reading) (hstale : a.outdates (a.windows.lookup name) t = true) :
    (a.withReadings s).outdates ((a.withReadings s).windows.lookup name) t = true := by
  induction s using List.reverseRecOn with
  | nil => exact hstale
  | append_singleton s r ih =>
    rw [withReadings_concat]
    exact outdates_withReading r ih

/-- A window that is fresh for a reading late in the order was fresh for it from the start. -/
theorem fresh_of_withReadings (s : List Reading) (hfresh : (a.withReadings s).Fresh name t) : a.Fresh name t := by
  by_contra hstale
  have hlate := @outdates_withReadings a name t s (by simpa [Fresh] using hstale)
  rw [Fresh, hlate] at hfresh
  cases hfresh

theorem takes_of_withReadings (s : List Reading) (htakes : (a.withReadings s).Takes r) : a.Takes r := by
  obtain ⟨name, w, hw, hfresh⟩ := htakes
  exact ⟨name, w, hw, fresh_of_withReadings s hfresh⟩

/-- A window of the account is one it had, or one that a reading brought. -/
theorem window_withReadings (s : List Reading) (name : String) :
    (a.withReadings s).windows.lookup name = a.windows.lookup name ∨
      ∃ r ∈ s, ∃ w, r.windows.lookup name = some w ∧ a.Fresh name r.observedAt ∧
        (a.withReadings s).windows.lookup name = some { w with observedAt := some r.observedAt } := by
  induction s using List.reverseRecOn with
  | nil => exact .inl rfl
  | append_singleton s r ih =>
    rw [withReadings_concat]
    by_cases hbrings : ∃ w, r.windows.lookup name = some w ∧ (a.withReadings s).Fresh name r.observedAt
    · obtain ⟨w, hw, hfresh⟩ := hbrings
      exact .inr ⟨r, by simp, w, hw, fresh_of_withReadings s hfresh, lookup_of_fresh hw hfresh⟩
    · rw [lookup_of_stale fun w hw hfresh => hbrings ⟨w, hw, hfresh⟩]
      obtain hsame | ⟨r', hr', hbrought⟩ := ih
      · exact .inl hsame
      · exact .inr ⟨r', List.mem_append_left _ hr', hbrought⟩

/-- The account is as new as every reading that it could take. -/
theorem observedAt_ge (s : List Reading) (hr : r ∈ s) (htakes : a.Takes r) :
    ∃ o, (a.withReadings s).observedAt = some o ∧ r.observedAt ≤ o := by
  induction s using List.reverseRecOn generalizing r with
  | nil => cases hr
  | append_singleton s last ih =>
    rw [withReadings_concat]
    rw [List.mem_append, List.mem_singleton] at hr
    obtain hr | rfl := hr
    · obtain ⟨o, ho, hle⟩ := ih hr htakes
      obtain ⟨o', ho', hle'⟩ := observedAt_mono last ho
      exact ⟨o', ho', hle.trans hle'⟩
    · by_cases hlast : (a.withReadings s).Takes r
      · rw [observedAt_of_takes hlast]
        cases ho : (a.withReadings s).observedAt with
        | none => exact ⟨r.observedAt, rfl, le_rfl⟩
        | some o =>
          by_cases hlt : r.observedAt < o
          · exact ⟨o, by simp [hlt], hlt.le⟩
          · exact ⟨r.observedAt, by simp [hlt], le_rfl⟩
      -- a reading that is not taken meets a window as new as itself
      · rw [withReading_of_not_takes hlast]
        obtain ⟨name, w, hw, hfresh⟩ := htakes
        have hstale : ¬ (a.withReadings s).Fresh name r.observedAt := fun h => hlast ⟨name, w, hw, h⟩
        rw [fresh_iff] at hstale
        simp only [not_forall, not_lt] at hstale
        obtain ⟨v, hv, d, hd, hle⟩ := hstale
        obtain hsame | ⟨r', hr', w', hw', hfresh', hbrought⟩ := window_withReadings s name
        · rw [hsame] at hv
          cases hown : v.observedAt with
          | some own =>
            have hdated : (v.observedAt <|> a.observedAt) = some own := by rw [hown]; rfl
            have hdate : d = own := by
              rw [hown] at hd
              simpa using hd.symm
            exact absurd (fresh_iff.mp hfresh v hv own hdated) (by rw [← hdate]; exact not_lt.mpr hle)
          | none =>
            rw [hown] at hd
            exact ⟨d, by simpa using hd, hle⟩
        · rw [hbrought] at hv
          obtain rfl := Option.some.inj hv
          have hdate : d = r'.observedAt := by simpa using hd.symm
          obtain ⟨o, ho, hle'⟩ := ih hr' ⟨name, w', hw', hfresh'⟩
          exact ⟨o, ho, (hdate ▸ hle).trans hle'⟩

/-- The account is dated by what dated it, or by a reading that it could take. -/
theorem observedAt_from (s : List Reading) {o : Instant} (ho : (a.withReadings s).observedAt = some o) :
    a.observedAt = some o ∨ ∃ r ∈ s, a.Takes r ∧ r.observedAt = o := by
  induction s using List.reverseRecOn generalizing o with
  | nil => exact .inl ho
  | append_singleton s last ih =>
    have hbefore : ∀ o, (a.withReadings s).observedAt = some o →
        a.observedAt = some o ∨ ∃ r ∈ s ++ [last], a.Takes r ∧ r.observedAt = o := by
      intro o ho
      obtain hsame | ⟨r, hr, htaken⟩ := ih ho
      · exact .inl hsame
      · exact .inr ⟨r, List.mem_append_left _ hr, htaken⟩
    rw [withReadings_concat] at ho
    by_cases hlast : (a.withReadings s).Takes last
    · have hnew : ∃ r ∈ s ++ [last], a.Takes r ∧ r.observedAt = last.observedAt :=
        ⟨last, by simp, takes_of_withReadings s hlast, rfl⟩
      rw [observedAt_of_takes hlast, Option.some.injEq] at ho
      cases hseen : (a.withReadings s).observedAt with
      | none =>
        simp only [hseen] at ho
        exact .inr (ho ▸ hnew)
      | some seen =>
        simp only [hseen] at ho
        split at ho
        · exact hbefore o (ho ▸ hseen)
        · exact .inr (ho ▸ hnew)
    · rw [withReading_of_not_takes hlast] at ho
      exact hbefore o ho

theorem observedAt_le_withReadings (s : List Reading) {o : Instant} (ho : a.observedAt = some o) :
    ∃ o', (a.withReadings s).observedAt = some o' ∧ o ≤ o' := by
  induction s using List.reverseRecOn with
  | nil => exact ⟨o, ho, le_rfl⟩
  | append_singleton s last ih =>
    obtain ⟨o', ho', hle⟩ := ih
    obtain ⟨o'', ho'', hle'⟩ := observedAt_mono last ho'
    rw [withReadings_concat]
    exact ⟨o'', ho'', hle.trans hle'⟩

end Many

end Account

end SwarmCloud.Accounts
