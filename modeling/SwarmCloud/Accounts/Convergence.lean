import Mathlib.Data.List.MinMax
import SwarmCloud.Accounts.Readings

/-! # When the order of the readings shows

Two things make it show. A window stored before windows had dates is dated by
the account, so a reading of another window can make an older reading of it
come too late. And a 429's hold is ended by a reading accepted on arrival, so
an older reading that shows a reset ends it only if it comes before the newer
one. Everything else converges.
-/

namespace SwarmCloud.Accounts

open Common Lib Account

variable {a : Account} {rs s u : List Reading} {r m : Reading} {name : String} {t : Instant}
  {w : WindowReading}

/-- The newest of the readings that carry a window. -/
def Newest (rs : List Reading) (name : String) (m : Reading) : Prop :=
  m ∈ rs ∧ (∃ w, m.windows.lookup name = some w) ∧
    ∀ r ∈ rs, ∀ w, r.windows.lookup name = some w → r.observedAt ≤ m.observedAt

theorem exists_newest (hr : r ∈ rs) (hw : r.windows.lookup name = some w) : ∃ m, Newest rs name m := by
  obtain ⟨carriers, hcarriers⟩ : ∃ carriers, rs.filter (fun r => (r.windows.lookup name).isSome) = carriers :=
    ⟨_, rfl⟩
  have hmem : ∀ r, r ∈ carriers ↔ r ∈ rs ∧ ∃ w, r.windows.lookup name = some w := by
    intro r
    rw [← hcarriers, List.mem_filter, Option.isSome_iff_exists]
  cases hmax : carriers.argmax Reading.observedAt with
  | none =>
    rw [List.argmax_eq_none] at hmax
    have hin := (hmem r).mpr ⟨hr, w, hw⟩
    rw [hmax] at hin
    cases hin
  | some m =>
    obtain ⟨hm, hcarries⟩ := (hmem m).mp (List.argmax_mem hmax)
    refine ⟨m, hm, hcarries, fun r' hr' w' hw' => ?_⟩
    exact List.le_of_mem_argmax ((hmem r').mpr ⟨hr', w', hw'⟩) hmax

theorem Newest.perm (h : Newest rs name m) (hperm : s.Perm rs) : Newest s name m :=
  ⟨hperm.mem_iff.mpr h.1, h.2.1, fun r hr => h.2.2 r (hperm.mem_iff.mp hr)⟩

/-- A reading newer than a fresh one is fresh too. -/
theorem fresh_mono {t' : Instant} (hfresh : a.Fresh name t) (hle : t ≤ t') : a.Fresh name t' := by
  rw [fresh_iff] at hfresh ⊢
  intro w hw d hd
  exact (hfresh w hw d hd).trans_le hle

theorem not_fresh_iff : ¬ a.Fresh name t ↔ a.outdates (a.windows.lookup name) t = true := by
  simp [Fresh]

theorem outdates_carried (hr : r ∈ s) (hw : r.windows.lookup name = some w) :
    ¬ (a.withReadings s).Fresh name r.observedAt := by
  obtain ⟨before, after, rfl⟩ := List.append_of_mem hr
  rw [not_fresh_iff, withReadings_append]
  have hafter : (a.withReadings before).withReadings (r :: after) =
      ((a.withReadings before).withReading r).withReadings after := rfl
  rw [hafter]
  apply outdates_withReadings
  by_cases hfresh : (a.withReadings before).Fresh name r.observedAt
  · rw [lookup_of_fresh hw hfresh]
    simp [outdates]
  · exact outdates_withReading r (not_fresh_iff.mp hfresh)

/-- A window as new as all that is still to come stays as it is. -/
theorem window_kept (hstale : ¬ a.Fresh name t)
    (hlate : ∀ r ∈ u, ∀ w, r.windows.lookup name = some w → r.observedAt ≤ t) :
    (a.withReadings u).windows.lookup name = a.windows.lookup name := by
  induction u generalizing a with
  | nil => rfl
  | cons r u ih =>
    have hcons : a.withReadings (r :: u) = (a.withReading r).withReadings u := rfl
    have hhere : (a.withReading r).windows.lookup name = a.windows.lookup name := by
      apply lookup_of_stale
      intro w hw hfresh
      exact hstale (fresh_mono hfresh (hlate r List.mem_cons_self w hw))
    rw [hcons, ih, hhere]
    · rw [not_fresh_iff]
      exact outdates_withReading r (not_fresh_iff.mp hstale)
    · intro r' hr'
      exact hlate r' (List.mem_cons_of_mem _ hr')

/-- The readings have different dates. -/
def Dated (rs : List Reading) : Prop := (rs.map Reading.observedAt).Nodup

instance (rs : List Reading) : Decidable (Dated rs) := inferInstanceAs (Decidable (rs.map _).Nodup)

theorem Dated.perm (h : Dated rs) (hperm : s.Perm rs) : Dated s :=
  (hperm.map Reading.observedAt).nodup_iff.mpr h

theorem Dated.ne (h : Dated (s ++ m :: u)) (hr : r ∈ s ++ u) : r.observedAt ≠ m.observedAt := by
  have hperm : (m :: (s ++ u)).Perm (s ++ m :: u) := List.perm_middle.symm
  have hnodup := h.perm hperm
  rw [Dated, List.map_cons, List.nodup_cons] at hnodup
  intro heq
  exact hnodup.1 (heq ▸ List.mem_map_of_mem hr)

/-- No reading that the account takes is newer than the newest one of a window
it stores without a date. -/
def LegacyCovered (a : Account) (rs : List Reading) : Prop :=
  ∀ name w, a.windows.lookup name = some w → w.observedAt = none →
    ∀ m, Newest rs name m → a.Fresh name m.observedAt →
      ∀ r ∈ rs, a.Takes r → r.observedAt ≤ m.observedAt

/-- The newest reading of a window is accepted in every order. -/
theorem newest_accepted (hlegacy : LegacyCovered a (s ++ m :: u)) (hdated : Dated (s ++ m :: u))
    (hnewest : Newest (s ++ m :: u) name m) (hfresh : a.Fresh name m.observedAt) :
    (a.withReadings s).Fresh name m.observedAt := by
  have hearlier : ∀ r ∈ s, r.observedAt ≤ m.observedAt → r.observedAt < m.observedAt := by
    intro r hr hle
    exact lt_of_le_of_ne hle (hdated.ne (List.mem_append_left _ hr))
  rw [fresh_iff]
  intro v hv d hd
  obtain hsame | ⟨r, hr, w, hw, -, hbrought⟩ := @window_withReadings a s name
  · rw [hsame] at hv
    cases hown : v.observedAt with
    | some own =>
      have hdate : d = own := by
        rw [hown] at hd
        simpa using hd.symm
      rw [hdate]
      exact fresh_iff.mp hfresh v hv own (by rw [hown]; rfl)
    | none =>
      rw [hown] at hd
      have hseen : (a.withReadings s).observedAt = some d := by simpa using hd
      obtain hold | ⟨r, hr, htakes, hdate⟩ := observedAt_from s hseen
      · exact fresh_iff.mp hfresh v hv d (by rw [hown, hold]; rfl)
      · rw [← hdate]
        apply hearlier r hr
        exact hlegacy name v hv hown m hnewest hfresh r (List.mem_append_left _ hr) htakes
  · rw [hbrought] at hv
    obtain rfl := Option.some.inj hv
    have hdate : d = r.observedAt := by simpa using hd.symm
    rw [hdate]
    exact hearlier r hr (hnewest.2.2 r (List.mem_append_left _ hr) w hw)

/-- After all readings a window is as the newest reading of it left it. -/
theorem lookup_of_newest (hlegacy : LegacyCovered a (s ++ m :: u)) (hdated : Dated (s ++ m :: u))
    (hnewest : Newest (s ++ m :: u) name m) (hfresh : a.Fresh name m.observedAt)
    (hw : m.windows.lookup name = some w) :
    (a.withReadings (s ++ m :: u)).windows.lookup name =
      some { w with observedAt := some m.observedAt } := by
  have hhere := lookup_of_fresh hw (newest_accepted hlegacy hdated hnewest hfresh)
  have hsplit : a.withReadings (s ++ m :: u) = ((a.withReadings s).withReading m).withReadings u := by
    rw [withReadings_append]
    rfl
  rw [hsplit, ← hhere]
  apply window_kept
  · rw [not_fresh_iff, hhere]
    exact outdates_self w
  · intro r hr w' hw'
    exact hnewest.2.2 r (List.mem_append_right _ (List.mem_cons_of_mem _ hr)) w' hw'

theorem lookup_of_none_fresh (hnone : ∀ m, Newest rs name m → ¬ a.Fresh name m.observedAt) (hperm : s.Perm rs) :
    (a.withReadings s).windows.lookup name = a.windows.lookup name := by
  obtain hsame | ⟨r, hr, w, hw, hfresh, -⟩ := @window_withReadings a s name
  · exact hsame
  · have hin := hperm.mem_iff.mp hr
    obtain ⟨m, hm⟩ := exists_newest hin hw
    exact absurd (fresh_mono hfresh (hm.2.2 r hin w hw)) (hnone m hm)

/-! ## The hold of a recorded 429 -/

theorem limit_none (hnone : a.limitedUntil = none) (s : List Reading) :
    (a.withReadings s).limitedUntil = none := by
  induction s using List.reverseRecOn with
  | nil => exact hnone
  | append_singleton s r ih =>
    rw [withReadings_concat]
    by_cases hclears : (a.withReadings s).Clears r
    · exact (limit_of_clears hclears).1
    · exact (limit_of_not_clears hclears).1.trans ih

/-- The hold is as it was, or it has ended. -/
theorem limit_cases (a : Account) (s : List Reading) : (a.withReadings s).limitedUntil = none ∨
    (a.withReadings s).limitedUntil = a.limitedUntil ∧ (a.withReadings s).limitedWindow = a.limitedWindow := by
  induction s using List.reverseRecOn with
  | nil => exact .inr ⟨rfl, rfl⟩
  | append_singleton s r ih =>
    rw [withReadings_concat]
    by_cases hclears : (a.withReadings s).Clears r
    · exact .inl (limit_of_clears hclears).1
    · obtain ⟨huntil, hwindow⟩ := limit_of_not_clears hclears
      rw [huntil, hwindow]
      exact ih

theorem limit_of_clears_late (hclears : (a.withReadings s).Clears r) :
    (a.withReadings (s ++ r :: u)).limitedUntil = none := by
  have hsplit : a.withReadings (s ++ r :: u) = ((a.withReadings s).withReading r).withReadings u := by
    rw [withReadings_append]
    rfl
  rw [hsplit]
  exact limit_none (limit_of_clears hclears).1 u

/-- What a reading must be to end the hold. -/
theorem clears_iff : a.Clears r ↔ a.Takes r ∧
    ∃ limit name x w, a.limitedUntil = some limit ∧ a.limitedWindow = some name ∧ name ≠ "" ∧
      r.windows.lookup name = some x ∧ (a.withReading r).windows.lookup name = some w ∧
      w.observedAt = some r.observedAt ∧ showsReset w limit = true := by
  rw [Clears, readingClearsLimit_iff]

/-- A reading that ends the hold late in the order ends it on its own. -/
theorem clears_of_withReadings (hdates : ∀ r' ∈ s, r'.observedAt ≠ r.observedAt)
    (hclears : (a.withReadings s).Clears r) : a.Clears r := by
  rw [clears_iff] at hclears ⊢
  obtain ⟨htakes, limit, name, x, w, huntil, hwindow, hname, hx, hw, hdate, hshows⟩ := hclears
  obtain hnone | ⟨hsameUntil, hsameWindow⟩ := limit_cases a s
  · rw [hnone] at huntil
    cases huntil
  · refine ⟨takes_of_withReadings s htakes, limit, name, x, w, hsameUntil ▸ huntil, hsameWindow ▸ hwindow,
      hname, hx, ?_, hdate, hshows⟩
    by_cases hfresh : (a.withReadings s).Fresh name r.observedAt
    · rw [lookup_of_fresh hx hfresh] at hw
      rw [lookup_of_fresh hx (fresh_of_withReadings s hfresh)]
      exact hw
    -- the reading repeats the date of the stored window
    · rw [lookup_of_stale fun _ _ => hfresh] at hw
      obtain hsame | ⟨r', hr', w', hw', -, hbrought⟩ := @window_withReadings a s name
      · rw [hsame] at hw
        have hstale : ¬ a.Fresh name r.observedAt := by
          intro h
          exact absurd (fresh_iff.mp h w hw r.observedAt (by rw [hdate]; rfl)) (lt_irrefl _)
        rw [lookup_of_stale fun _ _ => hstale]
        exact hw
      · rw [hbrought] at hw
        obtain rfl := Option.some.inj hw
        exact absurd (Option.some.inj hdate) (hdates r' hr')

/-- If a reading ends the hold on its own, the newest reading of the window does
too; or no reading renews the window, and the one that repeats its date is the
newest of another window that it renews. -/
def ClearsAlike (a : Account) (rs : List Reading) : Prop :=
  ∀ r ∈ rs, a.Clears r → ∀ window, a.limitedWindow = some window →
    (∃ m, Newest rs window m ∧ a.Fresh window m.observedAt ∧ a.Clears m) ∨
    (∀ m, Newest rs window m → ¬ a.Fresh window m.observedAt) ∧
      ∃ name, Newest rs name r ∧ a.Fresh name r.observedAt

/-- Where no reading ends the hold on its own, none does. -/
theorem limit_kept (hdated : Dated s) (hnever : ∀ r ∈ s, ¬ a.Clears r) :
    (a.withReadings s).limitedUntil = a.limitedUntil := by
  induction s using List.reverseRecOn with
  | nil => rfl
  | append_singleton s r ih =>
    have hdates : ∀ r' ∈ s, r'.observedAt ≠ r.observedAt := by
      intro r' hr'
      exact hdated.ne (by simpa using hr')
    rw [withReadings_concat, (limit_of_not_clears ?_).1]
    · apply ih
      · rw [Dated, List.map_append] at hdated
        exact hdated.of_append_left
      · intro r' hr'
        exact hnever r' (List.mem_append_left _ hr')
    · intro hclears
      exact hnever r (by simp) (clears_of_withReadings hdates hclears)

/-- Once the newest reading of the window has not ended the hold, nothing does. -/
theorem limit_kept_after {window : String} (hkeeps : ¬ a.Clears m) (hfresh : a.Fresh window m.observedAt)
    (hwindow : a.limitedWindow = some window) (hcarries : ∃ w, m.windows.lookup window = some w)
    (hdated : Dated (m :: u))
    (hlate : ∀ r ∈ u, ∀ w, r.windows.lookup window = some w → r.observedAt ≤ m.observedAt) :
    (a.withReadings (m :: u)).limitedUntil = a.limitedUntil := by
  obtain ⟨w, hw⟩ := hcarries
  have hhere := lookup_of_fresh hw hfresh
  have hstale : ¬ (a.withReading m).Fresh window m.observedAt := by
    rw [not_fresh_iff, hhere]
    exact outdates_self w
  obtain ⟨huntil, hsameWindow⟩ := limit_of_not_clears hkeeps
  rw [Dated, List.map_cons, List.nodup_cons] at hdated
  have hrest : ((a.withReading m).withReadings u).limitedUntil = (a.withReading m).limitedUntil := by
    apply limit_kept hdated.2
    intro r hr hclears
    obtain ⟨-, _, window', x, v, -, hwindow', -, hx, hv, hdate, -⟩ := clears_iff.mp hclears
    obtain rfl : window' = window := by
      rw [hsameWindow, hwindow] at hwindow'
      exact (Option.some.inj hwindow').symm
    have hold : ¬ (a.withReading m).Fresh window' r.observedAt := fun h =>
      hstale (fresh_mono h (hlate r hr x hx))
    rw [lookup_of_stale fun _ _ => hold, hhere] at hv
    obtain rfl := Option.some.inj hv
    exact hdated.1 (Option.some.inj hdate ▸ List.mem_map_of_mem hr)
  have hcons : a.withReadings (m :: u) = (a.withReading m).withReadings u := rfl
  rw [hcons, hrest, huntil]

theorem limit_ends (hlegacy : LegacyCovered a s) (hdated : Dated s) (halike : ClearsAlike a s) (hr : r ∈ s)
    (hclears : a.Clears r) : (a.withReadings s).limitedUntil = none := by
  obtain ⟨htakes, limit, window, x, w, huntil, hwindow, hne, hx, hw, hdate, hshows⟩ := clears_iff.mp hclears
  obtain ⟨m, hnewest, hfresh, hclears'⟩ | ⟨hstored, name, hnewest, hfresh⟩ := halike r hr hclears window hwindow
  · obtain ⟨before, after, rfl⟩ := List.append_of_mem hnewest.1
    have haccepted := newest_accepted hlegacy hdated hnewest hfresh
    obtain hnone | ⟨hsameUntil, hsameWindow⟩ := limit_cases a before
    · rw [withReadings_append]
      exact limit_none hnone _
    · apply limit_of_clears_late
      obtain ⟨-, limit', window', x', w', huntil', hwindow', hne', hx', hw', hdate', hshows'⟩ :=
        clears_iff.mp hclears'
      obtain rfl : window' = window := by
        rw [hwindow] at hwindow'
        exact (Option.some.inj hwindow').symm
      rw [lookup_of_fresh hx' hfresh] at hw'
      refine clears_iff.mpr ⟨⟨window', x', hx', haccepted⟩, limit', window', x', w', hsameUntil ▸ huntil',
        hsameWindow ▸ hwindow', hne', hx', ?_, hdate', hshows'⟩
      rw [lookup_of_fresh hx' haccepted]
      exact hw'
  · obtain ⟨before, after, rfl⟩ := List.append_of_mem hr
    obtain ⟨x', hx'⟩ := hnewest.2.1
    have haccepted := newest_accepted hlegacy hdated hnewest hfresh
    obtain hnone | ⟨hsameUntil, hsameWindow⟩ := limit_cases a before
    · rw [withReadings_append]
      exact limit_none hnone _
    · apply limit_of_clears_late
      have hstale : ¬ a.Fresh window r.observedAt := by
        intro h
        obtain ⟨m, hm⟩ := exists_newest hr hx
        exact hstored m hm (fresh_mono h (hm.2.2 r hr x hx))
      have hlate : ¬ (a.withReadings before).Fresh window r.observedAt :=
        fun h => hstale (fresh_of_withReadings before h)
      have hbefore : (a.withReadings before).windows.lookup window = a.windows.lookup window := by
        obtain hsame | ⟨r', hr', w', hw', hfresh', -⟩ := @window_withReadings a before window
        · exact hsame
        · have hin := List.mem_append_left (r :: after) hr'
          obtain ⟨m, hm⟩ := exists_newest hin hw'
          exact absurd (fresh_mono hfresh' (hm.2.2 r' hin w' hw')) (hstored m hm)
      rw [lookup_of_stale fun _ _ => hstale] at hw
      refine clears_iff.mpr ⟨⟨name, x', hx', haccepted⟩, limit, window, x, w, hsameUntil ▸ huntil,
        hsameWindow ▸ hwindow, hne, hx, ?_, hdate, hshows⟩
      rw [lookup_of_stale fun _ _ => hlate, hbefore]
      exact hw

/-! ## Convergence -/

theorem newest_perm_iff (hperm : s.Perm rs) : Newest s name m ↔ Newest rs name m :=
  ⟨fun h => h.perm hperm.symm, fun h => h.perm hperm⟩

theorem LegacyCovered.perm (h : LegacyCovered a rs) (hperm : s.Perm rs) : LegacyCovered a s := by
  intro name w hw hown m hnewest hfresh r hr
  exact h name w hw hown m ((newest_perm_iff hperm).mp hnewest) hfresh r (hperm.mem_iff.mp hr)

theorem ClearsAlike.perm (h : ClearsAlike a rs) (hperm : s.Perm rs) : ClearsAlike a s := by
  intro r hr hclears window hwindow
  simp only [newest_perm_iff hperm]
  exact h r (hperm.mem_iff.mp hr) hclears window hwindow

/-- Any two orders of the readings leave the same windows, date and hold. -/
def Converges (a : Account) (rs : List Reading) : Prop :=
  ∀ s u, s.Perm rs → u.Perm rs →
    (∀ name, (a.withReadings s).windows.lookup name = (a.withReadings u).windows.lookup name) ∧
    (a.withReadings s).observedAt = (a.withReadings u).observedAt ∧
    (a.withReadings s).limitedUntil = (a.withReadings u).limitedUntil

/-- A stored window is replaced only by a reading observed later than it. -/
def LaterOnly : Prop :=
  ∀ (a : Account) (r : Reading) (name : String) (w : WindowReading) (d : Instant),
    a.windows.lookup name = some w → (a.withReading r).windows.lookup name ≠ some w →
    (w.observedAt <|> a.observedAt) = some d → d < r.observedAt

theorem laterOnly : LaterOnly := by
  intro a r name w d hw hreplaced hd
  by_cases hfresh : a.Fresh name r.observedAt
  · exact fresh_iff.mp hfresh w hw d hd
  · rw [lookup_of_stale fun _ _ => hfresh] at hreplaced
    exact absurd hw hreplaced

theorem observedAt_le_of_perm (hs : s.Perm rs) (hu : u.Perm rs) {o : Instant}
    (ho : (a.withReadings s).observedAt = some o) :
    ∃ o', (a.withReadings u).observedAt = some o' ∧ o ≤ o' := by
  obtain hold | ⟨r, hr, htakes, rfl⟩ := observedAt_from s ho
  · exact observedAt_le_withReadings u hold
  · exact observedAt_ge u (hu.mem_iff.mpr (hs.mem_iff.mp hr)) htakes

/-- The account's own date converges whatever the readings are. -/
theorem observedAt_eq_of_perm (hs : s.Perm rs) (hu : u.Perm rs) :
    (a.withReadings s).observedAt = (a.withReadings u).observedAt := by
  cases ho : (a.withReadings s).observedAt with
  | none =>
    cases ho' : (a.withReadings u).observedAt with
    | none => rfl
    | some o' =>
      obtain ⟨o, hsome, -⟩ := observedAt_le_of_perm hu hs ho'
      rw [ho] at hsome
      cases hsome
  | some o =>
    obtain ⟨o', ho', hle⟩ := observedAt_le_of_perm hs hu ho
    obtain ⟨o'', ho'', hle'⟩ := observedAt_le_of_perm hu hs ho'
    rw [ho] at ho''
    obtain rfl := Option.some.inj ho''
    rw [ho', le_antisymm hle hle']

theorem windows_eq_of_perm (hlegacy : LegacyCovered a rs) (hdated : Dated rs) (hs : s.Perm rs)
    (hu : u.Perm rs) (name : String) :
    (a.withReadings s).windows.lookup name = (a.withReadings u).windows.lookup name := by
  by_cases hrenewed : ∃ m, Newest rs name m ∧ a.Fresh name m.observedAt
  · obtain ⟨m, hnewest, hfresh⟩ := hrenewed
    obtain ⟨w, hw⟩ := hnewest.2.1
    have hfinal : ∀ order, order.Perm rs → (a.withReadings order).windows.lookup name =
        some { w with observedAt := some m.observedAt } := by
      intro order horder
      have hn := hnewest.perm horder
      have hl := hlegacy.perm horder
      have hd := hdated.perm horder
      obtain ⟨before, after, rfl⟩ := List.append_of_mem hn.1
      exact lookup_of_newest hl hd hn hfresh hw
    rw [hfinal s hs, hfinal u hu]
  · have hnone : ∀ m, Newest rs name m → ¬ a.Fresh name m.observedAt := fun m hm hfresh =>
      hrenewed ⟨m, hm, hfresh⟩
    rw [lookup_of_none_fresh hnone hs, lookup_of_none_fresh hnone hu]

theorem limit_eq_of_perm (hlegacy : LegacyCovered a rs) (halike : ClearsAlike a rs) (hdated : Dated rs)
    (hs : s.Perm rs) (hu : u.Perm rs) :
    (a.withReadings s).limitedUntil = (a.withReadings u).limitedUntil := by
  by_cases hclears : ∃ r ∈ rs, a.Clears r
  · obtain ⟨r, hr, hclears⟩ := hclears
    have hfinal : ∀ order, order.Perm rs → (a.withReadings order).limitedUntil = none := by
      intro order horder
      exact limit_ends (hlegacy.perm horder) (hdated.perm horder) (halike.perm horder)
        (horder.mem_iff.mpr hr) hclears
    rw [hfinal s hs, hfinal u hu]
  · have hfinal : ∀ order, order.Perm rs → (a.withReadings order).limitedUntil = a.limitedUntil := by
      intro order horder
      refine limit_kept (hdated.perm horder) fun r hr hc => ?_
      exact hclears ⟨r, horder.mem_iff.mp hr, hc⟩
    rw [hfinal s hs, hfinal u hu]

/-- A reading put first. -/
theorem perm_first (hr : r ∈ rs) : ∃ rest, (r :: rest).Perm rs := by
  obtain ⟨before, after, rfl⟩ := List.append_of_mem hr
  exact ⟨before ++ after, List.perm_middle.symm⟩

theorem LegacyCovered.of_converges (hconverges : Converges a rs) : LegacyCovered a rs := by
  intro name w hw hown m hnewest hfresh r hr htakes
  by_contra hnewer
  rw [not_le] at hnewer
  obtain ⟨rest, hperm⟩ := perm_first hr
  obtain ⟨rest', hperm'⟩ := perm_first hnewest.1
  -- the newer reading first: the window without a date is then too new for its own readings
  have hfirst : (a.withReadings (r :: rest)).windows.lookup name = some w := by
    have hcons : a.withReadings (r :: rest) = (a.withReading r).withReadings rest := rfl
    have hnot : ∀ x, r.windows.lookup name ≠ some x := by
      intro x hx
      exact absurd (hnewest.2.2 r hr x hx) (not_le.mpr hnewer)
    have hhere : (a.withReading r).windows.lookup name = some w := by
      rw [lookup_of_stale fun x hx => absurd hx (hnot x), hw]
    obtain ⟨o, ho, hle⟩ := @observedAt_ge a r [r] (by simp) htakes
    rw [hcons, ← hhere]
    apply @window_kept _ _ name r.observedAt
    · rw [not_fresh_iff, hhere]
      have hseen : (a.withReading r).observedAt = some o := ho
      simpa [outdates, hown, hseen] using hle
    · intro r' hr' x hx
      have hin := hperm.mem_iff.mp (List.mem_cons_of_mem _ hr')
      exact (hnewest.2.2 r' hin x hx).trans hnewer.le
  have hsecond : ∃ x : WindowReading, (a.withReadings (m :: rest')).windows.lookup name =
      some { x with observedAt := some m.observedAt } := by
    obtain ⟨x, hx⟩ := hnewest.2.1
    have hhere := lookup_of_fresh hx hfresh
    have hcons : a.withReadings (m :: rest') = (a.withReading m).withReadings rest' := rfl
    refine ⟨x, ?_⟩
    rw [hcons, ← hhere]
    apply @window_kept _ _ name m.observedAt
    · rw [not_fresh_iff, hhere]
      exact outdates_self x
    · intro r' hr' x' hx'
      exact hnewest.2.2 r' (hperm'.mem_iff.mp (List.mem_cons_of_mem _ hr')) x' hx'
  obtain ⟨x, hsecond⟩ := hsecond
  have hsame := (hconverges _ _ hperm hperm').1 name
  rw [hfirst, hsecond, Option.some.injEq] at hsame
  rw [hsame] at hown
  cases hown

theorem ClearsAlike.of_converges (hdated : Dated rs) (hconverges : Converges a rs) : ClearsAlike a rs := by
  intro r hr hclears window hwindow
  obtain ⟨-, limit, window', x, w, huntil, hwindow', -, hx, hw, hdate, -⟩ := clears_iff.mp hclears
  obtain rfl : window' = window := by
    rw [hwindow] at hwindow'
    exact (Option.some.inj hwindow').symm
  obtain ⟨before, after, rfl⟩ := List.append_of_mem hr
  have hperm : (r :: (before ++ after)).Perm (before ++ r :: after) := List.perm_middle.symm
  have hends : (a.withReadings (r :: (before ++ after))).limitedUntil = none :=
    @limit_of_clears_late a [] (before ++ after) r hclears
  by_contra hneither
  rw [not_or] at hneither
  obtain ⟨hnot, hstored⟩ := hneither
  by_cases hrenewed : ∃ m, Newest (before ++ r :: after) window' m ∧ a.Fresh window' m.observedAt
  · obtain ⟨m, hnewest, hfresh⟩ := hrenewed
    have hkeeps : ¬ a.Clears m := fun h => hnot ⟨m, hnewest, hfresh, h⟩
    obtain ⟨rest, hperm'⟩ := perm_first hnewest.1
    have hlimit : (a.withReadings (m :: rest)).limitedUntil = a.limitedUntil := by
      apply limit_kept_after hkeeps hfresh hwindow hnewest.2.1
      · exact hdated.perm hperm'
      · intro r' hr' x' hx'
        exact hnewest.2.2 r' (hperm'.mem_iff.mp (List.mem_cons_of_mem _ hr')) x' hx'
    have hsame := (hconverges _ _ hperm hperm').2.2
    rw [hends, hlimit, huntil] at hsame
    cases hsame
  · have hnone : ∀ m, Newest (before ++ r :: after) window' m → ¬ a.Fresh window' m.observedAt :=
      fun m hm hfresh => hrenewed ⟨m, hm, hfresh⟩
    have hlast : ((before ++ after) ++ [r]).Perm (before ++ r :: after) :=
      (List.perm_append_singleton r (before ++ after)).trans hperm
    have hstale : ∀ r' ∈ before ++ r :: after, ∀ x', r'.windows.lookup window' = some x' →
        ¬ a.Fresh window' r'.observedAt := by
      intro r' hr' x' hx' hfresh
      obtain ⟨m, hm⟩ := exists_newest hr' hx'
      exact hnone m hm (fresh_mono hfresh (hm.2.2 r' hr' x' hx'))
    have hothers : ∀ r' ∈ before ++ after, ¬ a.Clears r' := by
      intro r' hr' hclears'
      obtain ⟨-, _, window'', x', w', -, hwindow'', -, hx', hw', hdate', -⟩ := clears_iff.mp hclears'
      obtain rfl : window'' = window' := by
        rw [hwindow] at hwindow''
        exact (Option.some.inj hwindow'').symm
      have hin : r' ∈ before ++ r :: after := hperm.mem_iff.mp (List.mem_cons_of_mem _ hr')
      rw [lookup_of_stale (hstale r hr)] at hw
      rw [lookup_of_stale (hstale r' hin), hw] at hw'
      obtain rfl := Option.some.inj hw'
      rw [hdate] at hdate'
      exact hdated.ne hr' (Option.some.inj hdate').symm
    have hnottaken : ¬ (a.withReadings (before ++ after)).Takes r := by
      rintro ⟨name, x', hx', hfresh⟩
      have hfresh₀ := fresh_of_withReadings (before ++ after) hfresh
      have holder : ¬ Newest (before ++ r :: after) name r := fun hnewest =>
        hstored ⟨hnone, name, hnewest, hfresh₀⟩
      obtain ⟨r', hr', x'', hx'', hlt⟩ : ∃ r' ∈ before ++ r :: after, ∃ x'', r'.windows.lookup name = some x'' ∧
          r.observedAt < r'.observedAt := by
        by_contra hall
        refine holder ⟨hr, ⟨x', hx'⟩, fun r' hr' x'' hx'' => ?_⟩
        rw [← not_lt]
        exact fun hlt => hall ⟨r', hr', x'', hx'', hlt⟩
      have hin : r' ∈ before ++ after := by
        obtain rfl | hin := List.mem_cons.mp (hperm.mem_iff.mpr hr')
        · exact absurd hlt (lt_irrefl _)
        · exact hin
      exact outdates_carried hin hx'' (fresh_mono hfresh hlt.le)
    have hlimit : (a.withReadings ((before ++ after) ++ [r])).limitedUntil = a.limitedUntil := by
      rw [withReadings_concat, withReading_of_not_takes hnottaken]
      apply limit_kept _ hothers
      have hnodup := hdated.perm hperm
      rw [Dated, List.map_cons, List.nodup_cons] at hnodup
      exact hnodup.2
    have hsame := (hconverges _ _ hperm hlast).2.2
    rw [hends, hlimit, huntil] at hsame
    cases hsame

/-- Readings converge exactly where every window without a date is covered by
the newest reading taken and the hold ends with the newest reading if with any. -/
theorem readings_converge_iff (a : Account) {rs : List Reading} (hdated : Dated rs) :
    Converges a rs ∧ LaterOnly ↔ LegacyCovered a rs ∧ ClearsAlike a rs := by
  constructor
  · rintro ⟨hconverges, -⟩
    exact ⟨.of_converges hconverges, .of_converges hdated hconverges⟩
  · rintro ⟨hlegacy, halike⟩
    refine ⟨fun s u hs hu => ?_, laterOnly⟩
    exact ⟨windows_eq_of_perm hlegacy hdated hs hu, observedAt_eq_of_perm hs hu,
      limit_eq_of_perm hlegacy halike hdated hs hu⟩

section Sample

def sampleAccount : Account where
  accountId := .text "acme:team"
  ownerTenant := .text "acme"
  label := .text "team"

/-- A window without a date of its own, on an account read at instant zero. -/
def legacyAccount : Account :=
  { sampleAccount with
    windows := [("five_hour", ⟨0.5, seconds 3600, none⟩)]
    observedAt := some 0 }

def fiveHourReading : Reading := ⟨[("five_hour", ⟨0.9, seconds 7200, none⟩)], seconds 10⟩

def sevenDayReading : Reading := ⟨[("seven_day", ⟨0.1, seconds 86400, none⟩)], seconds 20⟩

theorem readings_converge_on_new_account : Dated [fiveHourReading, sevenDayReading] ∧
    Converges sampleAccount [fiveHourReading, sevenDayReading] := by
  refine ⟨by decide, ((readings_converge_iff sampleAccount (by decide)).mpr ⟨?_, ?_⟩).1⟩
  · intro name w hw
    cases hw
  · intro r _ hclears window hwindow
    cases hwindow

/-- The reading of the other window dates the window of the account, and the
five-hour reading that comes after it is lost. -/
theorem legacy_readings_diverge : Dated [fiveHourReading, sevenDayReading] ∧
    ¬ (Converges legacyAccount [fiveHourReading, sevenDayReading] ∧ LaterOnly) := by
  refine ⟨by decide, ?_⟩
  rintro ⟨hconverges, -⟩
  have hsame := (hconverges [fiveHourReading, sevenDayReading] [sevenDayReading, fiveHourReading]
    (List.Perm.refl _) (List.Perm.swap _ _ _)).1 "five_hour"
  have hdates := congrArg (Option.map WindowReading.observedAt) hsame
  revert hdates
  decide

end Sample

end SwarmCloud.Accounts
