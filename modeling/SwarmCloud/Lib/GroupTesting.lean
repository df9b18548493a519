import Mathlib.Algebra.Order.BigOperators.Group.List
import Mathlib.Data.List.Nodup
import Mathlib.Data.List.Count
import Mathlib.Tactic.Linarith

/-! # Group testing by bisection

Items wait in a pool. A group drawn from it is tested as a whole: a group
without a bad item passes, a bad item tested alone fails, and any other group
is split in two that are tested next. While items may arrive at any time, no
group is tested twice and the tests are at most twice as many as the items.
-/

namespace SwarmCloud.Lib

universe u

/-- The blocks are the groups still to be tested, the next one last. -/
structure Lot (α : Type u) where
  pool : List α
  blocks : List (List α)
  past : List (List α)
  passed : List α
  failed : List α

namespace Lot

variable {α : Type u} {bad first : α → Prop} {k n : Nat} {s s' : Lot α}

def items (s : Lot α) : List α := s.pool ++ (s.blocks.flatten ++ (s.passed ++ s.failed))

def arrive (s : Lot α) (x : α) : Lot α := { s with pool := s.pool ++ [x] }

/-- A step; the items of `first` are drawn before the others. -/
inductive Step (bad first : α → Prop) (k : Nat) (s : Lot α) : Lot α → Prop
  | draw {g rest : List α} (hidle : s.blocks = []) (hne : g ≠ []) (hpool : s.pool.Perm (g ++ rest))
      (hsize : g.length ≤ k) (hfirst : (∃ x ∈ s.pool, first x) → ∃ x ∈ g, first x) :
    Step bad first k s { s with pool := rest, blocks := [g] }
  | pass {bs : List (List α)} {g : List α} (hblocks : s.blocks = bs ++ [g]) (hgood : ∀ x ∈ g, ¬ bad x) :
    Step bad first k s { s with blocks := bs, past := s.past ++ [g], passed := s.passed ++ g }
  | fail {bs : List (List α)} {x : α} (hblocks : s.blocks = bs ++ [[x]]) (hbad : bad x) :
    Step bad first k s { s with blocks := bs, past := s.past ++ [[x]], failed := s.failed ++ [x] }
  | split {bs : List (List α)} {a b : List α} (hblocks : s.blocks = bs ++ [a ++ b]) (ha : a ≠ [])
      (hb : b ≠ []) :
    Step bad first k s { s with blocks := bs ++ [b, a], past := s.past ++ [a ++ b] }

/-- How many tests the groups can still take, tested one by one at worst. -/
def weight (blocks : List (List α)) : Nat := (blocks.map fun b => 2 * b.length - 1).sum

theorem weight_concat (bs : List (List α)) (b : List α) :
    weight (bs ++ [b]) = weight bs + (2 * b.length - 1) := by
  simp [weight]

theorem weight_split (bs : List (List α)) (a b : List α) :
    weight (bs ++ [b, a]) = weight bs + (2 * b.length - 1) + (2 * a.length - 1) := by
  rw [← List.singleton_append, ← List.append_assoc, weight_concat, weight_concat]

/-- A group is met by another only inside it. -/
def Nested (b t : List α) : Prop := b.Disjoint t ∨ b ⊆ t ∧ ∃ x ∈ t, x ∉ b

theorem Nested.not_same {b t : List α} (hb : b ≠ []) (h : Nested b t) : ¬ ∀ x, x ∈ t ↔ x ∈ b := by
  intro hsame
  obtain hdisjoint | ⟨-, x, hx, hout⟩ := h
  · obtain ⟨x, hx⟩ := List.exists_mem_of_ne_nil b hb
    exact hdisjoint hx ((hsame x).mpr hx)
  · exact hout ((hsame x).mp hx)

theorem Nested.mono {a b t : List α} (hab : a ⊆ b) (h : Nested b t) : Nested a t := by
  obtain hdisjoint | ⟨hsub, x, hx, hout⟩ := h
  · exact .inl (List.disjoint_of_subset_left hab hdisjoint)
  · exact .inr ⟨List.Subset.trans hab hsub, x, hx, fun hin => hout (hab hin)⟩

structure Sound (bad : α → Prop) (s : Lot α) : Prop where
  nodup : s.items.Nodup
  nonempty : ∀ b ∈ s.blocks, b ≠ []
  passed : ∀ x ∈ s.passed, ¬ bad x
  failed : ∀ x ∈ s.failed, bad x
  tested : ∀ t ∈ s.past, ∀ x ∈ t, x ∈ s.items ∧ x ∉ s.pool
  nested : ∀ t ∈ s.past, ∀ b ∈ s.blocks, Nested b t
  distinct : s.past.Pairwise fun t t' => ¬ ∀ x, x ∈ t ↔ x ∈ t'
  bound : s.past.length + (2 * s.pool.length + weight s.blocks) ≤ 2 * s.items.length

theorem items_arrive (s : Lot α) (x : α) : (s.arrive x).items.Perm (x :: s.items) := by
  simp only [items, arrive, List.append_assoc, List.singleton_append]
  exact List.perm_middle

/-- A step moves the items about. -/
theorem Step.items_perm (h : Step bad first k s s') : s'.items.Perm s.items := by
  cases h with
  | draw hidle hne hpool hsize hfirst =>
    simp only [items, hidle, List.flatten_cons, List.flatten_nil, List.append_nil, List.nil_append]
    rw [← List.append_assoc]
    exact List.Perm.append_right _ (List.perm_append_comm.trans hpool.symm)
  | pass hblocks hgood =>
    simp only [items, hblocks, List.flatten_append, List.flatten_cons, List.flatten_nil, List.append_nil,
      List.append_assoc]
    refine List.Perm.append_left _ (List.Perm.append_left _ ?_)
    rw [← List.append_assoc, ← List.append_assoc]
    exact List.Perm.append_right _ List.perm_append_comm
  | @fail bs x hblocks hbad =>
    simp only [items, hblocks, List.flatten_append, List.flatten_cons, List.flatten_nil, List.append_nil,
      List.append_assoc]
    refine List.Perm.append_left _ (List.Perm.append_left _ ?_)
    rw [← List.append_assoc]
    exact List.perm_append_comm
  | split hblocks ha hb =>
    simp only [items, hblocks, List.flatten_append, List.flatten_cons, List.flatten_nil, List.append_nil]
    refine List.Perm.append_left _ (List.Perm.append_right _ (List.Perm.append_left _ ?_))
    exact List.perm_append_comm

/-- No step brings back an item that has its verdict. -/
theorem Step.live (h : Step bad first k s s') {x : α} (hx : x ∈ s'.pool ++ s'.blocks.flatten) :
    x ∈ s.pool ++ s.blocks.flatten := by
  cases h with
  | draw hidle hne hpool hsize hfirst =>
    refine List.mem_append_left _ (hpool.mem_iff.mpr ?_)
    simpa [or_comm] using hx
  | pass hblocks hgood =>
    rw [hblocks, List.flatten_append, ← List.append_assoc]
    exact List.mem_append_left _ hx
  | fail hblocks hbad =>
    rw [hblocks, List.flatten_append, ← List.append_assoc]
    exact List.mem_append_left _ hx
  | split hblocks ha hb => simpa [hblocks, or_comm, or_assoc, or_left_comm] using hx

/-- An item of a block is an item, and not one of the pool. -/
theorem Sound.mem_block (h : Sound bad s) {b : List α} (hb : b ∈ s.blocks) {x : α} (hx : x ∈ b) :
    x ∈ s.items ∧ x ∉ s.pool := by
  have hflat : x ∈ s.blocks.flatten := List.mem_flatten.mpr ⟨b, hb, hx⟩
  refine ⟨List.mem_append_right _ (List.mem_append_left _ hflat), fun hpool => ?_⟩
  exact (List.disjoint_of_nodup_append h.nodup) hpool (List.mem_append_left _ hflat)

theorem Sound.blocks_nodup (h : Sound bad s) : s.blocks.flatten.Nodup :=
  (List.nodup_append.mp (List.nodup_append.mp h.nodup).2.1).1

section Judged

variable {bs blocks' : List (List α)} {g : List α}

/-- The blocks left by a test of `g` stay nested in what has been tested. -/
theorem Sound.nested_judged (h : Sound bad s) (hblocks : s.blocks = bs ++ [g])
    (hnew : ∀ b ∈ blocks', b ∈ bs ∨ b ⊆ g ∧ ∃ x ∈ g, x ∉ b) :
    ∀ t ∈ s.past ++ [g], ∀ b ∈ blocks', Nested b t := by
  have hg : g ∈ s.blocks := by simp [hblocks]
  have hbs : ∀ b ∈ bs, b ∈ s.blocks := by
    intro b hb
    rw [hblocks]
    exact List.mem_append_left _ hb
  have hapart : ∀ b ∈ bs, b.Disjoint g := by
    have hflat := h.blocks_nodup
    rw [hblocks, List.flatten_append] at hflat
    intro b hb x hx hxg
    exact (List.disjoint_of_nodup_append hflat) (List.mem_flatten.mpr ⟨b, hb, hx⟩) (by simpa using hxg)
  intro t ht b hb
  rw [List.mem_append, List.mem_singleton] at ht
  obtain ht | rfl := ht
  · obtain hold | ⟨hsub, -⟩ := hnew b hb
    · exact h.nested t ht b (hbs b hold)
    · exact (h.nested t ht g hg).mono hsub
  · obtain hold | hwithin := hnew b hb
    · exact .inl (hapart b hold)
    · exact .inr hwithin

theorem Sound.distinct_judged (h : Sound bad s) (hg : g ∈ s.blocks) :
    (s.past ++ [g]).Pairwise fun t t' => ¬ ∀ x, x ∈ t ↔ x ∈ t' := by
  rw [List.pairwise_append]
  refine ⟨h.distinct, List.pairwise_singleton _ _, ?_⟩
  intro t ht b hb
  rw [List.mem_singleton] at hb
  subst hb
  exact (h.nested t ht b hg).not_same (h.nonempty b hg)

theorem Sound.tested_judged (h : Sound bad s) (hg : g ∈ s.blocks) (hstep : Step bad first k s s')
    (hpool : s'.pool = s.pool) : ∀ t ∈ s.past ++ [g], ∀ x ∈ t, x ∈ s'.items ∧ x ∉ s'.pool := by
  intro t ht x hx
  rw [hpool]
  rw [List.mem_append, List.mem_singleton] at ht
  obtain ht | rfl := ht
  · exact ⟨hstep.items_perm.mem_iff.mpr (h.tested t ht x hx).1, (h.tested t ht x hx).2⟩
  · exact ⟨hstep.items_perm.mem_iff.mpr (h.mem_block hg hx).1, (h.mem_block hg hx).2⟩

end Judged

theorem Sound.arrive (h : Sound bad s) {x : α} (hfresh : x ∉ s.items) : Sound bad (s.arrive x) where
  nodup := (items_arrive s x).nodup_iff.mpr (List.nodup_cons.mpr ⟨hfresh, h.nodup⟩)
  nonempty := h.nonempty
  passed := h.passed
  failed := h.failed
  tested := by
    intro t ht y hy
    obtain ⟨hitem, hpool⟩ := h.tested t ht y hy
    refine ⟨(items_arrive s x).mem_iff.mpr (List.mem_cons_of_mem _ hitem), ?_⟩
    rw [Lot.arrive, List.mem_append, List.mem_singleton]
    rintro (hy | rfl)
    · exact hpool hy
    · exact hfresh hitem
  nested := h.nested
  distinct := h.distinct
  bound := by
    have hbound := h.bound
    simp only [items, Lot.arrive, List.length_append, List.length_singleton] at hbound ⊢
    omega

theorem Sound.step (h : Sound bad s) (hstep : Step bad first k s s') : Sound bad s' := by
  have hnodup := hstep.items_perm.nodup_iff.mpr h.nodup
  have hbound := h.bound
  have hkeeps := hstep
  cases hstep with
  | @draw g rest hidle hne hpool hsize hfirst =>
    have hsub : ∀ x ∈ g, x ∈ s.pool := fun x hx => hpool.mem_iff.mpr (List.mem_append_left _ hx)
    refine ⟨hnodup, ?_, h.passed, h.failed, ?_, ?_, h.distinct, ?_⟩
    · intro b hb
      rw [List.mem_singleton.mp hb]
      exact hne
    · intro t ht x hx
      obtain ⟨hitem, hout⟩ := h.tested t ht x hx
      exact ⟨hkeeps.items_perm.mem_iff.mpr hitem, fun hrest => hout (hpool.mem_iff.mpr (List.mem_append_right _ hrest))⟩
    · intro t ht b hb
      rw [List.mem_singleton.mp hb]
      exact .inl fun x hx hxt => (h.tested t ht x hxt).2 (hsub x hx)
    · have hpos := List.length_pos_iff.mpr hne
      have hcount := hpool.length_eq
      simp only [items, weight, hidle, List.length_append, List.map_nil, List.map_cons, List.sum_nil,
        List.sum_cons, List.flatten_nil, List.flatten_cons, List.length_nil] at hbound hcount ⊢
      omega
  | @pass bs g hblocks hgood =>
    have hg : g ∈ s.blocks := by simp [hblocks]
    have hbs : ∀ b ∈ bs, b ∈ s.blocks := fun b hb => hblocks ▸ List.mem_append_left _ hb
    refine ⟨hnodup, fun b hb => h.nonempty b (hbs b hb), ?_, h.failed, h.tested_judged hg hkeeps rfl,
      h.nested_judged hblocks fun b hb => .inl hb, h.distinct_judged hg, ?_⟩
    · intro x hx
      obtain hx | hx := List.mem_append.mp hx
      · exact h.passed x hx
      · exact hgood x hx
    · have hpos := List.length_pos_iff.mpr (h.nonempty g hg)
      rw [hblocks, weight_concat] at hbound
      simp only [items, hblocks, List.length_append, List.flatten_append, List.flatten_cons,
        List.flatten_nil, List.length_nil, List.length_singleton] at hbound ⊢
      omega
  | @fail bs x hblocks hbad =>
    have hg : [x] ∈ s.blocks := by simp [hblocks]
    have hbs : ∀ b ∈ bs, b ∈ s.blocks := fun b hb => hblocks ▸ List.mem_append_left _ hb
    refine ⟨hnodup, fun b hb => h.nonempty b (hbs b hb), h.passed, ?_, h.tested_judged hg hkeeps rfl,
      h.nested_judged hblocks fun b hb => .inl hb, h.distinct_judged hg, ?_⟩
    · intro y hy
      obtain hy | hy := List.mem_append.mp hy
      · exact h.failed y hy
      · exact List.mem_singleton.mp hy ▸ hbad
    · rw [hblocks, weight_concat] at hbound
      simp only [items, hblocks, List.length_append, List.flatten_append, List.flatten_cons,
        List.flatten_nil, List.length_nil, List.length_singleton] at hbound ⊢
      omega
  | @split bs a b hblocks ha hb =>
    have hg : a ++ b ∈ s.blocks := by simp [hblocks]
    have hbs : ∀ b ∈ bs, b ∈ s.blocks := fun b hb => hblocks ▸ List.mem_append_left _ hb
    have hapart : a.Disjoint b :=
      List.disjoint_of_nodup_append ((List.nodup_flatten.mp h.blocks_nodup).1 _ hg)
    obtain ⟨x, hx⟩ := List.exists_mem_of_ne_nil a ha
    obtain ⟨y, hy⟩ := List.exists_mem_of_ne_nil b hb
    refine ⟨hnodup, ?_, h.passed, h.failed, h.tested_judged hg hkeeps rfl, h.nested_judged hblocks ?_,
      h.distinct_judged hg, ?_⟩
    · intro c hc
      simp only [List.mem_append, List.mem_cons, List.not_mem_nil, or_false] at hc
      obtain hc | rfl | rfl := hc
      · exact h.nonempty c (hbs c hc)
      · exact hb
      · exact ha
    · intro c hc
      simp only [List.mem_append, List.mem_cons, List.not_mem_nil, or_false] at hc
      obtain hc | rfl | rfl := hc
      · exact .inl hc
      · exact .inr ⟨List.subset_append_right _ _, x, List.mem_append_left _ hx, fun hxc => hapart hx hxc⟩
      · exact .inr ⟨List.subset_append_left _ _, y, List.mem_append_right _ hy, fun hyc => hapart hyc hy⟩
    · have hpa := List.length_pos_iff.mpr ha
      have hpb := List.length_pos_iff.mpr hb
      rw [hblocks, weight_concat, List.length_append] at hbound
      rw [weight_split]
      simp only [items, hblocks, List.length_append, List.flatten_append, List.flatten_cons,
        List.flatten_nil, List.length_nil, List.length_singleton] at hbound ⊢
      omega

/-- An item that neither waits nor is to be tested has had its verdict. -/
theorem Sound.verdict (h : Sound bad s) {x : α} (hx : x ∈ s.items) (hpool : x ∉ s.pool)
    (hblocks : x ∉ s.blocks.flatten) : bad x ∧ x ∈ s.failed ∨ ¬ bad x ∧ x ∈ s.passed := by
  simp only [items, List.mem_append] at hx
  obtain hx | hx | hx | hx := hx
  · exact absurd hx hpool
  · exact absurd hx hblocks
  · exact .inr ⟨h.passed x hx, hx⟩
  · exact .inl ⟨h.failed x hx, hx⟩

/-- The tests made until the items of `first` have their verdicts are at most
`n`, however many others arrive. -/
def Prompt (first : α → Prop) [DecidablePred first] (k n : Nat) (s : Lot α) : Prop :=
  (∃ x ∈ s.pool ++ s.blocks.flatten, first x) →
    s.past.length + (2 * k * s.pool.countP (first ·) + weight s.blocks) ≤ n

theorem Prompt.arrive [DecidablePred first] (h : Prompt first k n s) {x : α} (hlater : ¬ first x) :
    Prompt first k n (s.arrive x) := by
  intro hopen
  have hcount : (s.arrive x).pool.countP (first ·) = s.pool.countP (first ·) := by
    simp [Lot.arrive, hlater]
  rw [hcount]
  apply h
  obtain ⟨y, hy, hfirst⟩ := hopen
  simp only [Lot.arrive, List.mem_append, List.mem_singleton] at hy
  obtain (hy | rfl) | hy := hy
  · exact ⟨y, List.mem_append_left _ hy, hfirst⟩
  · exact absurd hfirst hlater
  · exact ⟨y, List.mem_append_right _ hy, hfirst⟩

theorem Prompt.step [DecidablePred first] (h : Prompt first k n s) (hsound : Sound bad s)
    (hstep : Step bad first k s s') : Prompt first k n s' := by
  rintro ⟨x, hx, hfirst⟩
  have hlive := hstep.live hx
  have hbefore := h ⟨x, hlive, hfirst⟩
  cases hstep with
  | @draw g rest hidle hne hpool hsize hdrawn =>
    have hpooled : ∃ x ∈ s.pool, first x := ⟨x, by simpa [hidle] using hlive, hfirst⟩
    have hcount : s.pool.countP (first ·) = g.countP (first ·) + rest.countP (first ·) := by
      rw [hpool.countP_eq, List.countP_append]
    have hsome : 1 ≤ g.countP (first ·) := by
      obtain ⟨x, hx, hfirst⟩ := hdrawn hpooled
      exact List.countP_pos_iff.mpr ⟨x, hx, by simpa using hfirst⟩
    have hmul : 2 * k * (1 + rest.countP (first ·)) ≤ 2 * k * s.pool.countP (first ·) := by
      apply Nat.mul_le_mul_left
      omega
    rw [Nat.mul_add, Nat.mul_one] at hmul
    have hweight : weight [g] = 2 * g.length - 1 := by simp [weight]
    have hnil : weight s.blocks = 0 := by simp [weight, hidle]
    simp only [hweight]
    omega
  | @pass bs g hblocks hgood =>
    have hpos := List.length_pos_iff.mpr (hsound.nonempty g (by simp [hblocks]))
    rw [hblocks, weight_concat] at hbefore
    simp only [List.length_append, List.length_singleton]
    omega
  | @fail bs x hblocks hbad =>
    rw [hblocks, weight_concat, List.length_singleton] at hbefore
    simp only [List.length_append, List.length_singleton]
    omega
  | @split bs a b hblocks ha hb =>
    have hpa := List.length_pos_iff.mpr ha
    have hpb := List.length_pos_iff.mpr hb
    rw [hblocks, weight_concat, List.length_append] at hbefore
    simp only [weight_split, List.length_append, List.length_singleton]
    omega

theorem weight_le (blocks : List (List α)) : weight blocks ≤ 2 * blocks.flatten.length := by
  induction blocks with
  | nil => simp [weight]
  | cons b bs ih =>
    simp only [weight, List.map_cons, List.sum_cons, List.flatten_cons, List.length_append] at ih ⊢
    omega

theorem Prompt.start [DecidablePred first] (hk : 1 ≤ k) (s : Lot α) :
    Prompt first k (s.past.length + 2 * k * s.items.length) s := by
  intro _
  have hcount : s.pool.countP (first ·) ≤ s.pool.length := List.countP_le_length
  have hblocks : weight s.blocks ≤ 2 * k * s.blocks.flatten.length := by
    refine (weight_le s.blocks).trans (Nat.mul_le_mul_right _ ?_)
    omega
  have hpool : 2 * k * s.pool.countP (first ·) ≤ 2 * k * s.pool.length := Nat.mul_le_mul_left _ hcount
  have hitems : 2 * k * (s.pool.length + s.blocks.flatten.length) ≤ 2 * k * s.items.length := by
    apply Nat.mul_le_mul_left
    simp only [items, List.length_append]
    omega
  rw [Nat.mul_add] at hitems
  omega

theorem weight_pos {b : List α} {blocks : List (List α)} (hb : b ∈ blocks) (hne : b ≠ []) :
    1 ≤ weight blocks := by
  have hle : 2 * b.length - 1 ≤ weight blocks :=
    List.single_le_sum (by simp) _ (List.mem_map.mpr ⟨b, hb, rfl⟩)
  have hpos := List.length_pos_iff.mpr hne
  omega

/-- Once there have been that many tests, no item of `first` is left. -/
theorem Prompt.past_lt [DecidablePred first] (h : Prompt first k n s) (hk : 1 ≤ k) {x : α}
    (hx : x ∈ s.pool ++ s.blocks.flatten) (hfirst : first x) (hnonempty : ∀ b ∈ s.blocks, b ≠ []) :
    s.past.length < n := by
  have hbound := h ⟨x, hx, hfirst⟩
  obtain hpool | hflat := List.mem_append.mp hx
  · have hcount : 1 ≤ s.pool.countP (first ·) :=
      List.countP_pos_iff.mpr ⟨x, hpool, by simpa using hfirst⟩
    have hmul : 2 * k * 1 ≤ 2 * k * s.pool.countP (first ·) := Nat.mul_le_mul_left _ hcount
    omega
  · obtain ⟨b, hb, -⟩ := List.mem_flatten.mp hflat
    have hpos := weight_pos hb (hnonempty b hb)
    omega

end Lot

end SwarmCloud.Lib
