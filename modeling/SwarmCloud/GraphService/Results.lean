import SwarmCloud.Lib.Recency
import SwarmCloud.Lib.Runs

/-! # The answers the graph service keeps

`swarm_graph/cache.py`, `_Lru` and `ResultCache`. An entry declares its size and
the least recently used go until the sizes fit the bound. An answer with a read
set is also the carry candidate of its question: a pointer that does not name
the manifest, and that is dropped with the answer it points at.
-/

namespace SwarmCloud.GraphService

open Lib

/-! ## The bounded dictionary -/

/-- `kept` is what a subclass keeps beside the entries. -/
structure Lru (κ υ τ : Type) where
  entries : Dict κ (υ × Nat)
  bytes : Int
  kept : τ

namespace Lru

variable {κ υ τ : Type} [DecidableEq κ]

def get (key : κ) (c : Lru κ υ τ) : Option υ × Lru κ υ τ :=
  match c.entries.lookup key with
  | none => (none, c)
  | some held => (some held.1, { c with entries := c.entries.touch key })

section Put

variable (bound : Nat) (dropped : κ → τ → τ)

/-- The `while` of `put`: the first entries go, never the last one. -/
def trim : Dict κ (υ × Nat) → Int → τ → Lru κ υ τ
  | [], bytes, kept => ⟨[], bytes, kept⟩
  | [entry], bytes, kept => ⟨[entry], bytes, kept⟩
  | entry :: next :: rest, bytes, kept =>
    if bound < bytes then trim (next :: rest) (bytes - entry.2.2) (dropped entry.1 kept)
    else ⟨entry :: next :: rest, bytes, kept⟩

def put (maxEntry : Nat) (key : κ) (value : υ) (size : Nat) (c : Lru κ υ τ) : Bool × Lru κ υ τ :=
  if maxEntry < size then (false, c)
  else
    let c := match c.entries.lookup key with
      | none => c
      | some old => ⟨c.entries.without key, c.bytes - old.2, dropped key c.kept⟩
    (true, trim bound dropped (c.entries ++ [(key, (value, size))]) (c.bytes + size) c.kept)

end Put

def weight (_ : κ) (held : υ × Nat) : Nat := held.2

structure Sized (bound : Nat) (c : Lru κ υ τ) : Prop where
  nodup : (c.entries.map Prod.fst).Nodup
  bytes_eq : c.bytes = c.entries.total weight
  small : ∀ entry ∈ c.entries, entry.2.2 ≤ bound
  within : c.bytes ≤ bound

variable {bound maxEntry size : Nat} {dropped : κ → τ → τ} {c : Lru κ υ τ} {key : κ} {value : υ}

theorem Sized.get (h : Sized bound c) (key : κ) : Sized bound (c.get key).2 := by
  unfold Lru.get
  split
  · exact h
  · have hperm := Dict.perm_touch h.nodup key
    constructor
    · exact (hperm.map Prod.fst).nodup_iff.mpr h.nodup
    · rw [Dict.total_perm weight hperm]
      exact h.bytes_eq
    · exact fun entry hentry => h.small entry (hperm.mem_iff.mp hentry)
    · exact h.within

theorem kept_get (key : κ) (c : Lru κ υ τ) : (c.get key).2.kept = c.kept := by
  unfold Lru.get
  split <;> rfl

theorem Sized.lookup_get (h : Sized bound c) (key : κ) {k : κ} {held : υ × Nat} (hheld : c.entries.lookup k = some held) :
    (c.get key).2.entries.lookup k = some held := by
  refine Dict.lookup_of_mem (h.get key).nodup ?_
  unfold Lru.get
  split
  · exact Dict.mem_of_lookup hheld
  · exact (Dict.perm_touch h.nodup key).mem_iff.mpr (Dict.mem_of_lookup hheld)

omit [DecidableEq κ] in
/-- What goes is the shortest beginning without which the sizes fit. -/
theorem trim_spec (bound : Nat) (dropped : κ → τ → τ) {entries : Dict κ (υ × Nat)} {bytes : Int} (kept : τ)
    (hbytes : bytes = entries.total weight) (hsmall : ∀ entry ∈ entries, entry.2.2 ≤ bound) :
    ∃ gone, entries = gone ++ (trim bound dropped entries bytes kept).entries ∧
      (trim bound dropped entries bytes kept).kept = gone.foldl (fun kept entry => dropped entry.1 kept) kept ∧
      (trim bound dropped entries bytes kept).bytes =
        Dict.total weight (trim bound dropped entries bytes kept).entries ∧
      (trim bound dropped entries bytes kept).bytes ≤ bound ∧
      (entries ≠ [] → (trim bound dropped entries bytes kept).entries ≠ []) ∧
      ∀ before last, gone = before ++ [last] →
        bound < last.2.2 + Dict.total weight (trim bound dropped entries bytes kept).entries := by
  induction entries, bytes, kept using trim.induct bound dropped with
  | case1 bytes kept =>
    refine ⟨[], rfl, rfl, hbytes, ?_, fun hne => absurd rfl hne, by simp⟩
    simp only [trim, hbytes, Dict.total, List.map_nil, List.sum_nil]
    omega
  | case2 entry bytes kept =>
    refine ⟨[], rfl, rfl, hbytes, ?_, fun _ => List.cons_ne_nil _ _, by simp⟩
    have hone := hsmall entry List.mem_cons_self
    simp only [trim, hbytes, Dict.total, weight, List.map_cons, List.map_nil, List.sum_cons, List.sum_nil]
    omega
  | case3 entry next rest bytes kept hover ih =>
    have hrest : bytes - entry.2.2 = Dict.total weight (next :: rest) := by
      simp only [Dict.total, weight, List.map_cons, List.sum_cons] at hbytes ⊢
      omega
    obtain ⟨gone, hgone, hkept, hsum, hwithin, hsome, hshort⟩ :=
      ih hrest fun entry hentry => hsmall entry (List.mem_cons_of_mem _ hentry)
    simp only [trim, if_pos hover]
    refine ⟨entry :: gone, congrArg (entry :: ·) hgone, hkept, hsum, hwithin, fun _ => hsome (List.cons_ne_nil _ _), ?_⟩
    intro before last hlast
    cases before with
    | nil =>
      obtain ⟨rfl, rfl⟩ := List.cons.inj hlast
      rw [List.nil_append] at hgone
      rw [← hgone]
      omega
    | cons first before =>
      obtain ⟨-, hlast⟩ := List.cons.inj hlast
      exact hshort before last hlast
  | case4 entry next rest bytes kept hfits =>
    simp only [trim, if_neg hfits]
    exact ⟨[], rfl, rfl, hbytes, by omega, fun _ => List.cons_ne_nil _ _, by simp⟩

/-- A value that is kept stands last, and its older value is out; what went besides is the oldest. -/
theorem put_spec (dropped : κ → τ → τ) (key : κ) (value : υ) (h : Sized bound c) (hmax : maxEntry ≤ bound)
    (hsize : size ≤ maxEntry) :
    ∃ c' gone older, c.put bound dropped maxEntry key value size = (true, c') ∧ Sized bound c' ∧
      c'.entries = older ++ [(key, (value, size))] ∧ c.entries.without key = gone ++ older ∧
      c'.kept = gone.foldl (fun kept entry => dropped entry.1 kept)
        (if key ∈ c.entries.map Prod.fst then dropped key c.kept else c.kept) := by
  set entries := c.entries.without key ++ [(key, (value, size))] with hentries
  have hnodup : (entries.map Prod.fst).Nodup := by
    rw [hentries, List.map_append, List.map_singleton, List.nodup_append]
    refine ⟨Dict.nodup_without h.nodup key, List.nodup_singleton _, ?_⟩
    intro k hk k' hk' heq
    obtain rfl := List.mem_singleton.mp hk'
    subst heq
    exact Dict.notMem_keys_without c.entries k hk
  have hsmall : ∀ entry ∈ entries, entry.2.2 ≤ bound := by
    intro entry hentry
    obtain hold | hlast := List.mem_append.mp hentry
    · exact h.small entry (List.mem_of_mem_filter hold)
    · rw [List.mem_singleton.mp hlast]
      exact hsize.trans hmax
  have hnew : Dict.total weight [(key, (value, size))] = size := by simp [Dict.total, weight]
  -- the two cases of `old` start the `while` from the same entries
  have hstart : ∃ bytes, bytes = (Dict.total weight entries : Int) ∧
      c.put bound dropped maxEntry key value size = (true, trim bound dropped entries bytes
        (if key ∈ c.entries.map Prod.fst then dropped key c.kept else c.kept)) := by
    rw [put, if_neg (by omega)]
    cases hold : c.entries.lookup key with
    | none =>
      have hout : key ∉ c.entries.map Prod.fst := by
        intro hmem
        obtain ⟨entry, hentry, rfl⟩ := List.mem_map.mp hmem
        rw [Dict.lookup_of_mem h.nodup hentry] at hold
        cases hold
      have hsame : entries = c.entries ++ [(key, (value, size))] := by rw [hentries, Dict.without_of_new hout]
      refine ⟨c.bytes + size, ?_, ?_⟩
      · have hbytes := h.bytes_eq
        rw [hsame, Dict.total_append, hnew]
        omega
      · rw [if_neg hout, hsame]
    | some old =>
      have hin : key ∈ c.entries.map Prod.fst := List.mem_map_of_mem (Dict.mem_of_lookup hold)
      refine ⟨c.bytes - old.2 + size, ?_, ?_⟩
      · have hbytes := h.bytes_eq
        have htotal := Dict.total_without weight h.nodup hold
        simp only [hentries, Dict.total_append, hnew, weight] at htotal ⊢
        omega
      · rw [if_pos hin]
  obtain ⟨bytes, hbytes, hput⟩ := hstart
  obtain ⟨gone, hgone, hkept, hsum, hwithin, hsome, -⟩ := trim_spec bound dropped
    (if key ∈ c.entries.map Prod.fst then dropped key c.kept else c.kept) hbytes hsmall
  set c' := trim bound dropped entries bytes (if key ∈ c.entries.map Prod.fst then dropped key c.kept else c.kept)
  have hne : c'.entries ≠ [] := hsome (by simp [hentries])
  obtain ⟨older, last, hlast⟩ := (List.eq_nil_or_concat' c'.entries).resolve_left hne
  have hsplit : c.entries.without key = gone ++ older ∧ (key, (value, size)) = last := by
    rw [hlast, ← List.append_assoc, hentries] at hgone
    obtain ⟨hfront, hend⟩ := List.append_inj' hgone rfl
    exact ⟨hfront, List.singleton_inj.mp hend⟩
  refine ⟨c', gone, older, hput, ⟨?_, hsum, ?_, hwithin⟩, ?_, hsplit.1, hkept⟩
  · rw [hgone, List.map_append] at hnodup
    exact hnodup.of_append_right
  · intro entry hentry
    refine hsmall entry ?_
    rw [hgone]
    exact List.mem_append_right _ hentry
  · rw [hlast, hsplit.2]

end Lru

/-! ## The answers -/

structure ResultKey where
  tenantId : String
  manifestDigest : String
  tool : String
  canonicalArgs : String
  toolsVersion : String
deriving DecidableEq

structure CarryKey where
  tenantId : String
  repoId : String
  tool : String
  canonicalArgs : String
  toolsVersion : String
deriving DecidableEq

def carryKey (key : ResultKey) (repoId : String) : CarryKey :=
  ⟨key.tenantId, repoId, key.tool, key.canonicalArgs, key.toolsVersion⟩

structure Pointers (R : Type) where
  readSets : Dict ResultKey R
  carry : Dict CarryKey ResultKey
  carryOf : Dict ResultKey CarryKey

abbrev ResultCache (R : Type) := Lru ResultKey String (Pointers R)

namespace ResultCache

variable {R : Type}

def empty : ResultCache R := ⟨[], 0, ⟨[], [], []⟩⟩

/-- `_dropped`. -/
def dropped (key : ResultKey) (p : Pointers R) : Pointers R where
  readSets := p.readSets.without key
  carryOf := p.carryOf.without key
  carry := match p.carryOf.lookup key with
    | none => p.carry
    | some ckey => if p.carry.lookup ckey = some key then p.carry.without ckey else p.carry

/-- A kept answer is the carry candidate of its question. -/
def point (key : ResultKey) (ckey : CarryKey) (reads : R) (p : Pointers R) : Pointers R where
  readSets := p.readSets.set key reads
  carry := p.carry.set ckey key
  carryOf := p.carryOf.set key ckey

section Put

variable (bound maxEntry : Nat) (readSetBytes : R → Nat)

/-- `put_result`, for a key that names a tenant and a manifest. -/
def putResult (key : ResultKey) (data : String) (repoId : String) (reads : Option R) (c : ResultCache R) :
    Bool × ResultCache R :=
  match reads, repoId with
  | none, _ | some _, "" => c.put bound dropped maxEntry key data data.length
  | some reads, repoId =>
    let put := c.put bound dropped maxEntry key data (data.length + readSetBytes reads)
    if put.1 then (true, { put.2 with kept := point key (carryKey key repoId) reads put.2.kept }) else put

end Put

/-- `carry_candidate`: the newest computation of the question at another digest. -/
def carryCandidate (key : ResultKey) (repoId : String) (c : ResultCache R) : Option (ResultKey × String × R) := do
  let held ← c.kept.carry.lookup (carryKey key repoId)
  if held = key then none
  else do
    let entry ← c.entries.lookup held
    let reads ← c.kept.readSets.lookup held
    some (held, entry.1, reads)

/-! ## The pointers -/

/-- Every pointer leads to an answer that is held, of its own question, with its read set. -/
structure Linked (P : ResultKey → Prop) (p : Pointers R) : Prop where
  held : ∀ key ckey, p.carryOf.lookup key = some ckey → P key
  question : ∀ key ckey, p.carryOf.lookup key = some ckey → ∃ repoId, ckey = carryKey key repoId
  explained : ∀ key, (p.carryOf.lookup key).isSome = (p.readSets.lookup key).isSome
  back : ∀ ckey key, p.carry.lookup ckey = some key → p.carryOf.lookup key = some ckey

variable {P Q : ResultKey → Prop} {p : Pointers R} {key : ResultKey}

theorem Linked.mono (h : Linked P p) (hPQ : ∀ k, P k → Q k) : Linked Q p :=
  ⟨fun k ckey hk => hPQ k (h.held k ckey hk), h.question, h.explained, h.back⟩

theorem Linked.dropped (h : Linked P p) (key : ResultKey) : Linked (fun k => P k ∧ k ≠ key) (dropped key p) := by
  have hcarryOf : ∀ k, (ResultCache.dropped key p).carryOf.lookup k = if k = key then none else p.carryOf.lookup k :=
    fun k => Dict.lookup_without
  have hother : ∀ k ckey, (ResultCache.dropped key p).carryOf.lookup k = some ckey →
      k ≠ key ∧ p.carryOf.lookup k = some ckey := by
    intro k ckey hk
    rw [hcarryOf] at hk
    split at hk
    · cases hk
    · rename_i hne
      exact ⟨hne, hk⟩
  constructor
  · intro k ckey hk
    obtain ⟨hne, hk⟩ := hother k ckey hk
    exact ⟨h.held k ckey hk, hne⟩
  · exact fun k ckey hk => h.question k ckey (hother k ckey hk).2
  · intro k
    rw [hcarryOf, ResultCache.dropped, Dict.lookup_without]
    split
    · rfl
    · exact h.explained k
  · intro ckey k hk
    have hold : p.carry.lookup ckey = some k ∧ k ≠ key := by
      simp only [ResultCache.dropped] at hk
      cases hof : p.carryOf.lookup key with
      | none =>
        rw [hof] at hk
        refine ⟨hk, ?_⟩
        rintro rfl
        rw [h.back ckey k hk] at hof
        cases hof
      | some own =>
        simp only [hof] at hk
        split at hk
        · rw [Dict.lookup_without] at hk
          split at hk
          · cases hk
          · rename_i hne
            refine ⟨hk, ?_⟩
            rintro rfl
            rw [h.back ckey k hk] at hof
            exact hne (Option.some.inj hof)
        · rename_i hnot
          refine ⟨hk, ?_⟩
          rintro rfl
          rw [h.back ckey k hk] at hof
          obtain rfl := Option.some.inj hof
          exact hnot hk
    rw [hcarryOf, if_neg hold.2]
    exact h.back ckey k hold.1

theorem Linked.foldl_dropped (gone : Dict ResultKey (String × Nat)) (h : Linked P p) :
    Linked (fun k => P k ∧ k ∉ gone.map Prod.fst) (gone.foldl (fun p entry => ResultCache.dropped entry.1 p) p) := by
  induction gone generalizing P p with
  | nil => exact h.mono fun k hk => ⟨hk, List.not_mem_nil⟩
  | cons entry gone ih =>
    refine (ih (h.dropped entry.1)).mono ?_
    rintro k ⟨⟨hk, hne⟩, hgone⟩
    refine ⟨hk, ?_⟩
    rw [List.map_cons, List.mem_cons, not_or]
    exact ⟨hne, hgone⟩

/-- What is not held has no read set. -/
theorem Linked.unread (h : Linked P p) (hkey : ¬ P key) : p.readSets.lookup key = none := by
  have hsame := h.explained key
  cases hof : p.carryOf.lookup key with
  | none =>
    rw [hof] at hsame
    exact Option.isSome_eq_false_iff.mp hsame.symm |> Option.isNone_iff_eq_none.mp
  | some ckey => exact absurd (h.held key ckey hof) hkey

/-- A new answer becomes the candidate of its question. -/
theorem Linked.point (h : Linked P p) (hkey : ¬ P key) (repoId : String) (reads : R) :
    Linked (fun k => P k ∨ k = key) (point key (carryKey key repoId) reads p) := by
  unfold ResultCache.point
  constructor
  · intro k ckey hk
    rw [Dict.lookup_set] at hk
    split at hk
    · rename_i heq
      exact .inr heq
    · exact .inl (h.held k ckey hk)
  · intro k ckey hk
    rw [Dict.lookup_set] at hk
    split at hk
    · rename_i heq
      rw [heq]
      exact ⟨repoId, (Option.some.inj hk).symm⟩
    · exact h.question k ckey hk
  · intro k
    rw [Dict.lookup_set, Dict.lookup_set]
    split
    · rfl
    · exact h.explained k
  · intro ckey k hk
    rw [Dict.lookup_set] at hk
    rw [Dict.lookup_set]
    split at hk
    · rename_i heq
      rw [if_pos (Option.some.inj hk).symm, heq]
    · have hold := h.back ckey k hk
      rw [if_neg, hold]
      rintro rfl
      exact hkey (h.held k ckey hold)

/-- A pointer goes with its answer, and no other key gets one. -/
theorem lookup_carryOf_foldl (gone : Dict ResultKey (String × Nat)) (p : Pointers R) {k : ResultKey} {ckey : CarryKey}
    (hk : (gone.foldl (fun p entry => ResultCache.dropped entry.1 p) p).carryOf.lookup k = some ckey) :
    p.carryOf.lookup k = some ckey := by
  induction gone generalizing p with
  | nil => exact hk
  | cons entry gone ih =>
    have hfirst : (ResultCache.dropped entry.1 p).carryOf.lookup k = some ckey := ih _ hk
    rw [ResultCache.dropped, Dict.lookup_without] at hfirst
    split at hfirst
    · cases hfirst
    · exact hfirst

theorem lookup_readSets_foldl (gone : Dict ResultKey (String × Nat)) (p : Pointers R) (k : ResultKey) :
    (gone.foldl (fun p entry => ResultCache.dropped entry.1 p) p).readSets.lookup k =
      if k ∈ gone.map Prod.fst then none else p.readSets.lookup k := by
  induction gone generalizing p with
  | nil => simp
  | cons entry gone ih =>
    rw [List.foldl_cons, ih, ResultCache.dropped, Dict.lookup_without, List.map_cons]
    by_cases hgone : k ∈ gone.map Prod.fst
    · simp [hgone]
    · by_cases hk : k = entry.1 <;> simp [hgone, hk]

/-! ## The invariant -/

section Invariant

variable {bound maxEntry : Nat} {readSetBytes : R → Nat} {c c' : ResultCache R} {data repoId : String} {reads : R}

def price (readSetBytes : R → Nat) (data : String) (reads : Option R) : Nat :=
  data.length + reads.elim 0 readSetBytes

/-- The books are right, no pointer dangles, and an answer is paid for with its read set. -/
structure Kept (bound : Nat) (readSetBytes : R → Nat) (c : ResultCache R) : Prop where
  sized : c.Sized bound
  linked : Linked (· ∈ c.entries.map Prod.fst) c.kept
  priced : ∀ entry ∈ c.entries, entry.2.2 = price readSetBytes entry.2.1 (c.kept.readSets.lookup entry.1)

theorem kept_empty (bound : Nat) (readSetBytes : R → Nat) : Kept bound readSetBytes (empty : ResultCache R) where
  sized := ⟨List.nodup_nil, rfl, nofun, Int.natCast_nonneg bound⟩
  linked := ⟨nofun, nofun, fun _ => rfl, nofun⟩
  priced := nofun

theorem Kept.get (h : Kept bound readSetBytes c) (key : ResultKey) : Kept bound readSetBytes (c.get key).2 := by
  have hsized := h.sized.get key
  unfold Lru.get at hsized ⊢
  split at hsized
  · exact h
  · have hperm := Dict.perm_touch h.sized.nodup key
    constructor
    · exact hsized
    · exact h.linked.mono fun k hk => (hperm.map Prod.fst).mem_iff.mpr hk
    · exact fun entry hentry => h.priced entry (hperm.mem_iff.mp hentry)

/-- What a put leaves: the new answer last, of the others the ones used last, and their read sets. -/
structure Replaced (key : ResultKey) (data : String) (reads : Option R) (c c' : ResultCache R) : Prop where
  stands : ∃ size older gone, c'.entries = older ++ [(key, (data, size))] ∧ c.entries.without key = gone ++ older
  readSets : ∀ k, c'.kept.readSets.lookup k =
    if k = key then reads
    else if k ∈ c'.entries.map Prod.fst then c.kept.readSets.lookup k else none
  pointed : ∀ k ckey, k ≠ key → c'.kept.carryOf.lookup k = some ckey → c.kept.carryOf.lookup k = some ckey

theorem Kept.put (h : Kept bound readSetBytes c) (key : ResultKey) (data : String) (hmax : maxEntry ≤ bound) {size : Nat}
    (hsize : size ≤ maxEntry) :
    ∃ c', c.put bound dropped maxEntry key data size = (true, c') ∧ c'.Sized bound ∧
      Linked (fun k => k ∈ c'.entries.map Prod.fst ∧ k ≠ key) c'.kept ∧ Replaced key data none c c' ∧
      (∀ entry ∈ c'.entries, entry = (key, (data, size)) ∨ entry ∈ c.entries ∧ entry.1 ≠ key) := by
  obtain ⟨c', gone, older, hput, hsized, hstand, hgone, hkept⟩ :=
    Lru.put_spec dropped key data h.sized hmax hsize
  have hnodup := Dict.nodup_without h.sized.nodup key
  rw [hgone, List.map_append, List.nodup_append] at hnodup
  have hmem : ∀ k, k ∈ c'.entries.map Prod.fst ↔ k ∈ older.map Prod.fst ∨ k = key := by
    intro k
    rw [hstand]
    simp
  have hold : ∀ k, k ∈ c.entries.map Prod.fst ∧ k ≠ key ↔ k ∈ gone.map Prod.fst ∨ k ∈ older.map Prod.fst := by
    intro k
    rw [← List.mem_append, ← List.map_append, ← hgone, Dict.keys_without, List.mem_filter, decide_eq_true_eq]
  -- before the old answers go, the key has no pointer and no read set
  have hstart : Linked (fun k => k ∈ c.entries.map Prod.fst ∧ k ≠ key)
        (if key ∈ c.entries.map Prod.fst then dropped key c.kept else c.kept) ∧
      ∀ k, (if key ∈ c.entries.map Prod.fst then dropped key c.kept else c.kept).readSets.lookup k =
        if k = key then none else c.kept.readSets.lookup k := by
    split
    · exact ⟨h.linked.dropped key, fun k => Dict.lookup_without⟩
    · rename_i hout
      constructor
      · refine h.linked.mono fun k hk => ⟨hk, ?_⟩
        rintro rfl
        exact hout hk
      · intro k
        split
        · rename_i hk
          rw [hk]
          exact h.linked.unread hout
        · rfl
  refine ⟨c', hput, hsized, ?_, ⟨⟨size, older, gone, hstand, hgone⟩, ?_, ?_⟩, ?_⟩
  · rw [hkept]
    refine (hstart.1.foldl_dropped gone).mono ?_
    rintro k ⟨hk, hgoing⟩
    refine ⟨(hmem k).mpr (.inl ?_), hk.2⟩
    exact ((hold k).mp hk).resolve_left hgoing
  · intro k
    rw [hkept, lookup_readSets_foldl, hstart.2]
    by_cases hk : k = key
    · simp [hk]
    · rw [if_neg hk, if_neg hk]
      by_cases hgoing : k ∈ gone.map Prod.fst
      · have hnot : k ∉ c'.entries.map Prod.fst := by
          rw [hmem, not_or]
          exact ⟨fun hin => hnodup.2.2 k hgoing k hin rfl, hk⟩
        rw [if_pos hgoing, if_neg hnot]
      · rw [if_neg hgoing]
        split
        · rfl
        · rename_i hnot
          refine h.linked.unread fun hin => ?_
          obtain hgoing' | hin' := (hold k).mp ⟨hin, hk⟩
          · exact hgoing hgoing'
          · exact hnot ((hmem k).mpr (.inl hin'))
  · intro k ckey hne hk
    rw [hkept] at hk
    have hbefore := lookup_carryOf_foldl gone _ hk
    split at hbefore
    · rw [dropped, Dict.lookup_without, if_neg hne] at hbefore
      exact hbefore
    · exact hbefore
  · intro entry hentry
    rw [hstand] at hentry
    obtain hin | hlast := List.mem_append.mp hentry
    · obtain ⟨k, v⟩ := entry
      have hwithout : (k, v) ∈ c.entries.without key := by
        rw [hgone]
        exact List.mem_append_right _ hin
      exact .inr (Dict.mem_without.mp hwithout)
    · exact .inl (List.mem_singleton.mp hlast)

/-- `if reads is None or not repo_id`. -/
def explaining (repoId : String) (reads : Option R) : Option R := if repoId = "" then none else reads

theorem putResult_plain {reads : Option R} (hnone : explaining repoId reads = none) :
    putResult bound maxEntry readSetBytes key data repoId reads c =
      c.put bound dropped maxEntry key data (price readSetBytes data none) := by
  unfold putResult explaining at *
  cases reads with
  | none => rfl
  | some reads =>
    split at hnone
    · rename_i hrepo
      subst hrepo
      rfl
    · cases hnone

theorem putResult_explained {reads : Option R} {r : R} (hsome : explaining repoId reads = some r) :
    putResult bound maxEntry readSetBytes key data repoId reads c =
      let put := c.put bound dropped maxEntry key data (price readSetBytes data (some r))
      if put.1 then (true, { put.2 with kept := point key (carryKey key repoId) r put.2.kept }) else put := by
  unfold explaining at hsome
  split at hsome
  · cases hsome
  · rename_i hrepo
    subst hsome
    unfold putResult
    split
    · rename_i heq
      cases heq
    · exact absurd rfl hrepo
    · rename_i heq _
      obtain rfl := Option.some.inj heq
      rfl

/-- Too large an answer is not kept. -/
theorem putResult_big {reads : Option R} (hbig : maxEntry < price readSetBytes data (explaining repoId reads)) :
    putResult bound maxEntry readSetBytes key data repoId reads c = (false, c) := by
  cases hreads : explaining repoId reads with
  | none =>
    rw [hreads] at hbig
    rw [putResult_plain hreads, Lru.put, if_pos hbig]
  | some r =>
    rw [hreads] at hbig
    rw [putResult_explained hreads, Lru.put, if_pos hbig]
    rfl

theorem Kept.putResult (h : Kept bound readSetBytes c) (hmax : maxEntry ≤ bound) (key : ResultKey) {reads : Option R}
    (hsize : price readSetBytes data (explaining repoId reads) ≤ maxEntry) :
    ∃ c', putResult bound maxEntry readSetBytes key data repoId reads c = (true, c') ∧ Kept bound readSetBytes c' ∧
      Replaced key data (explaining repoId reads) c c' ∧
      ∀ r, explaining repoId reads = some r → c'.kept.carry.lookup (carryKey key repoId) = some key := by
  obtain ⟨c', hput, hsized, hlinked, hreplaced, hentries⟩ := h.put key data hmax hsize
  have hprice : ∀ entry ∈ c.entries, entry.1 ≠ key → entry ∈ c'.entries →
      entry.2.2 = price readSetBytes entry.2.1 (c'.kept.readSets.lookup entry.1) := by
    intro entry hold hne hin
    rw [hreplaced.readSets, if_neg hne, if_pos (List.mem_map_of_mem hin)]
    exact h.priced entry hold
  have hkey : key ∈ c'.entries.map Prod.fst := by
    obtain ⟨size, older, gone, hstand, -⟩ := hreplaced.stands
    rw [hstand]
    simp
  cases hreads : explaining repoId reads with
  | none =>
    rw [hreads] at hput hentries
    rw [putResult_plain hreads]
    refine ⟨c', hput, ⟨hsized, hlinked.mono fun k hk => hk.1, ?_⟩, hreplaced, nofun⟩
    intro entry hentry
    obtain rfl | ⟨hold, hne⟩ := hentries entry hentry
    · rw [hreplaced.readSets, if_pos rfl]
    · exact hprice entry hold hne hentry
  | some r =>
    rw [hreads] at hput hentries
    have hpoint := hlinked.point (fun hk => hk.2 rfl) repoId r
    have hbooks : Lru.Sized bound { c' with kept := point key (carryKey key repoId) r c'.kept } :=
      ⟨hsized.nodup, hsized.bytes_eq, hsized.small, hsized.within⟩
    refine ⟨{ c' with kept := point key (carryKey key repoId) r c'.kept }, ?_, ⟨hbooks, hpoint.mono ?_, ?_⟩,
      ⟨hreplaced.stands, ?_, ?_⟩, ?_⟩
    · rw [putResult_explained hreads]
      simp only [hput, if_true]
    · rintro k (hk | rfl)
      · exact hk.1
      · exact hkey
    · intro entry hentry
      simp only [point, Dict.lookup_set]
      obtain rfl | ⟨hold, hne⟩ := hentries entry hentry
      · rw [if_pos rfl]
      · rw [if_neg hne]
        exact hprice entry hold hne hentry
    · intro k
      simp only [point, Dict.lookup_set]
      split
      · rfl
      · rename_i hne
        rw [hreplaced.readSets, if_neg hne]
    · intro k ckey hne hk
      simp only [point, Dict.lookup_set, if_neg hne] at hk
      exact hreplaced.pointed k ckey hne hk
    · intro _ _
      simp only [point, Dict.lookup_set, if_true]

/-- A candidate is held, with its own read set, and answers the same question at another digest. -/
theorem Kept.candidate (h : Kept bound readSetBytes c) {held : ResultKey}
    (hcarry : c.kept.carry.lookup (carryKey key repoId) = some held) (hne : held ≠ key) :
    (∃ data reads, carryCandidate key repoId c = some (held, data, reads)) ∧
      (∃ repo, carryKey held repo = carryKey key repoId) ∧ held.manifestDigest ≠ key.manifestDigest := by
  have hof := h.linked.back _ _ hcarry
  obtain ⟨repo, hquestion⟩ := h.linked.question _ _ hof
  have hsome := h.linked.explained held
  rw [hof, Option.isSome_some] at hsome
  obtain ⟨reads, hreads⟩ := Option.isSome_iff_exists.mp hsome.symm
  obtain ⟨entry, hentry, rfl⟩ := List.mem_map.mp (h.linked.held _ _ hof)
  have hlookup := Dict.lookup_of_mem h.sized.nodup hentry
  refine ⟨⟨entry.2.1, reads, ?_⟩, ⟨repo, hquestion.symm⟩, fun hdigest => hne ?_⟩
  · simp only [carryCandidate, hcarry, Option.bind_eq_bind, Option.bind_some, if_neg hne, hlookup, hreads]
  · obtain ⟨⟨tenant, digest, tool, args, version⟩, value⟩ := entry
    obtain ⟨tenant', digest', tool', args', version'⟩ := key
    simp only [carryKey, CarryKey.mk.injEq] at hquestion
    simp only [ResultKey.mk.injEq]
    exact ⟨hquestion.1.symm, hdigest, hquestion.2.2.1.symm, hquestion.2.2.2.1.symm, hquestion.2.2.2.2.symm⟩

theorem carryCandidate_eq_some {held : ResultKey} (hcandidate : carryCandidate key repoId c = some (held, data, reads)) :
    c.kept.carry.lookup (carryKey key repoId) = some held ∧ held ≠ key ∧
      (∃ size, c.entries.lookup held = some (data, size)) ∧ c.kept.readSets.lookup held = some reads := by
  simp only [carryCandidate, Option.bind_eq_bind, Option.bind_eq_some_iff] at hcandidate
  obtain ⟨k, hk, hcandidate⟩ := hcandidate
  split at hcandidate
  · cases hcandidate
  · rename_i hne
    obtain ⟨entry, hentry, r, hr, heq⟩ := by simpa only [Option.bind_eq_some_iff] using hcandidate
    cases heq
    exact ⟨hk, hne, ⟨entry.2, hentry⟩, hr⟩

/-- A kept answer with a read set is the candidate of its question at every other digest. -/
theorem Kept.newest (h : Kept bound readSetBytes c) (hmax : maxEntry ≤ bound) {other : ResultKey} (hrepo : repoId ≠ "")
    (hsize : price readSetBytes data (some reads) ≤ maxEntry) (hquestion : carryKey other repoId = carryKey key repoId)
    (hne : other ≠ key) :
    carryCandidate other repoId (ResultCache.putResult bound maxEntry readSetBytes key data repoId (some reads) c).2 =
      some (key, data, reads) := by
  have hreads : explaining repoId (some reads) = some reads := if_neg hrepo
  obtain ⟨c', hput, hkept, hreplaced, hcarry⟩ :=
    h.putResult hmax key (show price readSetBytes data (explaining repoId (some reads)) ≤ maxEntry by rwa [hreads])
  have hheld := hcarry reads hreads
  rw [← hquestion] at hheld
  obtain ⟨size, older, gone, hstand, -⟩ := hreplaced.stands
  have hlookup : c'.entries.lookup key = some (data, size) := by
    refine Dict.lookup_of_mem hkept.sized.nodup ?_
    rw [hstand]
    simp
  have hread : c'.kept.readSets.lookup key = some reads := by rw [hreplaced.readSets, if_pos rfl, hreads]
  rw [hput]
  simp only [carryCandidate, hheld, Option.bind_eq_bind, Option.bind_some, if_neg hne.symm, hlookup, hread]

end Invariant

/-! ## Any order of uses -/

inductive Use (R : Type)
  | get (key : ResultKey)
  | put (key : ResultKey) (data repoId : String) (reads : Option R)

section Uses

variable (bound maxEntry : Nat) (readSetBytes : R → Nat)

def used (c : ResultCache R) : Use R → ResultCache R
  | .get key => (c.get key).2
  | .put key data repoId reads => (putResult bound maxEntry readSetBytes key data repoId reads c).2

def after (uses : List (Use R)) : ResultCache R := uses.foldl (used bound maxEntry readSetBytes) empty

variable {bound maxEntry : Nat} {readSetBytes : R → Nat} {c : ResultCache R}

theorem Kept.used (h : Kept bound readSetBytes c) (hmax : maxEntry ≤ bound) (use : Use R) :
    Kept bound readSetBytes (ResultCache.used bound maxEntry readSetBytes c use) := by
  cases use with
  | get key => exact h.get key
  | put key data repoId reads =>
    rw [ResultCache.used]
    by_cases hbig : maxEntry < price readSetBytes data (explaining repoId reads)
    · rw [putResult_big hbig]
      exact h
    · obtain ⟨c', hput, hkept, -⟩ := h.putResult hmax key (not_lt.mp hbig)
      rw [hput]
      exact hkept

theorem kept_after (hmax : maxEntry ≤ bound) (uses : List (Use R)) :
    Kept bound readSetBytes (after bound maxEntry readSetBytes uses) := by
  induction uses using List.reverseRecOn with
  | nil => exact kept_empty bound readSetBytes
  | append_singleton uses use ih =>
    rw [after, List.foldl_append]
    exact ih.used hmax use

/-- What a carry pointer leads to was kept for the very repository it names, with the read set held beside it. -/
def Recorded (uses : List (Use R)) (c : ResultCache R) : Prop :=
  ∀ key ckey, c.kept.carryOf.lookup key = some ckey → ∃ data repoId reads, ckey = carryKey key repoId ∧
    .put key data repoId (some reads) ∈ uses ∧ (∃ size, c.entries.lookup key = some (data, size)) ∧
      c.kept.readSets.lookup key = some reads

theorem Recorded.get {uses : List (Use R)} (h : Recorded uses c) (hkept : Kept bound readSetBytes c) (key : ResultKey) :
    Recorded (uses ++ [Use.get key]) (c.get key).2 := by
  intro k ckey hk
  rw [Lru.kept_get] at hk ⊢
  obtain ⟨data, repoId, reads, hckey, hput, ⟨size, hheld⟩, hreads⟩ := h k ckey hk
  exact ⟨data, repoId, reads, hckey, List.mem_append_left _ hput, ⟨size, hkept.sized.lookup_get key hheld⟩, hreads⟩

theorem Recorded.put {uses : List (Use R)} {key : ResultKey} {data repoId : String} {reads : Option R} {c' : ResultCache R}
    (h : Recorded uses c) (hkept : Kept bound readSetBytes c) (hkept' : Kept bound readSetBytes c')
    (hreplaced : Replaced key data (explaining repoId reads) c c')
    (hcarry : ∀ r, explaining repoId reads = some r → c'.kept.carry.lookup (carryKey key repoId) = some key) :
    Recorded (uses ++ [Use.put key data repoId reads]) c' := by
  intro k ckey hk
  obtain ⟨size, older, gone, hstand, hgone⟩ := hreplaced.stands
  have hread := hreplaced.readSets k
  by_cases hkey : k = key
  · subst hkey
    have hsome := hkept'.linked.explained k
    rw [hk, hread, if_pos rfl, Option.isSome_some] at hsome
    obtain ⟨r, hr⟩ := Option.isSome_iff_exists.mp hsome.symm
    have hown := hkept'.linked.back _ _ (hcarry r hr)
    rw [hk] at hown
    have hreads : reads = some r := by
      unfold explaining at hr
      split at hr
      · cases hr
      · exact hr
    have hlast : (k, (data, size)) ∈ c'.entries := by simp [hstand]
    refine ⟨data, repoId, r, Option.some.inj hown, by simp [hreads], ⟨size, ?_⟩, ?_⟩
    · exact Dict.lookup_of_mem hkept'.sized.nodup hlast
    · rw [hread, if_pos rfl, hr]
  · obtain ⟨data', repo, r, hckey, hput, ⟨size', hlookup⟩, hr⟩ := h k ckey (hreplaced.pointed k ckey hkey hk)
    have hin : k ∈ c'.entries.map Prod.fst := hkept'.linked.held k ckey hk
    have hsame : c'.entries.lookup k = some (data', size') := by
      obtain ⟨⟨k', held⟩, hentry, heq⟩ := List.mem_map.mp hin
      obtain rfl : k' = k := heq
      have holder : (k', held) ∈ c.entries.without key := by
        rw [hgone, List.mem_append]
        rw [hstand, List.mem_append, List.mem_singleton, Prod.mk.injEq] at hentry
        exact .inr (hentry.resolve_right fun hlast => hkey hlast.1)
      rw [Dict.lookup_of_mem hkept.sized.nodup (Dict.mem_without.mp holder).1] at hlookup
      rw [← hlookup]
      exact Dict.lookup_of_mem hkept'.sized.nodup (hstand ▸ hentry)
    rw [if_neg hkey, if_pos hin, hr] at hread
    exact ⟨data', repo, r, hckey, List.mem_append_left _ hput, ⟨size', hsame⟩, hread⟩

theorem Recorded.used {uses : List (Use R)} (h : Recorded uses c) (hkept : Kept bound readSetBytes c) (hmax : maxEntry ≤ bound)
    (use : Use R) : Recorded (uses ++ [use]) (ResultCache.used bound maxEntry readSetBytes c use) := by
  cases use with
  | get key => exact h.get hkept key
  | put key data repoId reads =>
    rw [ResultCache.used]
    by_cases hbig : maxEntry < price readSetBytes data (explaining repoId reads)
    · rw [putResult_big hbig]
      intro k ckey hk
      obtain ⟨data', repo, r, hckey, hput, hheld⟩ := h k ckey hk
      exact ⟨data', repo, r, hckey, List.mem_append_left _ hput, hheld⟩
    · obtain ⟨c', hput, hkept', hreplaced, hcarry⟩ := hkept.putResult hmax key (not_lt.mp hbig)
      rw [hput]
      exact h.put hkept hkept' hreplaced hcarry

theorem recorded_after (hmax : maxEntry ≤ bound) (uses : List (Use R)) :
    Recorded uses (after bound maxEntry readSetBytes uses) := by
  induction uses using List.reverseRecOn with
  | nil => exact fun _ _ hk => by cases hk
  | append_singleton uses use ih =>
    rw [after, List.foldl_append]
    exact ih.used (kept_after hmax uses) hmax use

/-- After any uses the cache is within its bound, read sets counted; a carry pointer leads to an answer that
is held, kept for the same question and repository at another digest; and the answer kept last is the one it leads to. -/
theorem results_after (hmax : maxEntry ≤ bound) (uses : List (Use R)) :
    let c := after bound maxEntry readSetBytes uses
    (c.bytes = c.entries.total Lru.weight ∧ c.bytes ≤ bound ∧
        ∀ entry ∈ c.entries, entry.2.2 = price readSetBytes entry.2.1 (c.kept.readSets.lookup entry.1)) ∧
      (∀ key repoId held, c.kept.carry.lookup (carryKey key repoId) = some held → held ≠ key →
        (∃ data reads, carryCandidate key repoId c = some (held, data, reads) ∧
            .put held data repoId (some reads) ∈ uses) ∧
          carryKey held repoId = carryKey key repoId ∧ held.manifestDigest ≠ key.manifestDigest) ∧
      ∀ key other data repoId reads, repoId ≠ "" → price readSetBytes data (some reads) ≤ maxEntry →
        carryKey other repoId = carryKey key repoId → other ≠ key →
        carryCandidate other repoId (putResult bound maxEntry readSetBytes key data repoId (some reads) c).2 =
          some (key, data, reads) := by
  have h : Kept bound readSetBytes (after bound maxEntry readSetBytes uses) := kept_after hmax uses
  refine ⟨⟨h.sized.bytes_eq, h.sized.within, h.priced⟩, ?_, ?_⟩
  · intro key repoId held hcarry hne
    obtain ⟨hcandidate, -, hdigest⟩ := h.candidate hcarry hne
    obtain ⟨data, reads, hcandidate⟩ := hcandidate
    obtain ⟨-, -, ⟨size, hheld⟩, hreads⟩ := carryCandidate_eq_some hcandidate
    obtain ⟨data', repo, reads', hquestion, hput, ⟨size', hheld'⟩, hreads'⟩ :=
      recorded_after hmax uses held _ (h.linked.back _ _ hcarry)
    rw [hheld, Option.some.injEq, Prod.mk.injEq] at hheld'
    rw [hreads, Option.some.injEq] at hreads'
    have hrepo : repoId = repo := congrArg CarryKey.repoId hquestion
    rw [← hheld'.1, ← hreads', ← hrepo] at hput
    exact ⟨⟨data, reads, hcandidate, hput⟩, hrepo ▸ hquestion.symm, hdigest⟩
  · intro key other data repoId reads hrepo hsize hquestion hne
    exact h.newest hmax hrepo hsize hquestion hne

def searchAt (digest args : String) : ResultKey := ⟨"t", digest, "search", args, "1"⟩

/-- An answer is asked for again, which keeps it when the fourth answer takes the oldest one's room. -/
def fourAnswers : List (Use (List Nat)) :=
  [.put (searchAt "d1" "a") "1111" "r" (some [1]), .put (searchAt "d1" "b") "2222" "r" (some [2]), .get (searchAt "d1" "a"),
    .put (searchAt "d1" "c") "3333" "s" (some [3]), .put (searchAt "d2" "c") "4444" "r" none]

theorem results_after_four :
    let c := after 15 5 List.length fourAnswers
    c.bytes = c.entries.total Lru.weight ∧ carryCandidate (searchAt "d2" "b") "r" c = none ∧
      ∃ data reads, carryCandidate (searchAt "d2" "a") "r" c = some (searchAt "d1" "a", data, reads) ∧
        .put (searchAt "d1" "a") data "r" (some reads) ∈ fourAnswers := by
  obtain ⟨⟨hbytes, -⟩, hcarried, -⟩ := results_after (show 5 ≤ 15 by decide) fourAnswers
  refine ⟨hbytes, by decide, ?_⟩
  exact (hcarried (searchAt "d2" "a") "r" (searchAt "d1" "a") (by decide) (by decide)).1

end Uses

end ResultCache

end SwarmCloud.GraphService
