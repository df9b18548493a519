import SwarmCloud.Lib.Loops
import SwarmCloud.Lib.Recency
import SwarmCloud.Lib.Runs

/-! # The decoded shards of the graph service

`swarm_graph/cache.py`, `ShardCache`: decoded shards by tenant and blob, least
recently used first, bounded by their raw bytes. While more than one tenant is
resident none keeps more than half of the bound: a tenant over it gives up its
own least recently used shards first.
-/

namespace SwarmCloud.GraphService

open Lib

structure ShardKey where
  tenantId : String
  blobSha256 : String
deriving DecidableEq

structure Shard (ρ : Type) where
  rows : List ρ
  rawBytes : Nat
deriving DecidableEq

structure ShardCache (ρ : Type) where
  entries : Dict ShardKey (Shard ρ)
  bytes : Int
  tenantBytes : Dict String Int
deriving DecidableEq

namespace ShardCache

variable {ρ : Type}

def empty : ShardCache ρ := ⟨[], 0, []⟩

/-- The most one tenant may hold while another is resident. -/
def share (bound : Nat) : Nat := bound / 2

/-- `get`: the shard, and that it is the one used last. -/
def get (key : ShardKey) (c : ShardCache ρ) : Option (Shard ρ) × ShardCache ρ :=
  match c.entries.lookup key with
  | none => (none, c)
  | some shard => (some shard, { c with entries := c.entries.touch key })

/-- `_evict`. A key that is missing raises, with what was done before it done. -/
def evict (key : ShardKey) (c : ShardCache ρ) : Except (ShardCache ρ) (ShardCache ρ) :=
  match c.entries.lookup key with
  | none => .error c
  | some shard =>
    let popped := { c with entries := c.entries.without key, bytes := c.bytes - shard.rawBytes }
    match c.tenantBytes.lookup key.tenantId with
    | none => .error popped
    | some held =>
      let left := held - shard.rawBytes
      .ok { popped with
        tenantBytes :=
          if 0 < left then c.tenantBytes.set key.tenantId left else c.tenantBytes.without key.tenantId }

/-- One turn of a `while`: the first entry that is asked for goes. `next` raises where there is none. -/
def evictTurn (tooMuch : ShardCache ρ → Bool) (asked : ShardKey → Bool) (c : ShardCache ρ) :
    ShardCache ρ ⊕ Except (ShardCache ρ) (ShardCache ρ) :=
  if tooMuch c then
    match c.entries.find? (asked ·.1) with
    | none => .inr (.error c)
    | some entry => match c.evict entry.1 with
      | .error c' => .inr (.error c')
      | .ok c' => .inl c'
  else .inr (.ok c)

/-- Every turn takes one entry, so the entries bound the turns. -/
def evictWhile (tooMuch : ShardCache ρ → Bool) (asked : ShardKey → Bool) (c : ShardCache ρ) :
    Except (ShardCache ρ) (ShardCache ρ) :=
  (loop (evictTurn tooMuch asked) (c.entries.length + 1) c).getD (.error c)

def overShare (bound : Nat) (tenant : String) (c : ShardCache ρ) : Bool :=
  1 < c.tenantBytes.length && (share bound : Int) < (c.tenantBytes.lookup tenant).getD 0

def overBound (bound : Nat) (c : ShardCache ρ) : Bool := (bound : Int) < c.bytes && 1 < c.entries.length

def added (key : ShardKey) (shard : Shard ρ) (c : ShardCache ρ) : ShardCache ρ :=
  { entries := c.entries ++ [(key, shard)]
    bytes := c.bytes + shard.rawBytes
    tenantBytes := c.tenantBytes.set key.tenantId ((c.tenantBytes.lookup key.tenantId).getD 0 + shard.rawBytes) }

def tenantsOver (bound : Nat) (c : ShardCache ρ) : List String :=
  (c.tenantBytes.filter fun held => (share bound : Int) < held.2).map Prod.fst

/-- `_put`. -/
def put (bound : Nat) (key : ShardKey) (shard : Shard ρ) (c : ShardCache ρ) : Except (ShardCache ρ) (ShardCache ρ) :=
  if share bound < shard.rawBytes ∨ key ∈ c.entries.map Prod.fst then .ok c
  else do
    let c := c.added key shard
    let c ← (c.tenantsOver bound).foldlM (fun c tenant => c.evictWhile (overShare bound tenant) (·.tenantId = tenant)) c
    c.evictWhile (overBound bound) fun _ => true

/-! ## The books -/

def size (_ : ShardKey) (shard : Shard ρ) : Nat := shard.rawBytes

/-- The raw bytes of the shards a tenant has in the cache. -/
def heldBy (tenant : String) (c : ShardCache ρ) : Nat := (c.entries.ofClass ShardKey.tenantId tenant).total size

/-- The counters are what the entries say, and a tenant with no entry is on no list. -/
structure Accounted (c : ShardCache ρ) : Prop where
  nodup : (c.entries.map Prod.fst).Nodup
  nonempty : ∀ entry ∈ c.entries, 0 < entry.2.rawBytes
  bytes_eq : c.bytes = c.entries.total size
  tenants_nodup : (c.tenantBytes.map Prod.fst).Nodup
  tenant_eq : ∀ tenant, c.tenantBytes.lookup tenant = if c.heldBy tenant = 0 then none else some (c.heldBy tenant : Int)

variable {bound : Nat} {c c' : ShardCache ρ} {key : ShardKey} {shard : Shard ρ} {tenant : String}

theorem accounted_empty : Accounted (empty : ShardCache ρ) where
  nodup := List.nodup_nil
  nonempty := nofun
  bytes_eq := rfl
  tenants_nodup := List.nodup_nil
  tenant_eq _ := rfl

theorem heldBy_pos (h : Accounted c) (hmem : (key, shard) ∈ c.entries) : 0 < c.heldBy key.tenantId := by
  have hle : size key shard ≤ c.heldBy key.tenantId :=
    Dict.size_le_total size (Dict.mem_ofClass.mpr ⟨hmem, rfl⟩)
  exact lt_of_lt_of_le (h.nonempty _ hmem) hle

theorem getD_tenantBytes (h : Accounted c) (tenant : String) :
    (c.tenantBytes.lookup tenant).getD 0 = (c.heldBy tenant : Int) := by
  rw [h.tenant_eq]
  split
  · rename_i hzero
    simp [hzero]
  · rfl

/-- The books do not depend on the order of the entries. -/
theorem Accounted.perm (h : Accounted c) {entries : Dict ShardKey (Shard ρ)} (hperm : entries.Perm c.entries) :
    Accounted { c with entries := entries } := by
  have hheld : ∀ tenant, heldBy tenant { c with entries := entries } = c.heldBy tenant :=
    fun tenant => Dict.total_perm size (hperm.filter _)
  constructor
  · exact (hperm.map Prod.fst).nodup_iff.mpr h.nodup
  · exact fun entry hentry => h.nonempty entry (hperm.mem_iff.mp hentry)
  · rw [Dict.total_perm size hperm]
    exact h.bytes_eq
  · exact h.tenants_nodup
  · intro tenant
    rw [hheld]
    exact h.tenant_eq tenant

theorem Accounted.get (h : Accounted c) (key : ShardKey) : Accounted (c.get key).2 := by
  unfold ShardCache.get
  split
  · exact h
  · exact h.perm (Dict.perm_touch h.nodup key)

theorem Accounted.added (h : Accounted c) (hnew : key ∉ c.entries.map Prod.fst) (hpos : 0 < shard.rawBytes) :
    Accounted (c.added key shard) := by
  have hheld : ∀ tenant, heldBy tenant (c.added key shard) =
      c.heldBy tenant + if key.tenantId = tenant then shard.rawBytes else 0 :=
    fun tenant => Dict.total_ofClass_append size tenant c.entries key shard
  constructor
  · rw [ShardCache.added, List.map_append, List.map_singleton, List.nodup_append]
    refine ⟨h.nodup, List.nodup_singleton _, ?_⟩
    intro k hk k' hk' heq
    obtain rfl := List.mem_singleton.mp hk'
    subst heq
    exact hnew hk
  · intro entry hentry
    rcases List.mem_append.mp hentry with hold | hlast
    · exact h.nonempty entry hold
    · rw [List.mem_singleton.mp hlast]
      exact hpos
  · have hone : Dict.total size [(key, shard)] = shard.rawBytes := by simp [Dict.total, size]
    have hbytes := h.bytes_eq
    simp only [ShardCache.added, Dict.total_append]
    omega
  · exact Dict.nodup_set h.tenants_nodup _ _
  · intro tenant
    rw [hheld, ShardCache.added, Dict.lookup_set, getD_tenantBytes h]
    by_cases ht : tenant = key.tenantId
    · subst ht
      rw [if_pos rfl, if_pos rfl, if_neg (by omega)]
      simp
    · rw [if_neg ht, if_neg (Ne.symm ht), Nat.add_zero]
      exact h.tenant_eq tenant

/-- An eviction of an entry goes through, and the books stay right. -/
theorem Accounted.evict (h : Accounted c) (hkey : c.entries.lookup key = some shard) :
    ∃ c', c.evict key = .ok c' ∧ Accounted c' ∧ c'.entries = c.entries.without key ∧
      c'.tenantBytes.length ≤ c.tenantBytes.length := by
  have hmem := Dict.mem_of_lookup hkey
  have hheld : ∀ tenant, c.heldBy tenant = (if key.tenantId = tenant then shard.rawBytes else 0) +
      (Dict.ofClass ShardKey.tenantId tenant (c.entries.without key)).total size :=
    fun tenant => Dict.total_ofClass_without size h.nodup hkey tenant
  have hown := hheld key.tenantId
  rw [if_pos rfl] at hown
  have htenant : c.tenantBytes.lookup key.tenantId = some (c.heldBy key.tenantId : Int) := by
    rw [h.tenant_eq, if_neg (heldBy_pos h hmem).ne']
  simp only [ShardCache.evict, hkey, htenant, Except.ok.injEq, exists_eq_left', true_and]
  constructor
  · constructor
    · exact Dict.nodup_without h.nodup key
    · rintro ⟨k, s⟩ hentry
      exact h.nonempty _ (Dict.mem_without.mp hentry).1
    · have htotal := Dict.total_without size h.nodup hkey
      have hbytes := h.bytes_eq
      simp only [size] at htotal ⊢
      omega
    · change (List.map Prod.fst (ite _ _ _)).Nodup
      split
      · exact Dict.nodup_set h.tenants_nodup _ _
      · exact Dict.nodup_without h.tenants_nodup _
    · intro tenant
      change List.lookup tenant (ite _ _ _) =
        if (Dict.ofClass ShardKey.tenantId tenant (c.entries.without key)).total size = 0 then none
        else some ((Dict.ofClass ShardKey.tenantId tenant (c.entries.without key)).total size : Int)
      by_cases ht : tenant = key.tenantId
      · rw [ht]
        split
        · rw [Dict.lookup_set, if_pos rfl, if_neg (by omega)]
          congr 1
          omega
        · rw [Dict.lookup_without, if_pos rfl, if_pos (by omega)]
      · have hother := hheld tenant
        rw [if_neg (Ne.symm ht), Nat.zero_add] at hother
        have hbooks := h.tenant_eq tenant
        rw [hother] at hbooks
        split
        · rw [Dict.lookup_set, if_neg ht]
          exact hbooks
        · rw [Dict.lookup_without, if_neg ht]
          exact hbooks
  · change List.length (ite _ _ _) ≤ _
    split
    · have hkeys := congrArg List.length (Dict.keys_set c.tenantBytes key.tenantId
        ((c.heldBy key.tenantId : Int) - shard.rawBytes))
      rw [if_pos (List.mem_map_of_mem (f := Prod.fst) (Dict.mem_of_lookup htenant))] at hkeys
      simp only [List.length_map] at hkeys
      exact hkeys.le
    · exact List.length_filter_le _ _

/-! ## Evictions -/

/-- A cache after evictions: of every tenant the shards used last are left. -/
structure Trimmed (c c' : ShardCache ρ) : Prop where
  accounted : Accounted c'
  sublist : c'.entries.Sublist c.entries
  ends : Dict.EndsOf ShardKey.tenantId c'.entries c.entries
  tenants : c'.tenantBytes.length ≤ c.tenantBytes.length

theorem Trimmed.refl (h : Accounted c) : Trimmed c c := ⟨h, List.Sublist.refl _, Dict.EndsOf.refl _, le_rfl⟩

theorem Trimmed.trans {c'' : ShardCache ρ} (h : Trimmed c c') (h' : Trimmed c' c'') : Trimmed c c'' :=
  ⟨h'.accounted, h'.sublist.trans h.sublist, h'.ends.trans h.ends, h'.tenants.trans h.tenants⟩

theorem Trimmed.heldBy_le (h : Trimmed c c') (tenant : String) : c'.heldBy tenant ≤ c.heldBy tenant :=
  Dict.total_le_of_sublist size (h.sublist.filter _)

/-- The entry put in last is still the last one. -/
def Newest (key : ShardKey) (shard : Shard ρ) (c : ShardCache ρ) : Prop :=
  ∃ older, c.entries = older ++ [(key, shard)]

theorem Newest.without {k : ShardKey} (h : Newest key shard c) (hne : key ≠ k) (hentries : c'.entries = c.entries.without k) :
    Newest key shard c' := by
  obtain ⟨older, holder⟩ := h
  refine ⟨Dict.without k older, ?_⟩
  rw [hentries, holder, Dict.without, List.filter_append, List.filter_cons_of_pos (by simpa using hne)]
  rfl

section While

variable (tooMuch : ShardCache ρ → Bool) (asked : ShardKey → Bool)

/-- Where a turn always finds an older entry, the `while` ends, and its condition with it. -/
theorem evictWhile_spec
    (hfind : ∀ c, Accounted c → Newest key shard c → tooMuch c = true → ∃ k s, c.entries.find? (asked ·.1) = some (k, s) ∧
      key ≠ k ∧ Dict.EndsOf ShardKey.tenantId (c.entries.without k) c.entries)
    (h : Accounted c) (hnewest : Newest key shard c) :
    ∃ c', c.evictWhile tooMuch asked = .ok c' ∧ Trimmed c c' ∧ Newest key shard c' ∧ tooMuch c' = false := by
  have hturn : ∀ d, Trimmed c d ∧ Newest key shard d → tooMuch d = true →
      ∃ d', evictTurn tooMuch asked d = .inl d' ∧ (Trimmed c d' ∧ Newest key shard d') ∧
        d'.entries.length < d.entries.length := by
    rintro d ⟨htrim, hnew⟩ hover
    obtain ⟨k, s, hk, hne, hends⟩ := hfind d htrim.accounted hnew hover
    have hlookup := Dict.lookup_of_mem htrim.accounted.nodup (List.mem_of_find?_eq_some hk)
    obtain ⟨d', hd', hbooks, hentries, hlen⟩ := htrim.accounted.evict hlookup
    refine ⟨d', ?_, ⟨htrim.trans ⟨hbooks, ?_, ?_, hlen⟩, hnew.without hne hentries⟩, ?_⟩
    · simp only [evictTurn, hover, hk, hd', if_true]
    · rw [hentries]
      exact List.filter_sublist
    · rw [hentries]
      exact hends
    · have hperm := (Dict.perm_without htrim.accounted.nodup hlookup).length_eq
      rw [List.length_cons] at hperm
      rw [hentries]
      omega
  have hstop : ∀ d, tooMuch d = false → evictTurn tooMuch asked d = .inr (.ok d) := by
    intro d hover
    simp [evictTurn, hover]
  have hkeep : ∀ d d', (Trimmed c d ∧ Newest key shard d) → evictTurn tooMuch asked d = .inl d' →
      (Trimmed c d' ∧ Newest key shard d') ∧ d'.entries.length < d.entries.length := by
    intro d d' hd hstep
    cases hover : tooMuch d with
    | false =>
      rw [hstop d hover] at hstep
      cases hstep
    | true =>
      obtain ⟨d'', hd'', hgood⟩ := hturn d hd hover
      rw [hstep] at hd''
      obtain rfl := Sum.inl.inj hd''
      exact hgood
  obtain ⟨r, hr⟩ := loop_returns (fun d : ShardCache ρ => d.entries.length) hkeep ⟨Trimmed.refl h, hnewest⟩
  have hresult : ∃ c', r = .ok c' ∧ Trimmed c c' ∧ Newest key shard c' ∧ tooMuch c' = false := by
    refine loop_invariant (I := fun d => Trimmed c d ∧ Newest key shard d)
      (Q := fun r => ∃ c', r = .ok c' ∧ Trimmed c c' ∧ Newest key shard c' ∧ tooMuch c' = false)
      (fun d d' hd hstep => (hkeep d d' hd hstep).1) ?_ ⟨Trimmed.refl h, hnewest⟩ hr
    intro d r hd hstep
    cases hover : tooMuch d with
    | false =>
      rw [hstop d hover] at hstep
      exact ⟨d, (Sum.inr.inj hstep).symm, hd.1, hd.2, hover⟩
    | true =>
      obtain ⟨d', hd', -⟩ := hturn d hd hover
      rw [hd'] at hstep
      cases hstep
  obtain ⟨c', rfl, hgood⟩ := hresult
  refine ⟨c', ?_, hgood⟩
  rw [evictWhile, hr, Option.getD_some]

end While

/-- A tenant over its share has an older entry than the one put in last. -/
theorem find_overShare (hsize : shard.rawBytes ≤ share bound) (h : Accounted c) (hnewest : Newest key shard c)
    (hover : overShare bound tenant c = true) :
    ∃ k s, c.entries.find? (fun entry => decide (entry.1.tenantId = tenant)) = some (k, s) ∧ key ≠ k ∧
      Dict.EndsOf ShardKey.tenantId (c.entries.without k) c.entries := by
  obtain ⟨older, holder⟩ := hnewest
  simp only [overShare, getD_tenantBytes h, Bool.and_eq_true, decide_eq_true_eq] at hover
  have hheld : share bound < c.heldBy tenant := by omega
  cases hfind : older.find? (fun entry => decide (entry.1.tenantId = tenant)) with
  | none =>
    -- the tenant has no older entry, so it holds the new one at most
    have hnone : older.filter (fun entry => decide (entry.1.tenantId = tenant)) = [] :=
      List.filter_eq_nil_iff.mpr (List.find?_eq_none.mp hfind)
    rw [heldBy, holder, Dict.total_ofClass_append, Dict.ofClass, hnone] at hheld
    simp only [Dict.total, size, List.map_nil, List.sum_nil, Nat.zero_add] at hheld
    split at hheld <;> omega
  | some entry =>
    obtain ⟨k, s⟩ := entry
    have hfound : c.entries.find? (fun entry => decide (entry.1.tenantId = tenant)) = some (k, s) := by
      rw [holder, List.find?_append, hfind]
      rfl
    refine ⟨k, s, hfound, ?_, Dict.endsOf_without h.nodup hfound⟩
    rintro rfl
    have hnodup := h.nodup
    rw [holder, List.map_append, List.map_singleton, List.nodup_append] at hnodup
    have hold : key ∈ older.map Prod.fst := List.mem_map_of_mem (List.mem_of_find?_eq_some hfind)
    exact hnodup.2.2 key hold key (List.mem_singleton_self _) rfl

theorem find_overBound (h : Accounted c) (hnewest : Newest key shard c) (hover : overBound bound c = true) :
    ∃ k s, c.entries.find? (fun _ => true) = some (k, s) ∧ key ≠ k ∧
      Dict.EndsOf ShardKey.tenantId (c.entries.without k) c.entries := by
  obtain ⟨older, holder⟩ := hnewest
  have hlen : 1 < c.entries.length := by
    simp only [overBound, Bool.and_eq_true, decide_eq_true_eq] at hover
    exact hover.2
  cases older with
  | nil => simp [holder] at hlen
  | cons entry older =>
    obtain ⟨k, s⟩ := entry
    have hfirst : c.entries.find? (fun entry => decide (entry.1.tenantId = k.tenantId)) = some (k, s) := by
      rw [holder]
      simp
    refine ⟨k, s, ?_, ?_, Dict.endsOf_without h.nodup hfirst⟩
    · rw [holder]
      rfl
    · rintro rfl
      have hnodup := h.nodup
      rw [holder] at hnodup
      simp at hnodup

/-! ## Fairness -/

/-- While two tenants are resident, each holds at most its share. -/
def Fair (bound : Nat) (c : ShardCache ρ) : Prop :=
  ∀ entry ∈ c.entries, ∀ entry' ∈ c.entries, entry.1.tenantId ≠ entry'.1.tenantId →
    c.heldBy entry.1.tenantId ≤ share bound

/-- What holds of the cache between two calls. -/
structure Kept (bound : Nat) (c : ShardCache ρ) : Prop extends Accounted c where
  small : ∀ entry ∈ c.entries, entry.2.rawBytes ≤ share bound
  within : c.bytes ≤ bound
  fair : Fair bound c

theorem kept_empty : Kept bound (empty : ShardCache ρ) where
  toAccounted := accounted_empty
  small := nofun
  within := Int.natCast_nonneg bound
  fair := nofun

theorem resident_of_mem (h : Accounted c) (hmem : (key, shard) ∈ c.entries) :
    key.tenantId ∈ c.tenantBytes.map Prod.fst := by
  have hbooks := h.tenant_eq key.tenantId
  rw [if_neg (heldBy_pos h hmem).ne'] at hbooks
  exact List.mem_map_of_mem (Dict.mem_of_lookup hbooks)

/-- Two tenants with entries are two tenants on the books. -/
theorem two_residents (h : Accounted c) {key' : ShardKey} {shard' : Shard ρ} (hmem : (key, shard) ∈ c.entries)
    (hmem' : (key', shard') ∈ c.entries) (hne : key.tenantId ≠ key'.tenantId) : 1 < c.tenantBytes.length := by
  have hsub : [key.tenantId, key'.tenantId].Subperm (c.tenantBytes.map Prod.fst) := by
    refine List.subperm_of_subset (by simpa using hne) ?_
    simp only [List.cons_subset, List.nil_subset, and_true]
    exact ⟨resident_of_mem h hmem, resident_of_mem h hmem'⟩
  have hlen := hsub.length_le
  rw [List.length_map] at hlen
  exact hlen

theorem Kept.get (h : Kept bound c) (key : ShardKey) : Kept bound (c.get key).2 := by
  have hbooks := h.toAccounted.get key
  unfold ShardCache.get at hbooks ⊢
  split at hbooks
  · exact h
  · have hperm := Dict.perm_touch h.nodup key
    have hheld : ∀ tenant, heldBy tenant { c with entries := c.entries.touch key } = c.heldBy tenant :=
      fun tenant => Dict.total_perm size (hperm.filter _)
    constructor
    · exact hbooks
    · exact fun entry hentry => h.small entry (hperm.mem_iff.mp hentry)
    · exact h.within
    · intro entry hentry entry' hentry' hne
      rw [hheld]
      exact h.fair entry (hperm.mem_iff.mp hentry) entry' (hperm.mem_iff.mp hentry') hne

/-- One tenant after the other gives up what it is over its share. -/
theorem overShares_spec (hsize : shard.rawBytes ≤ share bound) (tenants : List String) (h : Accounted c)
    (hnewest : Newest key shard c) :
    ∃ c', tenants.foldlM (fun c tenant => c.evictWhile (overShare bound tenant) (·.tenantId = tenant)) c = .ok c' ∧
      Trimmed c c' ∧ Newest key shard c' ∧
      ∀ tenant ∈ tenants, 1 < c'.tenantBytes.length → c'.heldBy tenant ≤ share bound := by
  induction tenants generalizing c with
  | nil => exact ⟨c, rfl, Trimmed.refl h, hnewest, nofun⟩
  | cons tenant tenants ih =>
    obtain ⟨d, hd, htrim, hnew, hover⟩ :=
      evictWhile_spec (overShare bound tenant) (fun k => decide (k.tenantId = tenant))
        (fun c hc hn => find_overShare hsize hc hn) h hnewest
    obtain ⟨c', hc', htrim', hnew', hshares⟩ := ih htrim.accounted hnew
    refine ⟨c', ?_, htrim.trans htrim', hnew', ?_⟩
    · rw [List.foldlM_cons, hd]
      exact hc'
    · intro t ht hmany
      obtain rfl | ht := List.mem_cons.mp ht
      · have hle := htrim'.heldBy_le t
        have hlen := htrim'.tenants
        simp only [overShare, getD_tenantBytes htrim.accounted, Bool.and_eq_false_iff, decide_eq_false_iff_not] at hover
        omega
      · exact hshares t ht hmany

/-- A shard no tenant may hold is answered from and never kept. -/
theorem put_big (h : share bound < shard.rawBytes) : c.put bound key shard = .ok c := if_pos (.inl h)

/-- A new shard goes in last; what has to go for it is the oldest of its tenant, and the cache stays fair. -/
theorem put_spec (h : Kept bound c) (hpos : 0 < shard.rawBytes) (hsize : shard.rawBytes ≤ share bound)
    (hnew : key ∉ c.entries.map Prod.fst) :
    ∃ c', c.put bound key shard = .ok c' ∧ Kept bound c' ∧ Trimmed (c.added key shard) c' ∧ Newest key shard c' := by
  have hadded := h.toAccounted.added hnew hpos
  obtain ⟨d, hd, htrim, hdnew, hshares⟩ :=
    overShares_spec hsize ((c.added key shard).tenantsOver bound) hadded ⟨c.entries, rfl⟩
  obtain ⟨c', hc', htrim', hnew', hover⟩ :=
    evictWhile_spec (overBound bound) (fun _ => true) (fun c hc hn => find_overBound hc hn) htrim.accounted hdnew
  have hall := htrim.trans htrim'
  have hsmall : ∀ entry ∈ c'.entries, entry.2.rawBytes ≤ share bound := by
    intro entry hentry
    obtain hold | hlast := List.mem_append.mp (hall.sublist.subset hentry)
    · exact h.small entry hold
    · rw [List.mem_singleton.mp hlast]
      exact hsize
  refine ⟨c', ?_, ⟨htrim'.accounted, hsmall, ?_, ?_⟩, hall, hnew'⟩
  · rw [put, if_neg (not_or.mpr ⟨by omega, hnew⟩)]
    dsimp only
    rw [hd]
    exact hc'
  · simp only [overBound, Bool.and_eq_false_iff, decide_eq_false_iff_not] at hover
    obtain hover | hone := hover
    · omega
    · obtain ⟨older, holder⟩ := hnew'
      have hnil : older = [] := by
        rw [holder, List.length_append, List.length_singleton] at hone
        exact List.length_eq_zero_iff.mp (by omega)
      have hbytes := htrim'.accounted.bytes_eq
      rw [holder, hnil] at hbytes
      simp only [Dict.total, size, List.nil_append, List.map_cons, List.map_nil, List.sum_cons, List.sum_nil] at hbytes
      have hhalf : share bound ≤ bound := Nat.div_le_self bound 2
      omega
  · rintro ⟨k, s⟩ hentry ⟨k', s'⟩ hentry' hne
    have hmany := two_residents htrim'.accounted hentry hentry' hne
    have hfewer := htrim'.tenants
    have hle := htrim'.heldBy_le k.tenantId
    have hle' := htrim.heldBy_le k.tenantId
    by_cases hlisted : k.tenantId ∈ (c.added key shard).tenantsOver bound
    · exact hle.trans (hshares _ hlisted (by omega))
    · -- a tenant that was within its share once the shard was in holds no more now
      have hheld : (c.added key shard).heldBy k.tenantId ≤ share bound := by
        by_contra hmore
        apply hlisted
        have hbooks := hadded.tenant_eq k.tenantId
        rw [if_neg (by omega)] at hbooks
        refine List.mem_map.mpr ⟨(k.tenantId, _), List.mem_filter.mpr ⟨Dict.mem_of_lookup hbooks, ?_⟩, rfl⟩
        simp only [decide_eq_true_eq]
        omega
      exact hle.trans (hle'.trans hheld)

/-! ## Any order of uses -/

inductive Use (ρ : Type)
  | get (key : ShardKey)
  | put (key : ShardKey) (shard : Shard ρ)

inductive Used (bound : Nat) : ShardCache ρ → Use ρ → ShardCache ρ → Prop
  | get (c : ShardCache ρ) (key : ShardKey) : Used bound c (.get key) (c.get key).2
  | put {c c' : ShardCache ρ} {key : ShardKey} {shard : Shard ρ} : 0 < shard.rawBytes → c.put bound key shard = .ok c' →
      Used bound c (.put key shard) c'

theorem Kept.put (h : Kept bound c) (hpos : 0 < shard.rawBytes) : ∃ c', c.put bound key shard = .ok c' ∧ Kept bound c' := by
  by_cases hskip : share bound < shard.rawBytes ∨ key ∈ c.entries.map Prod.fst
  · exact ⟨c, if_pos hskip, h⟩
  · obtain ⟨hsize, hnew⟩ := not_or.mp hskip
    obtain ⟨c', hc', hkept, -⟩ := put_spec h hpos (by omega) hnew
    exact ⟨c', hc', hkept⟩

theorem kept_of_run {uses : List (Use ρ)} (hrun : Run (Used bound) empty uses c) : Kept bound c := by
  refine Run.invariant ?_ kept_empty hrun
  rintro c use c' h (_ | ⟨hpos, hput⟩)
  · exact h.get _
  · obtain ⟨d, hd, hkept⟩ := h.put hpos
    rw [hput] at hd
    obtain rfl := Except.ok.inj hd
    exact hkept

/-- A shard that fits goes in beside all the others. -/
theorem put_fits (hsize : shard.rawBytes ≤ share bound) (hnew : key ∉ c.entries.map Prod.fst) (h : Accounted c)
    (hpos : 0 < shard.rawBytes) (hfits : c.bytes + shard.rawBytes ≤ bound)
    (hshare : ∀ tenant, (c.added key shard).heldBy tenant ≤ share bound) :
    c.put bound key shard = .ok (c.added key shard) := by
  have hbooks := h.added hnew hpos
  have hnone : (c.added key shard).tenantsOver bound = [] := by
    rw [tenantsOver, List.map_eq_nil_iff, List.filter_eq_nil_iff]
    rintro ⟨tenant, held⟩ hmem
    have hheld := hbooks.tenant_eq tenant
    rw [Dict.lookup_of_mem hbooks.tenants_nodup hmem] at hheld
    split at hheld
    · cases hheld
    · have hle := hshare tenant
      obtain rfl := Option.some.inj hheld
      simp only [decide_eq_true_eq]
      omega
  have hbound : overBound bound (c.added key shard) = false := by
    have hle : ¬(bound : Int) < (c.added key shard).bytes := by
      simp only [added]
      omega
    simp [overBound, hle]
  rw [put, if_neg (not_or.mpr ⟨by omega, hnew⟩)]
  dsimp only
  rw [hnone]
  change evictWhile (overBound bound) (fun _ => true) (c.added key shard) = _
  rw [evictWhile, loop_inr (r := .ok (c.added key shard)) (by simp [evictTurn, hbound]), Option.getD_some]

/-- After any uses of the cache a put leaves it within its bound and fair; the new shard is in, and what
went for it is the oldest of its tenant, or nothing where there was room. -/
theorem put_after_run {uses : List (Use ρ)} (hrun : Run (Used bound) empty uses c) (hpos : 0 < shard.rawBytes) :
    ∃ c', c.put bound key shard = .ok c' ∧ Kept bound c' ∧
      (share bound < shard.rawBytes ∨ key ∈ c.entries.map Prod.fst → c' = c) ∧
      (shard.rawBytes ≤ share bound → key ∉ c.entries.map Prod.fst →
        Newest key shard c' ∧ Dict.EndsOf ShardKey.tenantId c'.entries (c.entries ++ [(key, shard)]) ∧
        (c.bytes + shard.rawBytes ≤ bound → (∀ tenant, (c.added key shard).heldBy tenant ≤ share bound) →
          c'.entries = c.entries ++ [(key, shard)])) := by
  have h := kept_of_run hrun
  by_cases hskip : share bound < shard.rawBytes ∨ key ∈ c.entries.map Prod.fst
  · refine ⟨c, if_pos hskip, h, fun _ => rfl, fun hsize hnew => ?_⟩
    obtain hbig | hold := hskip
    · omega
    · exact absurd hold hnew
  · obtain ⟨hsize, hnew⟩ := not_or.mp hskip
    obtain ⟨c', hput, hkept, htrim, hnewest⟩ := put_spec h hpos (by omega) hnew
    refine ⟨c', hput, hkept, fun hcase => absurd hcase hskip, fun _ _ => ⟨hnewest, htrim.ends, fun hfits hshare => ?_⟩⟩
    rw [put_fits (by omega) hnew h.toAccounted hpos hfits hshare] at hput
    rw [← Except.ok.inj hput]
    rfl

theorem put_after_run_two :
    ∃ c', (added ⟨"t", "a"⟩ ⟨[1], 2⟩ (empty : ShardCache Nat)).put 4 ⟨"t", "b"⟩ ⟨[2], 1⟩ = .ok c' ∧ Kept 4 c' := by
  have hfirst : Run (Used 4) (empty : ShardCache Nat) [.put ⟨"t", "a"⟩ ⟨[1], 2⟩] (added ⟨"t", "a"⟩ ⟨[1], 2⟩ empty) :=
    .one (.put (by decide) rfl)
  obtain ⟨c', hput, hkept, -⟩ :=
    put_after_run hfirst (show 0 < (⟨[2], 1⟩ : Shard Nat).rawBytes from by decide)
  exact ⟨c', hput, hkept⟩

end ShardCache

end SwarmCloud.GraphService
