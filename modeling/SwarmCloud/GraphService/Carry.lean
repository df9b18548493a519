import Mathlib.Data.String.Basic
import SwarmCloud.Lib.Dict
import SwarmCloud.Lib.Readings
import SwarmCloud.Lib.Sorting

/-! # Answers that a promotion leaves as they were

`swarm_graph/carry.py`. A handler reads a snapshot's manifest through a recorder,
which notes each read with a digest of what it found. A read set that resolves
the same in another snapshot is a proof that the handler would read the same
there, and so would come to the same answer.
-/

namespace SwarmCloud.GraphService

open Lib

/-- The tables of a manifest, by layer: a shard's entry, or a value that is none. -/
structure Index (ε σ : Type) where
  tables : String → Dict String (Option ε)
  termStats : σ

inductive ReadKey
  | entry (layer key : String)
  | keys (layer : String)
  | has (layer : String)
  | termStats
deriving DecidableEq

/-- The tuple of strings a read is recorded under. -/
def ReadKey.strings : ReadKey → String × String × String
  | .entry layer key => ("entry", layer, key)
  | .keys layer => ("keys", layer, "")
  | .has layer => ("has", layer, "")
  | .termStats => ("term_stats", "", "")

inductive ReadAnswer (ε σ : Type)
  | entry (found : Option ε)
  | keys (keys : List String)
  | has (any : Bool)
  | termStats (stats : σ)

/-- A JSON value that is digested. -/
inductive Value (ε σ : Type)
  | entry (entry : ε)
  | table (items : Dict String (Option ε))
  | termStats (stats : σ)

abbrev ReadSet := Dict ReadKey String

def absent : String := "-"

def readOverheadBytes : Nat := 64

def readSetBytes (reads : ReadSet) : Nat :=
  (reads.map fun read =>
    read.1.strings.1.length + read.1.strings.2.1.length + read.1.strings.2.2.length + read.2.length +
      readOverheadBytes).sum

namespace Index

variable {ε σ : Type}

def keys (x : Index ε σ) (layer : String) : List String := sortBy id ((x.tables layer).map Prod.fst)

def entry (x : Index ε σ) (layer key : String) : Option ε := ((x.tables layer).lookup key).join

/-- What a handler gets for a read. -/
def answer (x : Index ε σ) : ReadKey → ReadAnswer ε σ
  | .entry layer key => .entry (x.entry layer key)
  | .keys layer => .keys (x.keys layer)
  | .has layer => .has (!(x.tables layer).isEmpty)
  | .termStats => .termStats x.termStats

section Digest

variable (digest : Value ε σ → String)

def valueOf (x : Index ε σ) : ReadKey → String
  | .entry layer key => match x.entry layer key with
    | none => absent
    | some entry => digest (.entry entry)
  | .has layer => if (x.tables layer).isEmpty then "0" else "1"
  | .keys layer => digest (.table ((x.keys layer).map fun key => (key, x.entry layer key)))
  | .termStats => digest (.termStats x.termStats)

def unchanged (reads : ReadSet) (x : Index ε σ) : Bool := reads.all fun read => x.valueOf digest read.1 = read.2

/-- `_record`: a read is noted the first time. -/
def record (x : Index ε σ) (reads : ReadSet) (read : ReadKey) : ReadSet :=
  if read ∈ reads.map Prod.fst then reads else reads ++ [(read, x.valueOf digest read)]

def recorded (x : Index ε σ) (reads : List ReadKey) : ReadSet := reads.foldl (x.record digest) []

variable {digest : Value ε σ → String} {x x' : Index ε σ}

/-- Equal digests are equal answers, as far as digests tell values apart and none is the mark of a missing one. -/
theorem answer_eq_of_valueOf (hinj : Function.Injective digest) (habsent : ∀ v, digest v ≠ absent) {read : ReadKey}
    (h : x'.valueOf digest read = x.valueOf digest read) : x'.answer read = x.answer read := by
  cases read with
  | entry layer key =>
    simp only [valueOf] at h
    simp only [answer]
    cases hx' : x'.entry layer key with
    | none =>
      cases hx : x.entry layer key with
      | none => rfl
      | some e =>
        simp only [hx', hx] at h
        exact absurd h.symm (habsent _)
    | some e' =>
      cases hx : x.entry layer key with
      | none =>
        simp only [hx', hx] at h
        exact absurd h (habsent _)
      | some e =>
        simp only [hx', hx] at h
        have hentry := hinj h
        rw [Value.entry.injEq] at hentry
        rw [hentry]
  | keys layer =>
    have htable := hinj h
    rw [Value.table.injEq] at htable
    have hkeys := congrArg (List.map Prod.fst) htable
    simp only [List.map_map, Function.comp_def, List.map_id'] at hkeys
    exact congrArg ReadAnswer.keys hkeys
  | has layer =>
    simp only [valueOf] at h
    simp only [answer]
    cases hx' : (x'.tables layer).isEmpty <;> cases hx : (x.tables layer).isEmpty <;> simp [hx', hx] at h ⊢
  | termStats =>
    have hstats := hinj h
    rw [Value.termStats.injEq] at hstats
    exact congrArg ReadAnswer.termStats hstats

theorem mem_foldl_record (x : Index ε σ) (reads : List ReadKey) (set : ReadSet) (item : ReadKey × String)
    (h : item ∈ reads.foldl (x.record digest) set) : item ∈ set ∨ item.1 ∈ reads ∧ item.2 = x.valueOf digest item.1 := by
  induction reads generalizing set with
  | nil => exact .inl h
  | cons read reads ih =>
    obtain hset | ⟨hin, hvalue⟩ := ih _ h
    · unfold record at hset
      split at hset
      · exact .inl hset
      · obtain hold | hnew := List.mem_append.mp hset
        · exact .inl hold
        · rw [List.mem_singleton.mp hnew]
          exact .inr ⟨List.mem_cons_self, rfl⟩
    · exact .inr ⟨List.mem_cons_of_mem _ hin, hvalue⟩

theorem keys_foldl_record (x : Index ε σ) (reads : List ReadKey) (set : ReadSet) (read : ReadKey) :
    read ∈ (reads.foldl (x.record digest) set).map Prod.fst ↔ read ∈ set.map Prod.fst ∨ read ∈ reads := by
  induction reads generalizing set with
  | nil => simp
  | cons first reads ih =>
    rw [List.foldl_cons, ih, record]
    split
    · rename_i hold
      simp only [List.mem_cons]
      constructor
      · rintro (h | h)
        · exact .inl h
        · exact .inr (.inr h)
      · rintro (h | rfl | h)
        · exact .inl h
        · exact .inl hold
        · exact .inr h
    · simp [or_assoc]

/-- A read set is unchanged where every read it notes finds the same. -/
theorem unchanged_recorded (reads : List ReadKey) (x x' : Index ε σ) :
    x'.unchanged digest (x.recorded digest reads) = true ↔
      ∀ read ∈ reads, x'.valueOf digest read = x.valueOf digest read := by
  rw [unchanged, List.all_eq_true]
  constructor
  · intro h read hread
    have hin : read ∈ (x.recorded digest reads).map Prod.fst := by
      rw [recorded, keys_foldl_record]
      exact .inr hread
    obtain ⟨item, hitem, rfl⟩ := List.mem_map.mp hin
    obtain hnil | ⟨-, hvalue⟩ := mem_foldl_record x reads [] item hitem
    · cases hnil
    · rw [← hvalue]
      exact of_decide_eq_true (h item hitem)
  · intro h item hitem
    obtain hnil | ⟨hin, hvalue⟩ := mem_foldl_record x reads [] item hitem
    · cases hnil
    · rw [decide_eq_true_eq, hvalue]
      exact h _ hin

theorem recorded_congr {reads : List ReadKey} (h : ∀ read ∈ reads, x'.valueOf digest read = x.valueOf digest read) :
    x'.recorded digest reads = x.recorded digest reads := by
  refine List.foldl_ext _ _ _ fun set read hread => ?_
  rw [record, record, h read hread]

end Digest

end Index

/-! ## Carrying an answer forward -/

section Carry

variable {ε σ γ ρ : Type} {digest : Value ε σ → String} {content : String → γ} {x x' : Index ε σ}
  {handler : Reading ReadKey (ReadAnswer ε σ) String γ ρ}

/-- Where the read set of a computation resolves the same, the computation reads and answers the same. -/
theorem carry_eq (hinj : Function.Injective digest) (habsent : ∀ v, digest v ≠ absent)
    (h : x'.unchanged digest (x.recorded digest (handler.reads x.answer content)) = true) :
    handler.eval x'.answer content = handler.eval x.answer content ∧
      x'.recorded digest (handler.reads x'.answer content) = x.recorded digest (handler.reads x.answer content) := by
  rw [Index.unchanged_recorded] at h
  have hanswers : ∀ read ∈ handler.reads x.answer content, x'.answer read = x.answer read :=
    fun read hread => Index.answer_eq_of_valueOf hinj habsent (h read hread)
  constructor
  · exact Reading.eval_congr hanswers
  · rw [Reading.reads_congr hanswers]
    exact Index.recorded_congr h

end Carry

end SwarmCloud.GraphService
