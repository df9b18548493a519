import Mathlib.Data.List.Nodup
import Mathlib.Algebra.Order.Group.Int

/-! # Slot pools and lease units

The pool half of `swarm_common/models.py`: what a pool admits, which pools a
task needs, and how many units a lease takes and gives back in each of them.
Instants are whole microseconds.
-/

namespace SwarmCloud.Common

abbrev Instant := Int

def seconds (n : Int) : Instant := n * 1000000

theorem seconds_pos {n : Int} (h : 0 < n) : 0 < seconds n := Int.mul_pos h (by decide)

structure SlotPool where
  name : String
  hardLimit : Option Int
  adaptiveTarget : Option Int := none
  quotaDerivedLimit : Option Int := none
  active : Int := 0
  enabled : Bool := true
deriving DecidableEq, Repr

namespace SlotPool

def effectiveLimit (p : SlotPool) : Option Int :=
  p.hardLimit.map fun hard =>
    max 0 ((p.adaptiveTarget.toList ++ p.quotaDerivedLimit.toList).foldl min hard)

def hasCapacity (p : SlotPool) (units : Int) : Bool :=
  p.enabled && match p.effectiveLimit with
    | none => false
    | some limit => decide (p.active + units ≤ limit)

theorem hasCapacity_iff (p : SlotPool) (units : Int) :
    p.hasCapacity units = true ↔
      p.enabled = true ∧ ∃ limit, p.effectiveLimit = some limit ∧ p.active + units ≤ limit := by
  unfold hasCapacity
  cases h : p.effectiveLimit <;> simp

end SlotPool

def poolNamesFor (tenantId : String) (provider : Option String)
    (resourceClass runnerProfile backend : String) : List String :=
  ["global", "tenant:" ++ tenantId, "resource:" ++ resourceClass,
      "runner:" ++ runnerProfile, "backend:" ++ backend] ++
    match provider with
    | none => []
    | some p =>
      if p = "" then []
      else ["provider:" ++ p, "provider:" ++ p ++ ":tenant:" ++ tenantId]

def providerPoolUnits : Int := 1

/-- The prefix test `pool.startswith("provider:")`. -/
def isProviderPool (pool : String) : Bool := "provider:".toList.isPrefixOf pool.toList

def poolUnitsFor (pool : String) (units : Int) : Int :=
  if isProviderPool pool then providerPoolUnits else units

/-- A dictionary of integers is its list of items; `dictGet` is `d.get(key, default)`. -/
abbrev IntDict := List (String × Int)

def dictGet (d : IntDict) (key : String) (default : Int) : Int := (d.lookup key).getD default

def reservedPoolUnits (pools : List String) (units : Int) : IntDict :=
  pools.map fun name => (name, poolUnitsFor name units)

def heldPoolUnits (pools : List String) (units : Int) (poolUnits : Option IntDict) : IntDict :=
  match poolUnits with
  | none => pools.map fun name => (name, units)
  | some recorded => pools.map fun name => (name, dictGet recorded name units)

theorem lookup_map_of_mem {pools : List String} {name : String} (f : String → Int)
    (h : name ∈ pools) : (pools.map fun n => (n, f n)).lookup name = some (f name) := by
  induction pools with
  | nil => cases h
  | cons p pools ih =>
    by_cases hp : name = p
    · simp [hp]
    · have htail : name ∈ pools := by simpa [hp] using h
      have hbeq : (name == p) = false := beq_false_of_ne hp
      simp [List.lookup_cons, hbeq, ih htail]

theorem reservedPoolUnits_get {pools : List String} {name : String} (units : Int)
    (h : name ∈ pools) :
    dictGet (reservedPoolUnits pools units) name 0 = poolUnitsFor name units := by
  simp [dictGet, reservedPoolUnits, lookup_map_of_mem (fun n => poolUnitsFor n units) h]

/-- A lease that recorded what it reserved gives back exactly that. -/
theorem heldPoolUnits_reserved {pools : List String} {name : String} (units : Int)
    (h : name ∈ pools) :
    dictGet (heldPoolUnits pools units (some (reservedPoolUnits pools units))) name 0 =
      poolUnitsFor name units := by
  unfold heldPoolUnits
  have hget := lookup_map_of_mem
    (fun n => dictGet (reservedPoolUnits pools units) n units) h
  rw [dictGet, hget]
  simp [dictGet, reservedPoolUnits, lookup_map_of_mem (fun n => poolUnitsFor n units) h]

theorem poolUnitsFor_nonneg (pool : String) {units : Int} (h : 0 ≤ units) :
    0 ≤ poolUnitsFor pool units := by
  unfold poolUnitsFor providerPoolUnits
  split <;> omega

/-- Admission names no pool twice, so one write a pool loses no reservation. -/
theorem poolNamesFor_nodup (tenantId : String) (provider : Option String)
    (resourceClass runnerProfile backend : String) :
    (poolNamesFor tenantId provider resourceClass runnerProfile backend).Nodup := by
  unfold poolNamesFor
  cases provider with
  | none => simp [← String.toList_inj]
  | some p =>
    by_cases hp : p = ""
    · simp [hp, ← String.toList_inj]
    · simp [hp, ← String.toList_inj]

end SwarmCloud.Common
