import SwarmCloud.Admission.Model

/-! # The broker's write of a provider pool

`QuotaBroker._pool_write`: the cap of a quota state on the pool it feeds. A
missing pool is created with nothing in use; an existing one keeps its count.
-/

namespace SwarmCloud.Quota

open Common Lib Admission

structure PoolPatch where
  quotaDerivedLimit : Option Int
  adaptiveTarget : Option Int := none
  defaultHardLimit : Option Int := none
  hardLimit : Option Int := none
deriving DecidableEq, Repr

def PoolPatch.created (patch : PoolPatch) (defaultHardMax : Int) (now : Instant) : PoolDoc where
  hardLimit := some (patch.hardLimit.getD (patch.defaultHardLimit.getD defaultHardMax))
  adaptiveTarget := patch.adaptiveTarget
  quotaDerivedLimit := patch.quotaDerivedLimit
  active := some 0
  enabled := some true
  updatedAt := some now

def PoolPatch.patched (patch : PoolPatch) (now : Instant) (d : PoolDoc) : PoolDoc :=
  { d with
    quotaDerivedLimit := patch.quotaDerivedLimit
    adaptiveTarget := patch.adaptiveTarget.or d.adaptiveTarget
    hardLimit := patch.hardLimit.or d.hardLimit
    updatedAt := some now }

def poolWrite (pools : Docs String PoolDoc) (name : String) (patch : PoolPatch)
    (defaultHardMax : Int) (now : Instant) : Docs String PoolDoc :=
  match pools.lookup name with
  | none => pools.insert name (patch.created defaultHardMax now)
  | some _ => pools.modify name (patch.patched now)

/-- The provider pools a broker writes: the shared one and a tenant's own. -/
def providerPoolName (provider : String) : Option String → String
  | none => "provider:" ++ provider
  | some tenantId => "provider:" ++ provider ++ ":tenant:" ++ tenantId

theorem lookup_poolWrite (pools : Docs String PoolDoc) (name : String) (patch : PoolPatch)
    (defaultHardMax : Int) (now : Instant) (other : String) :
    (poolWrite pools name patch defaultHardMax now).lookup other =
      if other = name then
        some ((pools.lookup name).elim (patch.created defaultHardMax now) (patch.patched now))
      else pools.lookup other := by
  unfold poolWrite
  cases h : pools.lookup name with
  | none => rw [Docs.lookup_insert_eq, Option.elim_none]
  | some d =>
    rw [Docs.lookup_modify]
    split
    · rename_i hother
      rw [hother, h, Option.map_some, Option.elim_some]
    · rfl

end SwarmCloud.Quota
