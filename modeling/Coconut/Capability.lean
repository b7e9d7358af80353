import Coconut.State

/-!
# Capabilities

The capability table of a shard is an array of slots; a handle is an index into it.
`grant_to_shard` fills the first free slot, `grant_copy` does so with the intersection
of the source's rights and the requested ones, `restrict` intersects in place and
`revoke` clears.
-/
namespace Coconut

/-- `SHARDS[id].caps`. -/
def Shards.caps (shards : Shards) (id : Nat) : Table maxCapsPerShard CapEntry :=
  (shards.getD id ShardDescriptor.initial).caps

/-- `SHARDS[id].caps[handle]`. -/
def Shards.cap (shards : Shards) (id handle : Nat) : CapEntry :=
  (shards.caps id).getD handle CapEntry.empty

/-- `SHARDS[id].caps[handle] = f SHARDS[id].caps[handle]`. -/
def Shards.modifyCap (shards : Shards) (id handle : Nat) (f : CapEntry → CapEntry) : Shards :=
  shards.modify id fun d => { d with caps := d.caps.modify handle f }

/-- Insert a capability into the first free slot of a shard's table. -/
def grantToShard (shards : Shards) (shardId capType resourceId : Nat) (rights : BitVec 16) :
    Kernel (Shards × Option Nat) := do
  assertThat (shardId < maxShards) .grantShardOutOfRange
  match firstFrom (fun i => !(shards.cap shardId i).valid) maxCapsPerShard 0 with
  | some i =>
    return (shards.modifyCap shardId i fun _ => ⟨true, capType, resourceId, rights⟩, some i)
  | none => return (shards, none)

/-- The entry gives the required rights on the resource. -/
def CapEntry.gives (cap : CapEntry) (capType resourceId : Nat) (requiredRights : BitVec 16) : Bool :=
  cap.valid && cap.capType == capType && cap.resourceId == resourceId &&
    (cap.rights &&& requiredRights) == requiredRights

/-- Some entry of the table gives the required rights on the resource. -/
def capsGive (caps : Table maxCapsPerShard CapEntry) (capType resourceId : Nat)
    (requiredRights : BitVec 16) : Bool :=
  (firstFrom (fun i => (caps.getD i CapEntry.empty).gives capType resourceId requiredRights)
    maxCapsPerShard 0).isSome

/-- Whether a shard holds a capability matching the given type, resource and rights. -/
def check (shards : Shards) (shardId capType resourceId : Nat) (requiredRights : BitVec 16) : Bool :=
  if maxShards ≤ shardId then false
  else capsGive (shards.caps shardId) capType resourceId requiredRights

/-- Revoke a capability by handle. -/
def revoke (shards : Shards) (shardId handle : Nat) : Shards × Nat :=
  if maxShards ≤ shardId ∨ maxCapsPerShard ≤ handle then (shards, u64Max)
  else if !(shards.cap shardId handle).valid then (shards, u64Max)
  else (shards.modifyCap shardId handle fun _ => CapEntry.empty, 0)

/-- Restrict the rights of a capability. -/
def restrict (shards : Shards) (shardId handle : Nat) (newRights : BitVec 16) : Shards × Nat :=
  if maxShards ≤ shardId ∨ maxCapsPerShard ≤ handle then (shards, u64Max)
  else if !(shards.cap shardId handle).valid then (shards, u64Max)
  else (shards.modifyCap shardId handle fun c => { c with rights := c.rights &&& newRights }, 0)

/-- The states in which a shard may be granted a capability. -/
def ShardState.isLive : ShardState → Bool
  | .ready | .running | .blocked => true
  | .free | .exited | .destroyed => false

/-- Copy a capability from one shard to another, with restricted rights. -/
def grantCopy (shards : Shards) (srcShard srcHandle targetShard : Nat) (newRights : BitVec 16) :
    Kernel (Shards × Nat) := do
  if maxShards ≤ srcShard ∨ maxShards ≤ targetShard ∨ maxCapsPerShard ≤ srcHandle then
    return (shards, u64Max)
  if !(shards.getD targetShard ShardDescriptor.initial).state.isLive then return (shards, u64Max)
  let srcCap := shards.cap srcShard srcHandle
  if !srcCap.valid then return (shards, u64Max)
  if srcCap.capType == capChannel && (srcCap.rights &&& rightChannelGrant) == 0#16 then
    return (shards, u64Max)
  let effectiveRights := srcCap.rights &&& newRights
  match ← grantToShard shards targetShard srcCap.capType srcCap.resourceId effectiveRights with
  | (shards, some handle) => return (shards, handle)
  | (shards, none) => return (shards, u64Max)

/-- The packed description of a capability. -/
def inspect (shards : Shards) (shardId handle : Nat) : Nat :=
  if maxShards ≤ shardId ∨ maxCapsPerShard ≤ handle then u64Max
  else
    let cap := shards.cap shardId handle
    if !cap.valid then u64Max
    else cap.capType * 2 ^ 48 ||| cap.resourceId * 2 ^ 16 ||| cap.rights.toNat

/-- Clear all capabilities of a shard. -/
def clearShard (shards : Shards) (shardId : Nat) : Shards :=
  if maxShards ≤ shardId then shards
  else shards.modify shardId fun d => { d with caps := fun _ => CapEntry.empty }

end Coconut
