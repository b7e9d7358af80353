import Coconut.Frame
import Coconut.Scan

/-!
# The supervisor's state

The static tables of the supervisor, gathered in one record: the shard descriptors
with their capability tables, the channels, the open-file table, the GPU
partitions, and the scheduler's two cursors.  Constant data of the source keeps its
name (`MAX_SHARDS` is `maxShards`); an array is a `Table`, and an index out of its
range is the panic the source would raise.

`saved_kernel_rsp` points into a kernel stack whose frames say where the shard will
continue; `SavedContext` is that place.
-/
namespace Coconut

@[simp] def maxShards : Nat := 8
@[simp] def maxCapsPerShard : Nat := 16
@[simp] def maxShardFrames : Nat := 256
@[simp] def maxChannels : Nat := 4
@[simp] def maxMsgSize : Nat := 256
@[simp] def maxOpenFiles : Nat := 16
@[simp] def maxGpuPartitions : Nat := 2

@[simp] def shardCodeVaddr : Nat := 0x1000
@[simp] def shardStackVaddr : Nat := 0x7FF000

/-! ## Shards -/

structure CapEntry where
  valid : Bool
  capType : Nat
  resourceId : Nat
  rights : BitVec 16
  deriving DecidableEq, Repr

/-- A cleared slot. -/
def CapEntry.empty : CapEntry := ⟨false, 0, 0, 0#16⟩

inductive ShardState where
  | free | ready | running | blocked | exited | destroyed
  deriving DecidableEq, Repr

inductive Priority where
  | critical | high | normal | low
  deriving DecidableEq, Repr

/-- Where `context_switch` will return to in a suspended shard. -/
inductive SavedContext where
  /-- `shard_first_entry`: the shard has not run yet. -/
  | firstEntry
  /-- In `timer_preempt`, on the way back to user mode. -/
  | timerPreempt
  /-- In `handle_sys_yield`. -/
  | sysYield
  /-- In `channel::recv`, after its yield. -/
  | channelRecv (channelId : Nat) (myEp : Fin 2) (buf maxLen : Nat)
  deriving DecidableEq, Repr

structure ShardDescriptor where
  state : ShardState
  priority : Priority
  pml4Phys : Nat
  /-- The first `frame_count` entries of `allocated_frames`. -/
  allocatedFrames : List Nat
  exitCode : Nat
  kernelStackPhys : Nat
  savedContext : SavedContext
  blockedOnChannel : Nat
  caps : Table maxCapsPerShard CapEntry
  gpuPledge : Nat
  vramUnveilOffset : Nat
  vramUnveilSize : Nat
  imageEnd : Nat
  imageDataStart : Nat
  imageDataEnd : Nat
  dataStart : Nat
  dataEnd : Nat

/-- The initial value of every slot of `SHARDS`. -/
def ShardDescriptor.initial : ShardDescriptor where
  state := .free
  priority := .normal
  pml4Phys := 0
  allocatedFrames := []
  exitCode := 0
  kernelStackPhys := 0
  savedContext := .firstEntry
  blockedOnChannel := u64Max
  caps := fun _ => CapEntry.empty
  gpuPledge := u64Max
  vramUnveilOffset := 0
  vramUnveilSize := 0
  imageEnd := shardCodeVaddr
  imageDataStart := 0
  imageDataEnd := 0
  dataStart := 0
  dataEnd := 0

/-- `SHARDS`. -/
abbrev Shards := Table maxShards ShardDescriptor

/-! ## Channels, files, partitions -/

/-- The endpoints of a channel, `0` and `1`. -/
def ep0 : Fin 2 := 0

@[inherit_doc ep0] def ep1 : Fin 2 := 1

/-- `1 - ep`. -/
def peerEp (ep : Fin 2) : Fin 2 := 1 - ep

theorem peerEp_ne (ep : Fin 2) : peerEp ep ≠ ep := by
  revert ep
  decide

theorem peerEp_eq {ep ep' : Fin 2} (h : ep' ≠ ep) : peerEp ep = ep' := by
  revert ep ep'
  decide

structure Channel where
  active : Bool
  /-- Shard ids of endpoints 0 and 1. -/
  shard : Fin 2 → Nat
  buffer : Memory
  /-- Length of the pending message (0 = empty). -/
  msgLen : Nat
  /-- Which endpoint the pending message is for. -/
  msgFor : Fin 2

def Channel.initial : Channel := ⟨false, fun _ => u64Max, fun _ => 0, 0, ep0⟩

structure OpenFile where
  active : Bool
  shardId : Nat
  inodeNr : Nat
  size : Nat
  offset : Nat
  deriving DecidableEq, Repr

def OpenFile.closed : OpenFile := ⟨false, 0, 0, 0, 0⟩

structure GpuPartition where
  vramOffset : Nat
  vramSize : Nat
  cuCount : Nat
  id : Nat
  ownerShard : Nat
  deriving DecidableEq, Repr

def GpuPartition.initial : GpuPartition := ⟨0, 0, 0, 0, u64Max⟩

/-! ## Byte slices -/

/-- A static byte slice: an embedded ELF or file-system image. -/
structure Slice where
  bytes : Memory
  len : Nat

namespace Slice

/-- A little-endian word of `k` bytes at `off`; every byte is indexed. -/
def readLE (d : Slice) (off k : Nat) : Kernel Nat :=
  if off + k ≤ d.len then .ok (d.bytes.readLE off k) else .error .indexOutOfBounds

/-- `&data[off..off + n]`. -/
def range (d : Slice) (off n : Nat) : Kernel (List UInt8) :=
  if off + n ≤ d.len then .ok (d.bytes.readBytes off n) else .error .indexOutOfBounds

theorem length_range {d : Slice} {off n : Nat} {bs : List UInt8} (h : d.range off n = .ok bs) :
    bs.length = n := by
  unfold range at h
  split at h
  · rw [← Except.ok.inj h, Memory.length_readBytes]
  · cases h

end Slice

/-- The parsed superblock (`FS`). -/
structure Ext2Fs where
  data : Slice
  blockSize : Nat
  inodesPerGroup : Nat
  inodeSize : Nat
  inodeTableBlock : Nat

/-! ## The whole -/

/-- What the processor is doing: choosing the next shard in `run_loop`, running the
current shard in user mode, or halted after the last shard. -/
inductive Mode where
  | choosing | user | halted
  deriving DecidableEq, Repr

structure Sys where
  ram : Ram
  supervisorPml4 : Nat
  shards : Shards
  currentShard : Nat
  lastScheduled : Nat
  channels : Table maxChannels Channel
  openFiles : Table maxOpenFiles OpenFile
  fs : Ext2Fs
  partitions : Table maxGpuPartitions GpuPartition
  partitionCount : Nat
  vramKernPtr : Nat
  vramPhysBase : Nat
  vramTotalSize : Nat
  mmioNext : Nat
  mode : Mode

namespace Sys

/-- `SHARDS[id]`, read. -/
def shard (s : Sys) (id : Nat) : Kernel ShardDescriptor := s.shards.index .indexOutOfBounds id

/-- `SHARDS[id]`, written; the index has been checked by the read before it. -/
def modifyShard (s : Sys) (id : Nat) (f : ShardDescriptor → ShardDescriptor) : Sys :=
  { s with shards := s.shards.modify id f }

/-- The page tables loaded while the current shard's kernel code runs. -/
def cr3 (s : Sys) : Nat := (s.shards.getD s.currentShard ShardDescriptor.initial).pml4Phys

/-- Replace physical memory. -/
def setMem (s : Sys) (m : Memory) : Sys := { s with ram := { s.ram with mem := m } }

end Sys
end Coconut
