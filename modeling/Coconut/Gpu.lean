import Coconut.Capability
import Coconut.Vmm

/-!
# GPU partitions: pledge, unveil and DMA

The three GPU syscalls, and the boot-time functions that set up what they read.  The
VRAM BAR is mapped in the kernel's MMIO window from `vramKernPtr` on, so that
`vramKernPtr + o` leads to byte `o` of the BAR as long as the sum stays in the window;
a sum that leaves the 64-bit range names a lower-half address instead, and is
translated by the caller's page tables.
-/
namespace Coconut
open Paging

/-- SYS_GPU_PLEDGE: restrict the allowed syscall categories. -/
def handleGpuPledge (s : Sys) (mask : Nat) : Kernel (Sys × Nat) := do
  let _ ← s.shard s.currentShard
  return (s.modifyShard s.currentShard fun d => { d with gpuPledge := d.gpuPledge &&& mask }, 0)

/-- The first partition a shard owns. -/
def ownedPartition (s : Sys) (shardId : Nat) : Option Nat :=
  firstFrom (fun i => (s.partitions.getD i GpuPartition.initial).ownerShard == shardId)
    s.partitionCount 0

/-- `PARTITIONS[i]`. -/
def Sys.partition (s : Sys) (i : Nat) : GpuPartition := s.partitions.getD i GpuPartition.initial

/-- SYS_GPU_UNVEIL: lock the VRAM range this shard may access by DMA. -/
def handleGpuUnveil (s : Sys) (offset size : Nat) : Kernel (Sys × Nat) := do
  let id := s.currentShard
  let d ← s.shard id
  if d.vramUnveilSize != 0 then return (s, u64Max)
  if size == 0 then return (s, u64Max)
  let partVramSize := ((ownedPartition s id).map fun i => (s.partition i).vramSize).getD 0
  if partVramSize == 0 then return (s, u64Max)
  if (checkedAdd offset size).all (partVramSize < ·) then return (s, u64Max)
  return (s.modifyShard id fun d => { d with vramUnveilOffset := offset, vramUnveilSize := size }, 0)

/-- Whether `[offset, offset + len)` falls within what a shard has unveiled. -/
def unveilAllows (s : Sys) (shardId offset len : Nat) : Kernel Bool := do
  let d ← s.shard shardId
  if d.vramUnveilSize == 0 then return true
  match checkedAdd offset len with
  | none => return false
  | some fin =>
    return d.vramUnveilOffset ≤ offset && fin ≤ wrappingAdd d.vramUnveilOffset d.vramUnveilSize

/-! ## DMA -/

/-- Where a pointer into the kernel's VRAM mapping leads. -/
def vramTarget (s : Sys) (m : Memory) (virt : Nat) : Option Leaf :=
  if s.vramKernPtr ≤ virt then some ⟨s.vramPhysBase + (virt - s.vramKernPtr), false, true, false⟩
  else walk m s.cr3 virt

/-- `copy_nonoverlapping` through the kernel's VRAM mapping, byte by byte. -/
def copyVram (s : Sys) : Nat → Nat → Nat → Memory → Kernel Memory
  | 0, _, _, m => .ok m
  | n + 1, src, dst, m => do
    let srcLeaf ← expect (vramTarget s m src) .kernelPageFault
    let dstLeaf ← expect (vramTarget s m dst) .kernelPageFault
    if !dstLeaf.writable then .error .kernelPageFault
    let b := m srcLeaf.phys
    copyVram s n (wrappingAdd src 1) (wrappingAdd dst 1) fun x => if x = dstLeaf.phys then b else m x

/-- SYS_GPU_DMA: copy from the caller's partition to another. -/
def handleDma (s : Sys) (targetPart srcOffset packedDstLen : Nat) : Kernel (Sys × Nat) := do
  let caller := s.currentShard
  let dstOffset := packedDstLen / 2 ^ 32
  let len := packedDstLen % 2 ^ 32
  if len == 0 then return (s, u64Max)
  if s.partitionCount ≤ targetPart then return (s, u64Max)
  match ownedPartition s caller with
  | none => return (s, u64Max)
  | some srcPartIdx =>
    if srcPartIdx == targetPart then return (s, u64Max)
    if !check s.shards caller capGpuDma (targetPart % 2 ^ 32) rightGpuDmaWrite then
      return (s, u64Max)
    let srcPart ← s.partitions.index .indexOutOfBounds srcPartIdx
    let dstPart ← s.partitions.index .indexOutOfBounds targetPart
    if (checkedAdd srcOffset len).all (srcPart.vramSize < ·) then return (s, u64Max)
    if (checkedAdd dstOffset len).all (dstPart.vramSize < ·) then return (s, u64Max)
    if !(← unveilAllows s caller srcOffset len) then return (s, u64Max)
    if dstPart.ownerShard != u64Max then
      if !(← unveilAllows s dstPart.ownerShard dstOffset len) then return (s, u64Max)
    if s.vramKernPtr == 0 then return (s, u64Max)
    let srcAbs := wrappingAdd srcPart.vramOffset srcOffset
    let dstAbs := wrappingAdd dstPart.vramOffset dstOffset
    let m ← copyVram s len (wrappingAdd s.vramKernPtr srcAbs) (wrappingAdd s.vramKernPtr dstAbs)
      s.ram.mem
    return (s.setMem m, 0)

/-! ## Boot -/

@[simp] def totalVirtualCus : Nat := 8

/-- Split VRAM evenly. -/
def createPartitions (s : Sys) (vramSize : Nat) : Sys :=
  let perPart := vramSize / maxGpuPartitions
  { s with
    partitions := fun i => ⟨i * perPart, perPart, totalVirtualCus / maxGpuPartitions, i, u64Max⟩
    partitionCount := maxGpuPartitions }

end Coconut
