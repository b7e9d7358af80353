import Coconut.AddressSpace
import Coconut.Channel
import Coconut.Gpu
import Coconut.Shard

/-!
# Boot

The functions `supervisor_main` and `gpu::init` call to set up shards before the
scheduler starts, and the boot sequences made of them.  A boot starts in a state in
which no shard exists (`Initial`) and performs any operations that do not panic, in any
order.  The order of the source is one such sequence.

`isRam` tells which frames are memory.  The frames the allocator manages and the
supervisor's own tables are memory; the frames behind a device BAR are not.
-/
namespace Coconut
open Paging

@[simp] def gpuConfigVaddr : Nat := 0x4000
@[simp] def pipelineConfigVaddr : Nat := 0x10000
@[simp] def maxVramMap : Nat := 32 * 1024 * 1024
@[simp] def mmioVirtBase : Nat := 0xFFFFFFFFC0000000

/-- Store words given as offset, width and value. -/
def writeFields (m : Memory) (base : Nat) (fields : List (Nat × Nat × Nat)) : Memory :=
  fields.foldl (fun m (off, width, value) => m.writeLE (base + off) width value) m

/-- What the two config pages have in common: a frame with some fields, mapped
read-only at a fixed address and tracked for cleanup. -/
def mapConfigPage (s : Sys) (shardId pml4Phys vaddr : Nat) (noFrame : Panic)
    (fields : List (Nat × Nat × Nat)) : Kernel Sys := do
  let (configPhys, r) ← expect s.ram.allocFrameZeroed noFrame
  let r := { r with mem := writeFields r.mem configPhys fields }
  let r ← map4k r pml4Phys vaddr configPhys (pteUser ||| pteNoExecute)
  let d ← s.shard shardId
  assertThat (d.allocatedFrames.length < maxShardFrames) .shardFrameTableFull
  return { s with ram := r }.modifyShard shardId fun d =>
    { d with allocatedFrames := d.allocatedFrames ++ [configPhys] }

/-- The fields of the GPU config page. -/
def gpuConfigFields (p : GpuPartition) (vramVaddr mmioVaddr : Nat) : List (Nat × Nat × Nat) :=
  [(0, 4, 0x47504346), (4, 4, p.id), (8, 8, p.vramSize), (0x10, 4, p.cuCount),
    (0x18, 8, vramVaddr), (0x20, 8, mmioVaddr)]

/-- Create a config page for a partition and map it at `GPU_CONFIG_VADDR`. -/
def createConfigPage (s : Sys) (shardId pml4Phys : Nat) (p : GpuPartition)
    (vramVaddr mmioVaddr : Nat) : Kernel Sys :=
  mapConfigPage s shardId pml4Phys gpuConfigVaddr .gpuConfigFrame
    (gpuConfigFields p vramVaddr mmioVaddr)

/-- The fields of the pipeline config page. -/
def pipelineConfigFields (stage numStages channelId layersStart layersEnd : Nat) :
    List (Nat × Nat × Nat) :=
  [(0, 4, 0x50495045), (4, 4, stage), (8, 4, numStages), (0x0C, 4, channelId),
    (0x10, 4, layersStart), (0x14, 4, layersEnd)]

/-- Create a config page for a pipeline stage and map it at `PIPELINE_CONFIG_VADDR`. -/
def createPipelineConfig (s : Sys) (shardId pml4Phys stage numStages channelId layersStart
    layersEnd : Nat) : Kernel Sys :=
  mapConfigPage s shardId pml4Phys pipelineConfigVaddr .pipelineConfigFrame
    (pipelineConfigFields stage numStages channelId layersStart layersEnd)

/-- The flags of device pages in a shard. -/
def deviceFlags : Nat :=
  pteUser ||| pteWritable ||| pteNoExecute ||| pteCacheDisable ||| pteWriteThrough

/-- The loop both BAR mappings share: `n` pages from `offset` on. -/
def mapDevicePages (pml4Phys virtBase physBase : Nat) : Nat → Nat → Ram → Kernel Ram
  | 0, _, r => .ok r
  | n + 1, offset, r => do
    let r ← map4k r pml4Phys (virtBase + offset) (physBase + offset) deviceFlags
    mapDevicePages pml4Phys virtBase physBase n (offset + 4096) r

/-- The pages of a window of `mapSize` bytes. -/
def windowPages (mapSize : Nat) : Nat := (mapSize + 4095) / 4096

/-- Map a PCI BAR region into a shard's address space. -/
def mapBarToShard (r : Ram) (pml4Phys barPhysBase barSize virtBase cap : Nat) : Kernel Ram :=
  mapDevicePages pml4Phys virtBase barPhysBase (windowPages (min barSize cap)) 0 r

/-- Map a partition's VRAM slice into a shard's address space. -/
def mapVramPartition (r : Ram) (pml4Phys vramPhysBase : Nat) (p : GpuPartition)
    (vramVaddr : Nat) : Kernel Ram :=
  mapDevicePages pml4Phys vramVaddr (vramPhysBase + p.vramOffset)
    (windowPages (min p.vramSize maxVramMap)) 0 r

/-! ## Boot sequences -/

/-- The calls that set up shards. -/
inductive BootOp where
  | create (image : Slice) (priority : Priority)
  | gpuConfigPage (shardId partition vramVaddr mmioVaddr : Nat)
  | pipelineConfig (shardId stage numStages channelId layersStart layersEnd : Nat)
  | mapBar (shardId barPhysBase barSize virtBase cap : Nat)
  | mapVram (shardId partition vramVaddr : Nat)
  | setOwner (partition shardId : Nat)
  | channelInit (channelId shardA shardB : Nat)
  | grant (shardId : Nat) (capType : UInt8) (resourceId : UInt32) (rights : BitVec 16)

/-- `SHARDS[id].pml4_phys`. -/
def Sys.pml4Of (s : Sys) (id : Nat) : Nat := (s.shards.getD id ShardDescriptor.initial).pml4Phys

/-- Perform one call. -/
def BootOp.run (s : Sys) : BootOp → Kernel Sys
  | .create image priority => (Coconut.create s image priority).map (·.1)
  | .gpuConfigPage shardId partition vramVaddr mmioVaddr =>
    createConfigPage s shardId (s.pml4Of shardId) (s.partition partition) vramVaddr mmioVaddr
  | .pipelineConfig shardId stage numStages channelId layersStart layersEnd =>
    createPipelineConfig s shardId (s.pml4Of shardId) stage numStages channelId layersStart layersEnd
  | .mapBar shardId barPhysBase barSize virtBase cap =>
    (mapBarToShard s.ram (s.pml4Of shardId) barPhysBase barSize virtBase cap).map
      fun ram => { s with ram }
  | .mapVram shardId partition vramVaddr =>
    (mapVramPartition s.ram (s.pml4Of shardId) s.vramPhysBase (s.partition partition) vramVaddr).map
      fun ram => { s with ram }
  | .setOwner partition shardId =>
    .ok { s with partitions := s.partitions.modify partition fun p => { p with ownerShard := shardId } }
  | .channelInit channelId shardA shardB =>
    (Coconut.channelInit s.channels channelId shardA shardB).map fun channels => { s with channels }
  | .grant shardId capType resourceId rights =>
    (grantToShard s.shards shardId capType.toNat resourceId.toNat rights).map
      fun r => { s with shards := r.1 }

/-- The slot holds a shard. -/
def Sys.Created (s : Sys) (id : Nat) : Prop :=
  id < maxShards ∧ (s.shards.getD id ShardDescriptor.initial).state ≠ .free

/-- A window of device pages in the lower half of an address space. -/
structure DeviceWindow (isRam : Nat → Prop) (virtBase physBase mapSize : Nat) : Prop where
  aligned : virtBase % 4096 = 0
  lower : virtBase + windowPages mapSize * 4096 ≤ 0x800000000000
  device : ∀ i, i < windowPages mapSize → ¬ isRam (physAddr (physBase + i * 4096))

/-- What the callers guarantee of the arguments: shard ids are those of created
shards, and BAR windows lie in the lower half and are not memory. -/
def BootOp.Admissible (isRam : Nat → Prop) (s : Sys) : BootOp → Prop
  | .create _ _ => True
  | .gpuConfigPage shardId _ _ _ => s.Created shardId
  | .pipelineConfig shardId _ _ _ _ _ => s.Created shardId
  | .mapBar shardId barPhysBase barSize virtBase cap =>
    s.Created shardId ∧ DeviceWindow isRam virtBase barPhysBase (min barSize cap)
  | .mapVram shardId partition vramVaddr =>
    s.Created shardId ∧ DeviceWindow isRam vramVaddr (s.vramPhysBase + (s.partition partition).vramOffset)
      (min (s.partition partition).vramSize maxVramMap)
  | .setOwner _ shardId => s.Created shardId
  | .channelInit _ shardA shardB => s.Created shardA ∧ s.Created shardB
  | .grant _ _ _ _ => True

/-- The supervisor's own page tables, with the allocator that may have made some of
them: their upper half gives no user access. -/
def KernelTables (isRam : Nat → Prop) (s : Sys) : Prop :=
  ∃ own : Owners Nat, RamOk own isRam s.ram ∧ own s.supervisorPml4 = some (.shared 4) ∧
    (∀ f o, own f = some o → ∃ k, o = .shared k) ∧
    ∀ i, 256 ≤ i → i < 512 → hasFlag (entryAt s.ram.mem s.supervisorPml4 i) pteUser = false ∧
      hasFlag (entryAt s.ram.mem s.supervisorPml4 i) ptePageSize = false

/-- The pointer `map_mmio` returns when `MMIO_NEXT` is `next`. -/
def mapMmio (next physBase : Nat) : Nat := wrappingAdd next (physBase % 4096)

/-- The GPU as `gpu::init` finds it: none, or a VRAM BAR mapped in the MMIO window and
cut into partitions. -/
def GpuReady (s : Sys) : Prop :=
  (s.partitionCount = 0 ∧ s.vramKernPtr = 0) ∨
    ∃ next physBase size, mmioVirtBase ≤ next ∧ next < 2 ^ 64 ∧ next % 4096 = 0 ∧
      physBase + size < 2 ^ 52 ∧
      s.vramKernPtr = mapMmio next physBase ∧ s.vramPhysBase = physBase ∧ s.vramTotalSize = size ∧
      s = createPartitions s size

/-- The state in which boot starts to create shards. -/
structure Initial (isRam : Nat → Prop) (s : Sys) : Prop where
  shards : s.shards = fun _ => ShardDescriptor.initial
  currentShard : s.currentShard = u64Max
  lastScheduled : s.lastScheduled = 0
  channels : s.channels = fun _ => Channel.initial
  openFiles : s.openFiles = fun _ => OpenFile.closed
  mode : s.mode = .choosing
  kernel : KernelTables isRam s
  gpu : GpuReady s
  vram : ∀ o, o < s.vramTotalSize → ¬ isRam (Memory.frameOf (s.vramPhysBase + o))
  fs : s.fs.WellFormed

/-- The states boot leads to, with the calls made. -/
inductive Booted (isRam : Nat → Prop) : List BootOp → Sys → Prop
  | initial {s : Sys} : Initial isRam s → Booted isRam [] s
  | op {ops : List BootOp} {s s' : Sys} {op : BootOp} : Booted isRam ops s →
      op.Admissible isRam s → op.run s = .ok s' → Booted isRam (ops ++ [op]) s'

end Coconut
