import Coconut.BootSpaces
import Coconut.Replay

/-!
# DMA between partitions

What a successful `SYS_GPU_DMA` does to VRAM.  The handler checks both ranges against
their partitions and against what the owners have unveiled, in numbers that do not wrap;
then it adds the kernel's address of the BAR.  `map_mmio` maps the BAR from
`MMIO_VIRT_BASE` on, where 1 GiB of address space is left, and does not check that the BAR
ends there.  So the transfer is confined exactly when neither address leaves the 64-bit
range (`Run.dma_confined_iff`); with a BAR of 2 GiB the second partition lies beyond, and
the copy lands in the lower half of the caller's own address space.
-/
namespace Coconut
open Paging

/-! ## The tables of the GPU -/

/-- The GPU as boot leaves it: partitions of equal size, and a BAR that is not memory. -/
structure Config.VramOk (isRam : Nat → Prop) (c : Config) : Prop where
  layout : ∀ i, i < c.partitionCount → i < maxGpuPartitions ∧
    (c.partitions.getD i GpuPartition.initial).vramOffset = i * (c.vramTotalSize / maxGpuPartitions) ∧
    (c.partitions.getD i GpuPartition.initial).vramSize = c.vramTotalSize / maxGpuPartitions
  kernPtr : 0 < c.partitionCount → mmioVirtBase ≤ c.vramKernPtr ∧ c.vramKernPtr < 2 ^ 64
  bar : 0 < c.partitionCount → c.vramPhysBase + c.vramTotalSize < 2 ^ 52
  device : ∀ o, o < c.vramTotalSize → ¬ isRam (Memory.frameOf (c.vramPhysBase + o))

theorem Initial.vramOk {isRam : Nat → Prop} {s : Sys} (h : Initial isRam s) :
    s.config.VramOk isRam := by
  rcases h.gpu with ⟨hcount, -⟩ | ⟨next, physBase, size, hbase, hlt, haligned, hbar, hptr, hphys, hsize, hs⟩
  · have hnone : ∀ {i}, ¬ i < s.config.partitionCount := fun {i} hi => by
      rw [show s.config.partitionCount = 0 from hcount] at hi
      cases hi
    exact ⟨fun i hi => absurd hi hnone, fun hi => absurd hi hnone, fun hi => absurd hi hnone, h.vram⟩
  · refine ⟨fun i hi => ?_, fun _ => ?_, fun _ => ?_, h.vram⟩
    · have hcount : s.partitionCount = maxGpuPartitions := congrArg Sys.partitionCount hs
      have hi' : i < maxGpuPartitions := hcount ▸ hi
      have hp : s.config.partitions.getD i GpuPartition.initial =
          ⟨i * (size / maxGpuPartitions), size / maxGpuPartitions, totalVirtualCus / maxGpuPartitions,
            i, u64Max⟩ := by
        rw [Table.getD_of_lt _ _ hi']
        exact congrFun (congrArg Sys.partitions hs) ⟨i, hi'⟩
      rw [hp]
      refine ⟨hi', ?_, ?_⟩
      · rw [show s.config.vramTotalSize = size from hsize]
      · rw [show s.config.vramTotalSize = size from hsize]
    · change mmioVirtBase ≤ s.vramKernPtr ∧ s.vramKernPtr < 2 ^ 64
      rw [hptr, mapMmio, wrappingAdd_eq (by omega)]
      omega
    · change s.vramPhysBase + s.vramTotalSize < 2 ^ 52
      omega

theorem BootOp.run_config {s s' : Sys} {call : BootOp} (h : call.run s = .ok s') :
    s'.config = s.config ∨ ∃ part shardId, call = .setOwner part shardId ∧ s'.config = { s.config with
      partitions := s.partitions.modify part fun p => { p with ownerShard := shardId } } := by
  have config : ∀ {id pml4Phys vaddr : Nat} {p : Panic} {fields : List (Nat × Nat × Nat)},
      mapConfigPage s id pml4Phys vaddr p fields = .ok s' → s'.config = s.config := by
    intro id pml4Phys vaddr p fields hc
    obtain ⟨phys, r₀, r₁, -, -, -, -, rfl⟩ := mapConfigPage_eq_ok hc
    rfl
  cases call with
  | create =>
    obtain ⟨⟨s₁, id⟩, hc, rfl⟩ := Kernel.map_eq_ok h
    obtain ⟨ok⟩ := create_eq_ok hc
    have := congrArg Sys.config ok.result
    exact Or.inl this
  | gpuConfigPage => exact Or.inl (config h)
  | pipelineConfig => exact Or.inl (config h)
  | mapBar =>
    obtain ⟨r, -, rfl⟩ := Kernel.map_eq_ok h
    exact Or.inl rfl
  | mapVram =>
    obtain ⟨r, -, rfl⟩ := Kernel.map_eq_ok h
    exact Or.inl rfl
  | setOwner part shardId =>
    obtain rfl := Except.ok.inj h
    exact Or.inr ⟨part, shardId, rfl, rfl⟩
  | channelInit =>
    obtain ⟨channels, -, rfl⟩ := Kernel.map_eq_ok h
    exact Or.inl rfl
  | grant =>
    obtain ⟨⟨shards, o⟩, -, rfl⟩ := Kernel.map_eq_ok h
    exact Or.inl rfl

theorem Booted.vramOk {isRam : Nat → Prop} {ops : List BootOp} {s : Sys} (h : Booted isRam ops s) :
    s.config.VramOk isRam := by
  induction h with
  | initial h => exact h.vramOk
  | op _ _ hrun ih =>
    rcases BootOp.run_config hrun with he | ⟨part, shardId, -, he⟩
    · rw [he]
      exact ih
    · rw [he]
      refine ⟨fun i hi => ?_, ih.kernPtr, ih.bar, ih.device⟩
      obtain ⟨hlt, hoff, hsize⟩ := ih.layout i hi
      simp only [Table.getD_modify]
      split
      · rename_i hc
        rw [← hc.1]
        exact ⟨hlt, hoff, hsize⟩
      · exact ⟨hlt, hoff, hsize⟩

theorem Run.vramOk (r : Run) (n : Nat) : (r.state n).config.VramOk r.isRam := by
  rw [r.config_eq n]
  exact r.booted.vramOk

/-! ## The copy -/

/-- **The copy loop of `handle_dma`**, as long as both pointers stay in the 64-bit range,
copies bytes of the BAR. -/
theorem copyVram_eq (s : Sys) {n : Nat} : ∀ {a b : Nat} {m : Memory},
    s.vramKernPtr + a + n ≤ 2 ^ 64 → s.vramKernPtr + b + n ≤ 2 ^ 64 → (a + n ≤ b ∨ b + n ≤ a) →
    copyVram s n (s.vramKernPtr + a) (s.vramKernPtr + b) m =
      .ok (m.copy (s.vramPhysBase + a) (s.vramPhysBase + b) n) := by
  induction n with
  | zero =>
    intro a b m _ _ _
    rw [Memory.copy_zero]
    rfl
  | succ n ih =>
    intro a b m ha hb hd
    have target : ∀ {m' : Memory} o, vramTarget s m' (s.vramKernPtr + o) =
        some ⟨s.vramPhysBase + o, false, true, false⟩ := by
      intro m' o
      rw [vramTarget, if_pos (Nat.le_add_right _ _), Nat.add_sub_cancel_left]
    have hstep : copyVram s (n + 1) (s.vramKernPtr + a) (s.vramKernPtr + b) m =
        copyVram s n (wrappingAdd (s.vramKernPtr + a) 1) (wrappingAdd (s.vramKernPtr + b) 1)
          (fun x => if x = s.vramPhysBase + b then m (s.vramPhysBase + a) else m x) := by
      rw [copyVram, target, target]
      rfl
    rw [hstep, ← Memory.copy_succ m (by omega)]
    cases n with
    | zero =>
      rw [Memory.copy_zero]
      rfl
    | succ n =>
      rw [wrappingAdd_eq (by omega), wrappingAdd_eq (by omega), Nat.add_assoc, Nat.add_assoc _ b 1]
      exact ih (by omega) (by omega) (by omega)

/-! ## Confinement -/

/-- The range lies in what the shard has unveiled, if it has unveiled one. -/
def Unveiled (d : ShardDescriptor) (offset len : Nat) : Prop :=
  d.vramUnveilSize ≠ 0 → d.vramUnveilOffset + d.vramUnveilSize < 2 ^ 64 ∧
    d.vramUnveilOffset ≤ offset ∧ offset + len ≤ d.vramUnveilOffset + d.vramUnveilSize

theorem unveilAllows_eq_true {s : Sys} {id offset len : Nat} (hd : DescOk (s.desc id))
    (h : unveilAllows s id offset len = .ok true) : Unveiled (s.desc id) offset len := by
  unfold unveilAllows at h
  obtain ⟨d, hd', h⟩ := Kernel.bind_eq_ok h
  obtain ⟨-, rfl⟩ := Sys.shard_eq_ok hd'
  intro hne
  rcases guard_eq_ok h with ⟨hz, -⟩ | ⟨-, h⟩
  · exact absurd (beq_iff_eq.mp hz) hne
  · split at h
    · cases h
    · rename_i fin hfin
      obtain ⟨rfl, -⟩ := checkedAdd_eq_some hfin
      have h := Except.ok.inj h
      simp only [Bool.and_eq_true, decide_eq_true_eq] at h
      exact ⟨hd.unveil, h.1, Nat.le_trans h.2 (Nat.le_of_eq (wrappingAdd_eq hd.unveil))⟩

/-- Where byte `offset` of partition `i` lies in the BAR. -/
def Sys.absOffset (s : Sys) (i offset : Nat) : Nat := (s.partition i).vramOffset + offset

/-- The range `[offset, offset + len)` of partition `i` lies in its slice and in the BAR,
and no sum that is taken of these numbers leaves the 64-bit range. -/
structure InSlice (s : Sys) (i offset len : Nat) : Prop where
  lt : i < s.partitionCount
  slice : offset + len ≤ (s.partition i).vramSize
  bar : s.absOffset i offset + len ≤ s.vramTotalSize
  sums : offset + len < 2 ^ 64 ∧ s.absOffset i offset < 2 ^ 64

/-- The kernel's addresses of the range stay in the 64-bit range. -/
def Reachable (s : Sys) (i offset len : Nat) : Prop :=
  s.vramKernPtr + s.absOffset i offset + len ≤ 2 ^ 64

/-- **A transfer is confined**: `len` bytes were copied from partition `src` of the caller
to partition `target`, between ranges that lie where they may, and nothing else in memory
changed. -/
structure DmaConfined (s s' : Sys) (src target srcOffset dstOffset len : Nat) : Prop where
  caller : (s.partition src).ownerShard = s.currentShard
  source_in : InSlice s src srcOffset len
  target_in : InSlice s target dstOffset len
  source_unveiled : Unveiled (s.desc s.currentShard) srcOffset len
  target_unveiled : (s.partition target).ownerShard ≠ u64Max →
    Unveiled (s.desc (s.partition target).ownerShard) dstOffset len
  disjoint : s.absOffset src srcOffset + len ≤ s.absOffset target dstOffset ∨
    s.absOffset target dstOffset + len ≤ s.absOffset src srcOffset
  addresses : Reachable s src srcOffset len ∧ Reachable s target dstOffset len
  copied : s'.ram.mem = s.ram.mem.copy (s.vramPhysBase + s.absOffset src srcOffset)
    (s.vramPhysBase + s.absOffset target dstOffset) len

/-- Where the ranges of a checked transfer lie in the BAR. -/
theorem DmaOk.ranges {isRam : Nat → Prop} {s : Sys} {target srcOffset dstOffset len src : Nat}
    (h : DmaOk s target srcOffset dstOffset len src) (hv : s.config.VramOk isRam) :
    InSlice s src srcOffset len ∧ InSlice s target dstOffset len ∧
    (s.absOffset src srcOffset + len ≤ s.absOffset target dstOffset ∨
      s.absOffset target dstOffset + len ≤ s.absOffset src srcOffset) := by
  obtain ⟨-, hsrc, -⟩ := firstFrom_some h.owned
  have hsrc : src < s.partitionCount := by omega
  obtain ⟨hs2, hso, hss⟩ := hv.layout src hsrc
  obtain ⟨ht2, hto, hts⟩ := hv.layout target h.target_lt
  have hbar : s.vramPhysBase + s.vramTotalSize < 2 ^ 52 := hv.bar (Nat.zero_lt_of_lt h.target_lt)
  change (s.partition src).vramOffset = src * (s.vramTotalSize / maxGpuPartitions) at hso
  change (s.partition src).vramSize = s.vramTotalSize / maxGpuPartitions at hss
  change (s.partition target).vramOffset = target * (s.vramTotalSize / maxGpuPartitions) at hto
  change (s.partition target).vramSize = s.vramTotalSize / maxGpuPartitions at hts
  have hsf := h.src_fits
  have htf := h.dst_fits
  have hne := h.ne
  simp only [maxGpuPartitions] at hs2 ht2 hso hss hto hts
  -- two partitions of half the BAR each: one of the two is the lower half
  have habs : s.absOffset src srcOffset + len ≤ s.vramTotalSize ∧
      s.absOffset target dstOffset + len ≤ s.vramTotalSize ∧
      (s.absOffset src srcOffset + len ≤ s.absOffset target dstOffset ∨
        s.absOffset target dstOffset + len ≤ s.absOffset src srcOffset) := by
    unfold Sys.absOffset
    obtain ⟨rfl, rfl⟩ | ⟨rfl, rfl⟩ : (src = 0 ∧ target = 1) ∨ (src = 1 ∧ target = 0) := by omega
    · omega
    · omega
  exact ⟨⟨hsrc, hsf, habs.1, h.src_lt64, by omega⟩,
    ⟨h.target_lt, htf, habs.2.1, h.dst_lt64, by omega⟩, habs.2.2⟩

/-- A SYS_GPU_DMA that returns success has passed the checks and copied. -/
theorem Answer.dma_ok {s s' : Sys} {x : Returned} (h : Answer s s' x) (hnr : x.nr = sysGpuDma)
    (hres : x.result = 0) : x.shard = s.currentShard ∧ ∃ src m,
      DmaOk s x.a0 x.a1 (x.a2 / 2 ^ 32) (x.a2 % 2 ^ 32) src ∧
      copyVram s (x.a2 % 2 ^ 32)
        (wrappingAdd s.vramKernPtr (wrappingAdd (s.partition src).vramOffset x.a1))
        (wrappingAdd s.vramKernPtr (wrappingAdd (s.partition x.a0).vramOffset (x.a2 / 2 ^ 32)))
        s.ram.mem = .ok m ∧ s' = s.setMem m := by
  cases h with
  | refused result =>
    rw [hres] at result
    cases result
  | syscall _ shard effect =>
    rw [hnr, hres] at effect
    rcases effect.dma_cases with ⟨-, hr⟩ | ⟨src, m, ok, copied, hs, -⟩
    · cases hr
    · exact ⟨shard, src, m, ok, copied, hs⟩
  | yield nr =>
    rw [hnr] at nr
    cases nr
  | recv nr =>
    rw [hnr] at nr
    cases nr

/-- **DMA confinement.**  A successful transfer is confined exactly when the kernel's
addresses of both ranges stay in the 64-bit range. -/
theorem Run.dma_confined_iff (r : Run) (n : Nat) (x : Returned) (hx : (r.event n).returned = some x)
    (hnr : x.nr = sysGpuDma) (hres : x.result = 0) :
    ∃ src, ownedPartition (r.state n) (r.state n).currentShard = some src ∧ src ≠ x.a0 ∧
      (DmaConfined (r.state n) (r.state (n + 1)) src x.a0 x.a1 (x.a2 / 2 ^ 32) (x.a2 % 2 ^ 32) ↔
        Reachable (r.state n) src x.a1 (x.a2 % 2 ^ 32) ∧
          Reachable (r.state n) x.a0 (x.a2 / 2 ^ 32) (x.a2 % 2 ^ 32)) := by
  obtain ⟨hm, hanswer⟩ := r.answer hx
  obtain ⟨-, src, m, ok, copied, hs⟩ := hanswer.dma_ok hnr hres
  refine ⟨src, ok.owned, ok.ne, fun h => h.addresses, fun h => ?_⟩
  obtain ⟨hsrc, hdst, hdisj⟩ := ok.ranges (r.vramOk n)
  obtain ⟨-, -, howner⟩ := firstFrom_some ok.owned
  have hpos := ok.pos
  obtain ⟨h1, h2⟩ := h
  unfold Reachable at h1 h2
  -- neither sum wraps, so the copy runs in the BAR
  rw [wrappingAdd_eq hsrc.sums.2, wrappingAdd_eq hdst.sums.2] at copied
  change copyVram _ _ (wrappingAdd _ ((r.state n).absOffset src x.a1))
    (wrappingAdd _ ((r.state n).absOffset x.a0 (x.a2 / 2 ^ 32))) _ = _ at copied
  rw [wrappingAdd_eq (by omega), wrappingAdd_eq (by omega), copyVram_eq _ h1 h2 hdisj] at copied
  refine ⟨beq_iff_eq.mp howner, hsrc, hdst, unveilAllows_eq_true (r.descs n hm _) ok.unveilSrc,
    fun hne => unveilAllows_eq_true (r.descs n hm _) (ok.unveilDst hne), hdisj, ⟨h1, h2⟩, ?_⟩
  rw [hs, ← Except.ok.inj copied]
  rfl

/-! ## A BAR of two pages, and one of 2 GiB -/

/-- A shard that owns partition 0 and may transfer to partition 1. -/
def dmaOps : List BootOp :=
  [.create emptyImage .normal, .setOwner 0 0, .grant 0 4 1 rightGpuDmaWrite]

set_option maxRecDepth 100000 in
/-- One byte goes from the first page of the BAR to the second. -/
def smallRun : Run :=
  gpuRun 0x2000 (by decide) dmaOps (by decide +kernel) [.schedule, .syscall 40 1 0 1 0]

set_option maxRecDepth 100000 in
theorem smallRun_confined : DmaConfined (smallRun.state 1) (smallRun.state 2) 0 1 0 0 1 := by
  obtain ⟨src, howned, -, h⟩ := smallRun.dma_confined_iff 1 ⟨0, 40, 1, 0, 1, 0⟩ (by decide +kernel) rfl rfl
  have hsrc : ownedPartition (smallRun.state 1) (smallRun.state 1).currentShard = some 0 := by
    decide +kernel
  obtain rfl := Option.some.inj (hsrc.symm.trans howned)
  exact h.mpr ⟨by unfold Reachable; decide +kernel, by unfold Reachable; decide +kernel⟩

set_option maxRecDepth 100000 in
/-- The same transfer in a BAR of 2 GiB, to byte `0x7FF000` of the second partition. -/
def overRun : Run :=
  gpuRun 0x80000000 (by decide) dmaOps (by decide +kernel)
    [.schedule, .syscall 40 1 0 0x7FF00000000001 0]

set_option maxRecDepth 100000 in
/-- **The transfer returns success, does not write VRAM, and overwrites the stack of its
caller instead.** -/
theorem overRun_escapes :
    (overRun.event 1).returned = some ⟨0, sysGpuDma, 1, 0, 0x7FF00000000001, 0⟩ ∧
    ownedPartition (overRun.state 1) (overRun.state 1).currentShard = some 0 ∧
    ¬ DmaConfined (overRun.state 1) (overRun.state 2) 0 1 0 0x7FF000 1 ∧
    (overRun.state 1).ram.mem 0x100000000 = 0x2A ∧
    (overRun.state 2).ram.mem (0x100000000 + 0x40000000 + 0x7FF000) = 0 ∧
    (walk (overRun.state 1).ram.mem (overRun.state 1).cr3 0x7FF000).map
      (fun leaf => ((overRun.state 1).ram.mem leaf.phys, (overRun.state 2).ram.mem leaf.phys)) =
        some (0, 0x2A) := by
  refine ⟨by decide +kernel, by decide +kernel, fun h => absurd h.addresses.2 ?_, by decide +kernel,
    by decide +kernel, by decide +kernel⟩
  unfold Reachable
  decide +kernel

end Coconut
