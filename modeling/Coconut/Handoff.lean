import Coconut.BootLoader
import Mathlib.Algebra.Order.BigOperators.Group.List
import Mathlib.Algebra.Order.Ring.Nat

/-!
# The boot handoff

`main` of `coconut-boot` passes the memory map and the place of the supervisor on to the
supervisor, where `pmm::init` keeps the regions of the image out of the free ones.  Two
programs meet here: the loader counts the bytes it copies, and the supervisor takes that
number for the size of its memory.  A segment takes more memory than it has file bytes
when it ends in bss.
-/
namespace Coconut.BootLoader

/-- The memory types of the firmware that `translate_memory_type` tells apart. -/
inductive MemoryType where
  | conventional
  | bootServicesCode
  | bootServicesData
  | acpiReclaim
  | acpiNonVolatile
  | mmio
  | mmioPortSpace
  | other
  deriving DecidableEq

/-- An entry of the firmware's memory map. -/
structure MemoryDescriptor where
  ty : MemoryType
  physStart : Nat
  pageCount : Nat

/-- `MAX_MMAP_ENTRIES`. -/
@[simp] def maxMmapEntries : Nat := 256

def translateMemoryType : MemoryType → MemoryRegionType
  | .conventional => .usable
  | .bootServicesCode | .bootServicesData => .bootloaderReclaimable
  | .acpiReclaim => .acpiReclaimable
  | .acpiNonVolatile => .acpiNvs
  | .mmio | .mmioPortSpace => .mmio
  | .other => .reserved

/-- The memory map of the handoff: the entries of the firmware, then the supervisor's. -/
def memoryMap (entries : List MemoryDescriptor) (pages : Nat) : List MemoryRegionDescriptor :=
  let regions := (entries.take maxMmapEntries).map fun desc =>
    { physStart := desc.physStart
      size := desc.pageCount * 4096 % 0x10000000000000000
      regionType := translateMemoryType desc.ty : MemoryRegionDescriptor }
  if regions.length < maxMmapEntries then
    regions ++ [⟨supervisorLoadAddr, pages * 4096 % 0x10000000000000000, .supervisorCode⟩]
  else regions

/-- The `BootInfo` that `main` builds once the segments are loaded. -/
def bootInfo (info : ElfInfo) (run : LoadRun) (entries : List MemoryDescriptor) : BootInfo where
  memoryMap := memoryMap entries (pageCount info.segments)
  supervisorPhysBase := supervisorLoadAddr
  -- `total_loaded as u64`
  supervisorSize := run.totalLoaded % 0x10000000000000000
  base_lt := by decide
  size_lt := Nat.mod_lt _ (by decide)

/-- The lowest segment is at the load address. -/
structure StartsAtLoadAddr (segments : List LoadSegment) : Prop where
  le : ∀ seg ∈ segments, supervisorLoadAddr ≤ seg.loadAddr
  eq : ∃ seg ∈ segments, seg.loadAddr = supervisorLoadAddr

/-- Region `r` meets the memory of the segment. -/
def LoadSegment.Meets (seg : LoadSegment) (r : Nat) : Prop :=
  r * regionSize < seg.loadAddr + seg.memSize ∧ seg.loadAddr < (r + 1) * regionSize

instance (seg : LoadSegment) (r : Nat) : Decidable (seg.Meets r) :=
  inferInstanceAs (Decidable (_ ∧ _))

/-- The handoff reserves the kernel: its size reaches to the end of every segment, and
whatever the firmware says of the memory, no region that meets a segment is free after
`pmm::init`. -/
structure ReservesKernel (segments : List LoadSegment) (boot : List MemoryDescriptor → BootInfo) :
    Prop where
  covers : ∀ entries, ∀ seg ∈ segments, seg.loadAddr + seg.memSize ≤
    (boot entries).supervisorPhysBase + (boot entries).supervisorSize
  reserved : ∀ entries, ∀ r < maxRegions, ∀ seg ∈ segments, seg.Meets r →
    (pmmInit (boot entries)).bit r = false

/-! ## The bytes loaded -/

/-- Eight segments of a file add up to less than the address space. -/
theorem sum_fileSize_le {d : ElfData} {info : ElfInfo}
    (hfile : ∀ seg ∈ info.segments, seg.InFile d) :
    (info.segments.map LoadSegment.fileSize).sum ≤ 2 ^ 55 := by
  have heach : ∀ n ∈ info.segments.map LoadSegment.fileSize, n ≤ 2 ^ 52 := by
    rw [List.forall_mem_map]
    intro seg hseg
    have hseg := hfile seg hseg
    have hlen := d.len_le
    unfold LoadSegment.InFile at hseg
    omega
  have hsum := List.sum_le_card_nsmul _ _ heach
  have hcount := info.count_le
  rw [List.length_map, nsmul_eq_mul, Nat.cast_id] at hsum
  omega

section Returns

variable {fw : Firmware} {d : ElfData} {info : ElfInfo} {m : Memory}

/-- A run that returns has had its pages and copied every segment. -/
theorem returns_copies (h : (loadElfSegments fw d info m).panicked = false) :
    Copies d info.segments (zeroPages (pageCount info.segments) m)
      (loadElfSegments fw d info m) := by
  unfold loadElfSegments at h ⊢
  simp only at h ⊢
  by_cases hallocates : fw.allocates (pageCount info.segments) = true
  · rw [if_pos hallocates]
    exact copySegments_copies d info.segments _ (zeroPages_totalLoaded_lt _ _)
  · rw [if_neg hallocates] at h
    cases h

theorem returns_inFile (h : (loadElfSegments fw d info m).panicked = false) :
    ∀ seg ∈ info.segments, seg.InFile d :=
  ((returns_copies h).panicked.mp h).2

/-- The size handed over is the number of file bytes. -/
theorem bootInfo_supervisorSize (h : (loadElfSegments fw d info m).panicked = false)
    (entries : List MemoryDescriptor) :
    (bootInfo info (loadElfSegments fw d info m) entries).supervisorSize =
      (info.segments.map LoadSegment.fileSize).sum := by
  have hsum := sum_fileSize_le (returns_inFile h)
  have htotal := (returns_copies h).totalLoaded (returns_inFile h)
  rw [show (zeroPages _ m).totalLoaded = 0 from rfl, Nat.zero_add,
    Nat.mod_eq_of_lt (by omega)] at htotal
  change (loadElfSegments fw d info m).totalLoaded % 2 ^ 64 = _
  rw [htotal]
  exact Nat.mod_eq_of_lt (by omega)

end Returns

/-! ## The handoff -/

/-- **The handoff reserves the kernel** exactly if no segment ends behind the load address
by more than all the file bytes together. -/
theorem handoff_reserves_kernel_iff (fw : Firmware) (d : ElfData) (m : Memory) {info : ElfInfo}
    (hparse : parseElf64 d = .ok info) (hreturns : (loadElfSegments fw d info m).panicked = false)
    (hstart : StartsAtLoadAddr d.loadSegments) :
    ReservesKernel d.loadSegments (bootInfo info (loadElfSegments fw d info m)) ↔
      ∀ seg ∈ d.loadSegments, seg.loadAddr + seg.memSize ≤
        supervisorLoadAddr + (d.loadSegments.map LoadSegment.fileSize).sum := by
  have hsegments := (parseElf64_eq_ok hparse).2.2
  have hsize := bootInfo_supervisorSize hreturns
  rw [hsegments] at hsize
  have hsum := sum_fileSize_le (returns_inFile hreturns)
  rw [hsegments] at hsum
  constructor
  · intro h seg hseg
    have hcovers := h.covers [] seg hseg
    rwa [hsize] at hcovers
  · intro h
    refine ⟨fun entries seg hseg => ?_, fun entries r hr seg hseg hmeets => ?_⟩
    · rw [hsize]
      exact h seg hseg
    · rw [pmmInit, selfTest_eq]
      refine BootInfo.bit_reserve_supervisor _ hr ?_
      have hend : (bootInfo info (loadElfSegments fw d info m) entries).supervisorPhysBase +
          (bootInfo info (loadElfSegments fw d info m) entries).supervisorSize + 0x1FFFFF <
            2 ^ 64 := by
        rw [hsize]
        change 0x200000 + _ + 0x1FFFFF < 2 ^ 64
        omega
      rw [BootInfo.supervisorStop_of_lt hend, BootInfo.MeetsSupervisor, hsize]
      have hlow := hstart.le seg hseg
      have hhigh := h seg hseg
      exact ⟨Nat.lt_of_lt_of_le hmeets.1 hhigh, Nat.lt_of_le_of_lt hlow hmeets.2⟩

set_option maxRecDepth 100000 in
theorem sampleElf_starts : StartsAtLoadAddr (sampleElf 64 0x200000 4).loadSegments := by
  have hle : ∀ seg ∈ (sampleElf 64 0x200000 4).loadSegments,
      supervisorLoadAddr ≤ seg.loadAddr := by decide +kernel
  have heq : ∃ seg ∈ (sampleElf 64 0x200000 4).loadSegments,
      seg.loadAddr = supervisorLoadAddr := by decide +kernel
  exact ⟨hle, heq⟩

set_option maxRecDepth 100000 in
/-- A file without bss. -/
theorem handoff_reserves_kernel_iff_sample : ∃ info,
    parseElf64 (sampleElf 64 0x200000 4) = .ok info ∧
      ReservesKernel (sampleElf 64 0x200000 4).loadSegments (bootInfo info
        (loadElfSegments sampleFirmware (sampleElf 64 0x200000 4) info fun _ => 0)) := by
  obtain ⟨info, hparse⟩ := parse_of_toBool (d := sampleElf 64 0x200000 4) (by decide +kernel)
  have hreturns : (loadElfSegments sampleFirmware (sampleElf 64 0x200000 4) info
      fun _ => 0).panicked = false := by
    rw [loadElfSegments, (parseElf64_eq_ok hparse).2.2]
    decide +kernel
  refine ⟨info, hparse, (handoff_reserves_kernel_iff _ _ _ hparse hreturns sampleElf_starts).mpr ?_⟩
  decide +kernel

/-- A file of four bytes with six mebibytes of memory. -/
def bssElf : ElfData := sampleElf 64 0x200000 0x600000

/-- Eight mebibytes of conventional memory. -/
def sampleMap : List MemoryDescriptor := [⟨.conventional, 0, 2048⟩]

/-- The handoff after loading the file. -/
def bssBoot (info : ElfInfo) : List MemoryDescriptor → BootInfo :=
  bootInfo info (loadElfSegments sampleFirmware bssElf info fun _ => 0)

section BssElf

variable {info : ElfInfo} (hparse : parseElf64 bssElf = .ok info)

include hparse

set_option maxRecDepth 100000 in
theorem bssElf_returns :
    (loadElfSegments sampleFirmware bssElf info fun _ => 0).panicked = false := by
  rw [loadElfSegments, (parseElf64_eq_ok hparse).2.2]
  decide +kernel

set_option maxRecDepth 100000 in
theorem bssBoot_size (entries : List MemoryDescriptor) :
    (bssBoot info entries).supervisorSize = 4 := by
  rw [bssBoot, bootInfo_supervisorSize (bssElf_returns hparse), (parseElf64_eq_ok hparse).2.2]
  decide +kernel

set_option maxRecDepth 100000 in
theorem bssBoot_memoryMap : (bssBoot info sampleMap).memoryMap =
    [⟨0, 0x800000, .usable⟩, ⟨0x200000, 0x600000, .supervisorCode⟩] := by
  have hpages : pageCount bssElf.loadSegments = 1536 := by decide +kernel
  change memoryMap sampleMap (pageCount info.segments) = _
  rw [(parseElf64_eq_ok hparse).2.2, hpages]
  rfl

theorem bssBoot_free : (pmmInit (bssBoot info sampleMap)).bit 3 = true := by
  have hrange : (bssBoot info sampleMap).MapInRange := by
    intro d hd
    rw [bssBoot_memoryMap hparse] at hd
    rcases List.mem_pair.mp hd with rfl | rfl
    · decide
    · decide
  have husable : (bssBoot info sampleMap).Usable 3 := by
    refine ⟨⟨0, 0x800000, .usable⟩, ?_, .inl rfl, by decide, by decide⟩
    rw [bssBoot_memoryMap hparse]
    exact List.mem_cons_self
  have hstop : (bssBoot info sampleMap).supervisorStop = 2 := by
    rw [BootInfo.supervisorStop, bssBoot_size hparse]
    change wrappingAdd (wrappingAdd 0x200000 4) 0x1FFFFF / regionSize = 2
    decide
  rw [pmmInit, selfTest_eq, BootInfo.bit_reserve hrange (by decide), hstop]
  exact ⟨husable, by omega, by decide⟩

end BssElf

set_option maxRecDepth 100000 in
/-- The size handed over is four, and the last region of the file's memory is free. -/
theorem bss_region_free : ∃ info, parseElf64 bssElf = .ok info ∧
    (loadElfSegments sampleFirmware bssElf info fun _ => 0).panicked = false ∧
    StartsAtLoadAddr bssElf.loadSegments ∧ (∃ seg ∈ bssElf.loadSegments, seg.Meets 3) ∧
    (bssBoot info sampleMap).supervisorSize = 4 ∧ (pmmInit (bssBoot info sampleMap)).bit 3 = true ∧
    ¬ ReservesKernel bssElf.loadSegments (bssBoot info) := by
  obtain ⟨info, hparse⟩ := parse_of_toBool (d := bssElf) (by decide +kernel)
  have hle : ∀ seg ∈ bssElf.loadSegments, supervisorLoadAddr ≤ seg.loadAddr := by decide +kernel
  have heq : ∃ seg ∈ bssElf.loadSegments, seg.loadAddr = supervisorLoadAddr := by decide +kernel
  have hmeets : ∃ seg ∈ bssElf.loadSegments, seg.Meets 3 := by decide +kernel
  refine ⟨info, hparse, bssElf_returns hparse, ⟨hle, heq⟩, hmeets, bssBoot_size hparse _,
    bssBoot_free hparse, fun h => ?_⟩
  obtain ⟨seg, hseg, hseg3⟩ := hmeets
  have hnot := h.reserved sampleMap 3 (by decide) seg hseg hseg3
  rw [bssBoot_free hparse] at hnot
  cases hnot

end Coconut.BootLoader
