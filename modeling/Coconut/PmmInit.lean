import Coconut.Frame

/-!
# Initialisation of the physical memory manager

`pmm::init` turns the memory map of the bootloader into the bitmap of free 2 MiB regions:
it frees the whole regions inside each usable entry, then takes back the supervisor's own
regions and the one of the boot page tables.  `pmm_init_exact` says for which supervisor
ranges the bitmap is the intended set (`BootInfo.Free`).
-/
namespace Coconut

/-- Classification of physical memory regions. -/
inductive MemoryRegionType where
  | usable
  | reserved
  | acpiReclaimable
  | supervisorCode
  | bootloaderReclaimable
  | acpiNvs
  | mmio
  deriving DecidableEq

/-- A contiguous physical memory region. -/
structure MemoryRegionDescriptor where
  physStart : Nat
  size : Nat
  regionType : MemoryRegionType

/-- What `pmm::init` reads of the boot handoff structure: the memory map, and the place of
the supervisor image. -/
structure BootInfo where
  memoryMap : List MemoryRegionDescriptor
  supervisorPhysBase : Nat
  supervisorSize : Nat
  base_lt : supervisorPhysBase < 0x10000000000000000
  size_lt : supervisorSize < 0x10000000000000000

/-- `addr & !(align - 1)`. -/
def alignDown (addr align : Nat) : Nat := addr &&& (u64Max ^^^ (align - 1))

/-- `(addr + align - 1) & !(align - 1)`. -/
def alignUp (addr align : Nat) : Nat := alignDown (wrappingAdd addr (align - 1)) align

/-- The loop `while addr < end` that applies `mark` to each region. -/
def markRegions (mark : Bitmap → Nat → Bitmap) (b : Bitmap) (addr stop : Nat) : Bitmap :=
  -- `stop` is a multiple of the region size, so `addr` never steps over it
  if addr < stop then markRegions mark (mark b addr) (addr + regionSize) stop else b
termination_by stop - addr
decreasing_by simp only [regionSize]; omega

/-- One entry of the memory map: the aligned regions inside a usable one are free. -/
def markDescriptor (b : Bitmap) (region : MemoryRegionDescriptor) : Bitmap :=
  match region.regionType with
  | .usable | .bootloaderReclaimable =>
    markRegions markFree b (alignUp region.physStart regionSize)
      (alignDown (wrappingAdd region.physStart region.size) regionSize)
  | _ => b

namespace BootInfo

/-- The bitmap of `init` before the self-test. -/
def reserve (info : BootInfo) : Bitmap :=
  let b := info.memoryMap.foldl markDescriptor fun _ => 0#64
  -- the supervisor region, then the boot page tables
  let b := markRegions markAllocated b (alignDown info.supervisorPhysBase regionSize)
    (alignUp (wrappingAdd info.supervisorPhysBase info.supervisorSize) regionSize)
  markAllocated b 0x400000

end BootInfo

/-- The quick self-test: allocate and free a region. -/
def selfTest (b : Bitmap) : Bitmap :=
  match allocRegion b with
  | some (addr, b') => freeRegion b' addr
  | none => b

/-- `pmm::init`. -/
def pmmInit (info : BootInfo) : Bitmap := selfTest info.reserve

/-! ## What the bitmap should be -/

/-- The entry describes memory that may be allocated. -/
def MemoryRegionDescriptor.IsFree (d : MemoryRegionDescriptor) : Prop :=
  d.regionType = .usable ∨ d.regionType = .bootloaderReclaimable

/-- Region `r` lies entirely inside the entry. -/
def MemoryRegionDescriptor.Covers (d : MemoryRegionDescriptor) (r : Nat) : Prop :=
  d.physStart ≤ r * regionSize ∧ (r + 1) * regionSize ≤ d.physStart + d.size

namespace BootInfo

/-- Region `r` meets the supervisor image. -/
def MeetsSupervisor (info : BootInfo) (r : Nat) : Prop :=
  r * regionSize < info.supervisorPhysBase + info.supervisorSize ∧
    info.supervisorPhysBase < (r + 1) * regionSize

/-- Region `r` lies entirely inside one usable entry. -/
def Usable (info : BootInfo) (r : Nat) : Prop := ∃ d ∈ info.memoryMap, d.IsFree ∧ d.Covers r

/-- Region `r` should be free after `init`. -/
def Free (info : BootInfo) (r : Nat) : Prop :=
  info.Usable r ∧ ¬ info.MeetsSupervisor r ∧ r ≠ 0x400000 / regionSize

/-- The bitmap is the set of regions that should be free, and the self-test does not
change it. -/
def InitExact (info : BootInfo) : Prop :=
  (∀ r < maxRegions, (pmmInit info).bit r = true ↔ info.Free r) ∧
    selfTest info.reserve = info.reserve

/-- No entry ends within 2 MiB of the end of the address space. -/
def MapInRange (info : BootInfo) : Prop :=
  ∀ d ∈ info.memoryMap, d.physStart + d.size + regionSize ≤ 2 ^ 64

end BootInfo

/-! ## Alignment and marking -/

theorem alignDown_region {addr : Nat} (h : addr < 2 ^ 64) :
    alignDown addr regionSize = addr / regionSize * regionSize :=
  and_not_low (w := 64) (k := 21) h (by decide)

theorem alignUp_region {addr : Nat} (h : addr + 0x1FFFFF < 2 ^ 64) :
    alignUp addr regionSize = (addr + 0x1FFFFF) / regionSize * regionSize := by
  have hw : wrappingAdd addr (regionSize - 1) = addr + 0x1FFFFF := wrappingAdd_eq h
  rw [alignUp, hw, alignDown_region h]

theorem bit_markFree (b : Bitmap) (k : Nat) {r : Nat} (hr : r < maxRegions) :
    (markFree b (k * regionSize)).bit r = if r = k then true else b.bit r := by
  have hk : k * regionSize / regionSize = k := Nat.mul_div_cancel k (by decide)
  unfold markFree
  rw [hk]
  by_cases hlt : k < maxRegions
  · rw [if_pos hlt, Bitmap.bit_setBit]
    by_cases hrk : r = k <;> simp [hrk]
  · rw [if_neg hlt, if_neg (by omega)]

theorem bit_markAllocated (b : Bitmap) (k : Nat) {r : Nat} (hr : r < maxRegions) :
    (markAllocated b (k * regionSize)).bit r = if r = k then false else b.bit r := by
  have hk : k * regionSize / regionSize = k := Nat.mul_div_cancel k (by decide)
  unfold markAllocated
  rw [hk]
  by_cases hlt : k < maxRegions
  · rw [if_pos hlt, Bitmap.bit_clearBit]
    by_cases hrk : r = k <;> simp [hrk]
  · rw [if_neg hlt, if_neg (by omega)]

/-- The loop marks the regions from the first up to the last, and no other. -/
theorem bit_markRegions {mark : Bitmap → Nat → Bitmap} {v : Bool} {r : Nat}
    (hmark : ∀ b k, (mark b (k * regionSize)).bit r = if r = k then v else b.bit r)
    (b : Bitmap) (i n : Nat) :
    (markRegions mark b (i * regionSize) (n * regionSize)).bit r =
      if i ≤ r ∧ r < n then v else b.bit r := by
  rw [markRegions]
  by_cases hin : i < n
  · have hlt : i * regionSize < n * regionSize := by simp only [regionSize]; omega
    rw [if_pos hlt, show i * regionSize + regionSize = (i + 1) * regionSize by
      simp only [regionSize]; omega, bit_markRegions hmark, hmark]
    grind
  · have hge : ¬ i * regionSize < n * regionSize := by simp only [regionSize]; omega
    rw [if_neg hge, if_neg (by omega)]
termination_by n - i

/-! ## The memory map -/

/-- One entry adds the regions it covers. -/
theorem bit_markDescriptor (b : Bitmap) {d : MemoryRegionDescriptor}
    (hd : d.physStart + d.size + regionSize ≤ 2 ^ 64) {r : Nat} (hr : r < maxRegions) :
    (markDescriptor b d).bit r = true ↔ d.IsFree ∧ d.Covers r ∨ b.bit r = true := by
  simp only [regionSize] at hd
  have hmarked : (markRegions markFree b (alignUp d.physStart regionSize)
      (alignDown (wrappingAdd d.physStart d.size) regionSize)).bit r = true ↔
        d.Covers r ∨ b.bit r = true := by
    rw [wrappingAdd_eq (by omega), alignDown_region (by omega), alignUp_region (by omega),
      bit_markRegions fun b k => bit_markFree b k hr]
    have hcov : ((d.physStart + 0x1FFFFF) / regionSize ≤ r ∧
        r < (d.physStart + d.size) / regionSize) ↔ d.Covers r := by
      simp only [MemoryRegionDescriptor.Covers, regionSize]
      omega
    by_cases hc : d.Covers r
    · rw [if_pos (hcov.mpr hc)]
      simp [hc]
    · rw [if_neg (mt hcov.mp hc)]
      simp [hc]
  unfold markDescriptor MemoryRegionDescriptor.IsFree
  cases d.regionType <;> simp [-regionSize, hmarked]

/-- After the loop over the memory map the free regions are the usable ones. -/
theorem bit_foldl_markDescriptor (l : List MemoryRegionDescriptor)
    (hl : ∀ d ∈ l, d.physStart + d.size + regionSize ≤ 2 ^ 64) (b : Bitmap) {r : Nat}
    (hr : r < maxRegions) :
    (l.foldl markDescriptor b).bit r = true ↔
      (∃ d ∈ l, d.IsFree ∧ d.Covers r) ∨ b.bit r = true := by
  induction l generalizing b with
  | nil => simp
  | cons d rest ih =>
    rw [List.foldl_cons, ih (fun x hx => hl x (List.mem_cons_of_mem _ hx)),
      bit_markDescriptor b (hl d List.mem_cons_self) hr]
    simp only [List.mem_cons, exists_eq_or_imp]
    rw [or_left_comm, or_assoc]

/-! ## The reservations -/

/-- The self-test takes a region and gives it back. -/
theorem selfTest_eq (b : Bitmap) : selfTest b = b := by
  unfold selfTest
  cases ha : allocRegion b with
  | none => rfl
  | some q =>
    obtain ⟨⟨i, b'⟩, htake, rfl⟩ := Option.map_eq_some_iff.mp ha
    obtain ⟨hlt, hset, rfl, -⟩ := Bitmap.takeFirst_eq_some htake
    have hi : i < maxRegions := hlt
    have hdiv : i * regionSize / regionSize = i := Nat.mul_div_cancel i (by decide)
    refine Bitmap.ext_bit fun j => ?_
    change (markFree (b.clearBit i) (i * regionSize)).bit j = b.bit j
    rw [markFree, hdiv, if_pos hi, Bitmap.bit_setBit, Bitmap.bit_clearBit]
    by_cases hj : j = i <;> simp [hj, hset]

namespace BootInfo

variable {info : BootInfo}

/-- The first region that the supervisor loop does not reach: where its end rounds up to,
or zero or a low region when the end wraps around. -/
def supervisorStop (info : BootInfo) : Nat :=
  (wrappingAdd (wrappingAdd info.supervisorPhysBase info.supervisorSize) 0x1FFFFF) / regionSize

/-- The loops' bounds are the region of the base and `supervisorStop`. -/
theorem reserve_eq (info : BootInfo) : info.reserve =
    markAllocated (markRegions markAllocated (info.memoryMap.foldl markDescriptor fun _ => 0#64)
      (info.supervisorPhysBase / regionSize * regionSize) (info.supervisorStop * regionSize))
        (0x400000 / regionSize * regionSize) := by
  have hbase := alignDown_region info.base_lt
  have hstop : alignUp (wrappingAdd info.supervisorPhysBase info.supervisorSize) regionSize =
      info.supervisorStop * regionSize := alignDown_region (Nat.mod_lt _ (by decide))
  rw [reserve, hbase, hstop]
  rfl

/-- Whatever the memory map says, the regions the supervisor loop reaches are taken. -/
theorem bit_reserve_supervisor (info : BootInfo) {r : Nat} (hr : r < maxRegions)
    (hs : info.supervisorPhysBase / regionSize ≤ r ∧ r < info.supervisorStop) :
    info.reserve.bit r = false := by
  rw [reserve_eq, bit_markAllocated _ _ hr, bit_markRegions fun b k => bit_markAllocated b k hr,
    if_pos hs, ite_self]

theorem bit_reserve (hmap : info.MapInRange) {r : Nat} (hr : r < maxRegions) :
    info.reserve.bit r = true ↔ info.Usable r ∧
      ¬ (info.supervisorPhysBase / regionSize ≤ r ∧ r < info.supervisorStop) ∧
        r ≠ 0x400000 / regionSize := by
  have husable := bit_foldl_markDescriptor info.memoryMap hmap (fun _ => 0#64) hr
  have hzero : Bitmap.bit (fun _ => 0#64) r = false := BitVec.getLsbD_zero
  simp only [hzero, Bool.false_eq_true, or_false] at husable
  rw [reserve_eq, bit_markAllocated _ _ hr, bit_markRegions fun b k => bit_markAllocated b k hr]
  by_cases h2 : r = 0x400000 / regionSize
  · simp [h2]
  · rw [if_neg h2]
    by_cases hs : info.supervisorPhysBase / regionSize ≤ r ∧ r < info.supervisorStop
    · rw [if_pos hs]
      exact ⟨nofun, fun hu => absurd hs hu.2.1⟩
    · rw [if_neg hs, husable]
      exact ⟨fun hu => ⟨hu, hs, h2⟩, fun hu => hu.1⟩

/-- As long as the end does not wrap the loop takes the regions of the image. -/
theorem supervisorStop_of_lt
    (h : info.supervisorPhysBase + info.supervisorSize + 0x1FFFFF < 2 ^ 64) (r : Nat) :
    (info.supervisorPhysBase / regionSize ≤ r ∧ r < info.supervisorStop) ↔
      info.MeetsSupervisor r := by
  have hend : wrappingAdd info.supervisorPhysBase info.supervisorSize =
      info.supervisorPhysBase + info.supervisorSize := wrappingAdd_eq (by omega)
  rw [supervisorStop, hend, wrappingAdd_eq h, MeetsSupervisor, regionSize]
  omega

/-- Once the end wraps, only a region below the wrapped end is still taken. -/
theorem supervisorStop_of_ge
    (h : 2 ^ 64 ≤ info.supervisorPhysBase + info.supervisorSize + 0x1FFFFF) {r : Nat}
    (hr : r < maxRegions) :
    (info.supervisorPhysBase / regionSize ≤ r ∧ r < info.supervisorStop) ↔
      info.MeetsSupervisor r ∧
        2 ^ 64 + r * regionSize < info.supervisorPhysBase + info.supervisorSize := by
  have hb := info.base_lt
  have hs := info.size_lt
  unfold supervisorStop wrappingAdd MeetsSupervisor
  simp only [regionSize, maxRegions] at *
  omega

/-- A range that reaches the end of the address space meets every region from its base. -/
theorem meetsSupervisor_of_ge
    (h : 2 ^ 64 ≤ info.supervisorPhysBase + info.supervisorSize + 0x1FFFFF) {r : Nat}
    (hr : r < maxRegions) :
    info.MeetsSupervisor r ↔ info.supervisorPhysBase < (r + 1) * regionSize := by
  unfold MeetsSupervisor
  simp only [regionSize, maxRegions] at *
  omega

end BootInfo

/-- **Initialisation is exact** if and only if the end of the supervisor image, rounded up,
does not wrap around, or every usable region from the image's base on is the one of the
boot page tables or still lies below the wrapped end. -/
theorem pmm_init_exact (info : BootInfo) (hmap : info.MapInRange) :
    info.InitExact ↔
      info.supervisorPhysBase + info.supervisorSize + 0x1FFFFF < 2 ^ 64 ∨
        ∀ r < maxRegions, info.Usable r → info.supervisorPhysBase < (r + 1) * regionSize →
          r = 0x400000 / regionSize ∨
            2 ^ 64 + r * regionSize < info.supervisorPhysBase + info.supervisorSize := by
  have hbit : ∀ r < maxRegions, (pmmInit info).bit r = true ↔ info.Usable r ∧
      ¬ (info.supervisorPhysBase / regionSize ≤ r ∧ r < info.supervisorStop) ∧
        r ≠ 0x400000 / regionSize := fun r hr => by
    rw [pmmInit, selfTest_eq]
    exact BootInfo.bit_reserve hmap hr
  have hexact : info.InitExact ↔ ∀ r < maxRegions, (pmmInit info).bit r = true ↔ info.Free r :=
    and_iff_left (selfTest_eq _)
  rw [hexact]
  by_cases hwrap : info.supervisorPhysBase + info.supervisorSize + 0x1FFFFF < 2 ^ 64
  · refine iff_of_true (fun r hr => ?_) (Or.inl hwrap)
    rw [hbit r hr, BootInfo.supervisorStop_of_lt hwrap, BootInfo.Free]
  · have hge := Nat.le_of_not_lt hwrap
    rw [or_iff_right hwrap]
    refine forall₂_congr fun r hr => ?_
    rw [hbit r hr, BootInfo.supervisorStop_of_ge hge hr, BootInfo.Free,
      BootInfo.meetsSupervisor_of_ge hge hr]
    tauto

/-- An image at 2 MiB whose size field reaches exactly to the end of the address space. -/
def wrappingBoot : BootInfo where
  memoryMap := [⟨0, 0x800000, .usable⟩]
  supervisorPhysBase := 0x200000
  supervisorSize := 0xFFFFFFFFFFE00000
  base_lt := by decide
  size_lt := by decide

/-- There the region of the image itself stays free. -/
theorem wrappingBoot_not_exact :
    wrappingBoot.MapInRange ∧ 0 < wrappingBoot.supervisorSize ∧ ¬ wrappingBoot.InitExact := by
  have hmap : wrappingBoot.MapInRange := by
    intro d hd
    obtain rfl := List.mem_singleton.mp hd
    decide
  refine ⟨hmap, by decide, fun h => ?_⟩
  have hfree : wrappingBoot.reserve.bit 1 = true := (BootInfo.bit_reserve hmap (by decide)).mpr
    ⟨⟨_, List.mem_singleton_self _, Or.inl rfl, by decide, by decide⟩, by decide, by decide⟩
  have hspec : wrappingBoot.Free 1 := (h.1 1 (by decide)).mp (by rwa [pmmInit, h.2])
  exact hspec.2.1 ⟨by decide, by decide⟩

/-- A one-megabyte image at 2 MiB, in the first 8 MiB of memory. -/
def smallBoot : BootInfo where
  memoryMap := [⟨0, 0x800000, .usable⟩]
  supervisorPhysBase := 0x200000
  supervisorSize := 0x100000
  base_lt := by decide
  size_lt := by decide

theorem pmm_init_exact_smallBoot : smallBoot.InitExact := by
  refine (pmm_init_exact smallBoot ?_).mpr (Or.inl (by decide))
  intro d hd
  obtain rfl := List.mem_singleton.mp hd
  decide

end Coconut
