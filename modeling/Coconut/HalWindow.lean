import Coconut.Aslr
import Coconut.Supply
import Coconut.Vram
import Mathlib.Order.Interval.Finset.Nat

/-!
# The VRAM window of a HAL shard

Four pieces of code say how large a partition is.  `create_partitions` cuts the BAR in two,
`create_config_page` tells the shard its share, `map_vram_partition` maps at most 32 MiB of
it, and the shard gives what it was told, as a 32-bit number, to its allocator.  They agree
exactly as long as a share is not larger than 32 MiB and the BAR lies where page tables can
point to.

The window is what `map_vram_partition` adds to the address space of the shard: the
addresses that are translated after it and were not before.
-/
namespace Coconut
open Paging

/-! ## The config page -/

@[simp] def gpuConfigMagic : Nat := 0x47504346

/-- What a HAL shard reads in its config page. -/
structure GpuConfig where
  partitionId : Nat
  vramSize : Nat
  cuCount : Nat
  vramVaddr : Nat
  mmioVaddr : Nat

/-- Read and validate the config page; the fields lie in one page. -/
def GpuConfig.read (m : Memory) (root : Nat) : Option GpuConfig := do
  let leaf ← walk m root gpuConfigVaddr
  let base := leaf.phys
  if m.readLE base 4 ≠ gpuConfigMagic then none
  else some ⟨m.readLE (base + 4) 4, m.readLE (base + 8) 8, m.readLE (base + 0x10) 4,
    m.readLE (base + 0x18) 8, m.readLE (base + 0x20) 8⟩

/-- The frame `phys` holds the config page of a partition. -/
def HoldsConfig (m : Memory) (phys : Nat) (p : GpuPartition) (v mmio : Nat) : Prop :=
  ∃ m₀, Memory.SameFrame (writeFields m₀ phys (gpuConfigFields p v mmio)) m phys

/-- **What was written is what is read.** -/
theorem GpuConfig.read_eq {m : Memory} {root phys v mmio : Nat} {p : GpuPartition} {leaf : Leaf}
    (hw : walk m root gpuConfigVaddr = some leaf) (hphys : leaf.phys = phys) (ha : phys % 4096 = 0)
    (h : HoldsConfig m phys p v mmio) :
    GpuConfig.read m root = some ⟨p.id % 2 ^ 32, p.vramSize % 2 ^ 64, p.cuCount % 2 ^ 32,
      v % 2 ^ 64, mmio % 2 ^ 64⟩ := by
  obtain ⟨m₀, hsame⟩ := h
  have hread : ∀ o k, o + k ≤ 4096 → m.readLE (phys + o) k =
      (writeFields m₀ phys (gpuConfigFields p v mmio)).readLE (phys + o) k := fun o k hok =>
    Memory.readLE_congr fun x h1 h2 => hsame x (Memory.frameOf_eq ha (by omega) (by omega))
  have hmagic := hread 0 4 (by decide)
  rw [Nat.add_zero] at hmagic
  unfold GpuConfig.read
  rw [hw, Option.bind_eq_bind, Option.bind_some, hphys]
  simp only [hmagic, hread 4 4 (by decide), hread 8 8 (by decide), hread 0x10 4 (by decide),
    hread 0x18 8 (by decide), hread 0x20 8 (by decide)]
  unfold writeFields gpuConfigFields
  simp only [List.foldl_cons, List.foldl_nil, Nat.add_zero]
  simp (disch := omega) only [Memory.readLE_writeLE_of_disjoint, Memory.readLE_writeLE]
  rfl

section Config
variable {isRam : Nat → Prop} {ops : List BootOp} {s s₁ s₂ : Sys} {image : Slice} {id : Nat}
  {priority : Priority} {p : GpuPartition} {v mmio : Nat}

/-- The address space of a HAL shard with its config page. -/
structure HasConfig (tab : TableMap) (r : Ram) (root phys : Nat) (p : GpuPartition) (v mmio : Nat) :
    Prop where
  tree : TreeOk (2 ^ 35) tab r root
  small : ∀ n, n < 2 ^ 35 → SmallPath r.mem 4 root n
  noTable : tab phys = none
  live : r.Live phys
  aligned : phys % 4096 = 0
  mapped : ∃ leaf, walk r.mem root gpuConfigVaddr = some leaf ∧ leaf.phys = phys
  holds : HoldsConfig r.mem phys p v mmio

/-- **`create_config_page`** gives the shard its config page. -/
theorem hal_config (hb : Booted isRam ops s) (hc : create s image priority = .ok (s₁, id))
    (hp : createConfigPage s₁ id (s₁.pml4Of id) p v mmio = .ok s₂) :
    ∃ tab phys, HasConfig tab s₂.ram (s₁.pml4Of id) phys p v mmio := by
  obtain ⟨own, hok⟩ := hb.bootOk
  obtain ⟨ok⟩ := create_eq_ok hc
  obtain ⟨own₁, hok₁, -⟩ := hok.create ok
  have hstate : (s₁.desc id).state ≠ .free := by
    rw [ok.desc_self]
    exact nofun
  have hspace := hok₁.spaces.shard id hstate
  obtain ⟨phys, r₀, r₁, hi, halloc, hmap, -, rfl⟩ := mapConfigPage_eq_ok hp
  have fr := hok₁.spaces.ram.alloc halloc
  have hfields : ∀ f, f ≠ phys → Memory.SameFrame r₀.mem
      (writeFields r₀.mem phys (gpuConfigFields p v mmio)) f := fun f hf =>
    writeFields_sameFrame fr.aligned hf (gpuConfigFields_fit _ _ _)
  obtain ⟨own₂, adds, maps, hpages⟩ := mapFresh_spec (w := false) hok₁.spaces.ram hspace.root
    (by decide) (by decide) halloc hfields (by decide) (by decide) (by decide) hmap
  have hroot := adds.grows.keeps _ _ hspace.root
  obtain ⟨leaf, hwalk, -, -, howner⟩ := hpages gpuConfigVaddr rfl
  have hleaf := hwalk.symm.trans (maps.page gpuConfigVaddr rfl)
  have hphys : leaf.phys = phys := by
    obtain rfl := Option.some.inj hleaf
    have hlt := fr.lt
    change physAddr phys + 0 = phys
    rw [physAddr_of_aligned fr.aligned (by omega), Nat.add_zero]
  rw [hphys, Memory.frameOf_self fr.aligned] at howner
  refine ⟨treeTables own₂ id, phys, adds.ok.treeOk hroot, fun n hn => adds.ok.smallPath_root hroot hn,
    ?_, ?_, fr.aligned, ⟨leaf, hwalk, hphys⟩, r₀.mem, ?_⟩
  · cases ht : treeTables own₂ id phys with
    | none => rfl
    | some x =>
      obtain ⟨j, -, ho⟩ := treeTables_eq_some.mp (show treeTables own₂ id phys = some (x.1, x.2) from ht)
      rw [howner] at ho
      cases ho
  · exact ((adds.grows.took phys).mp ⟨fr.unowned, _, howner⟩).2
  · exact mapFresh_contents hok₁.spaces.ram hspace.root (by decide) halloc hfields (by decide) hmap

/-- A window above the config page leaves it in place. -/
theorem HasConfig.mapWindow {tab : TableMap} {r r' : Ram} {root phys base mapSize physBase : Nat}
    (h : HasConfig tab r root phys p v mmio) (hin : InRegionAslr base mapSize)
    (hm : mapDevicePages root base physBase (windowPages mapSize) 0 r = .ok r') :
    ∃ tab', HasConfig tab' r' root phys p v mmio ∧
      MapsEach (2 ^ 35) root deviceFlags (windowList base physBase (windowPages mapSize)) r tab' r' := by
  rw [mapDevicePages_eq] at hm
  have hsp : ∀ x ∈ windowList base physBase (windowPages mapSize),
      SmallPath r.mem 4 root (pageOf x.1) := fun x hx => h.small _ (hin.page_lt x hx)
  obtain ⟨tab₁, each⟩ := mapEach_tree (by decide) hin.page_lt h.tree hsp hm
  obtain ⟨hsame, hlive, tab', htree, hno⟩ :=
    mapEach_sameFrame (by decide) hin.page_lt h.tree hsp h.noTable h.live hm
  obtain ⟨leaf, hwalk, hphys⟩ := h.mapped
  obtain ⟨m₀, hholds⟩ := h.holds
  have hconfig : walk r'.mem root gpuConfigVaddr = some leaf := by
    rw [← hwalk]
    refine walk_congr (each.other _ (by decide) (fun x hx he => ?_) _)
    -- the window starts above the config page
    obtain ⟨j, -, hpage⟩ := hin.page hx
    have hstart := hin.start
    simp only [aslrStart] at hstart
    rw [hpage] at he
    change 4 = _ at he
    omega
  exact ⟨tab', ⟨htree, fun n hn => each.small n hn (h.small n hn), hno, hlive, h.aligned,
    ⟨leaf, hconfig, hphys⟩, m₀, hholds.trans hsame⟩,
    ⟨htree, each.before, each.distinct, each.page, each.other, each.small⟩⟩

end Config

/-! ## Building a HAL shard -/

/-- Partition `i` of a BAR, as `create_partitions` leaves it. -/
def halPartition (size i : Nat) : GpuPartition :=
  ⟨i * (size / maxGpuPartitions), size / maxGpuPartitions, totalVirtualCus / maxGpuPartitions, i, u64Max⟩

theorem createPartitions_partition (s : Sys) {size i : Nat} (hi : i < maxGpuPartitions) :
    (createPartitions s size).partition i = halPartition size i := by
  unfold Sys.partition Table.getD
  rw [dif_pos hi]
  rfl

/-- One round of the loop of `init`: the bases are chosen, the shard is created, and its
config page, the MMIO BAR and its partition of the VRAM BAR at `base` are mapped. -/
structure HalBuild (size base i : Nat) where
  isRam : Nat → Prop
  ops : List BootOp
  start : Sys
  seed : BitVec 64
  seed' : BitVec 64
  fuel : Nat
  image : Slice
  mmioPhys : Nat
  mmioSize : Nat
  vramVaddr : Nat
  mmioVaddr : Nat
  id : Nat
  created : Sys
  configured : Sys
  before : Ram
  after : Ram
  booted : Booted isRam ops start
  -- the device registers fit into the region that the bases are drawn from
  mmio_le : mmioSize ≤ 2 ^ 29
  chosen : chooseBases fuel seed (halPartition size i) mmioSize =
    .ok (some (vramVaddr, mmioVaddr, seed'))
  create : create start image .high = .ok (created, id)
  config : createConfigPage created id (created.pml4Of id) (halPartition size i) vramVaddr mmioVaddr =
    .ok configured
  mmio : mapBarToShard configured.ram (created.pml4Of id) mmioPhys mmioSize mmioVaddr mmioSize =
    .ok before
  vram : mapVramPartition before (created.pml4Of id) base (halPartition size i) vramVaddr = .ok after

namespace HalBuild
variable {size base i : Nat} (b : HalBuild size base i)

/-- The root of the shard's page tables. -/
def root : Nat := b.created.pml4Of b.id

/-- The VRAM window: what the last call has added. -/
def Window (va : Nat) (leaf : Leaf) : Prop :=
  va < 0x800000000000 ∧ walk b.before.mem b.root va = none ∧ walk b.after.mem b.root va = some leaf

/-- The pages of the window. -/
def windowSize (size i : Nat) : Nat := windowPages (min (halPartition size i).vramSize maxVramMap)

theorem placed : Placed b.vramVaddr (min (halPartition size i).vramSize maxVramMap) b.mmioVaddr
    b.mmioSize := by
  obtain ⟨found, hfound, hplaced⟩ := chooseBases_spec b.mmio_le b.fuel b.seed (halPartition size i)
  obtain rfl := Except.ok.inj (hfound.symm.trans b.chosen)
  exact (hplaced _ _ _ rfl).1

/-- The partition's share of the BAR starts here. -/
def physStart (base size i : Nat) : Nat := base + (halPartition size i).vramOffset

/-- **The address space after the last call**: the config page is there, and the window. -/
theorem spec : ∃ tab phys,
    HasConfig tab b.after b.root phys (halPartition size i) b.vramVaddr b.mmioVaddr ∧
      MapsEach (2 ^ 35) b.root deviceFlags
        (windowList b.vramVaddr (physStart base size i) (windowSize size i)) b.before tab b.after := by
  obtain ⟨tab₀, phys, hconfig⟩ := hal_config b.booted b.create b.config
  have hmmio := b.mmio
  unfold mapBarToShard at hmmio
  rw [Nat.min_self] at hmmio
  obtain ⟨tab₁, hconfig₁, -⟩ := hconfig.mapWindow b.placed.mmio hmmio
  obtain ⟨tab₂, hconfig₂, each⟩ := hconfig₁.mapWindow b.placed.vram b.vram
  exact ⟨tab₂, phys, hconfig₂, each⟩

/-- The window is made of its pages. -/
theorem Window.page {va : Nat} {leaf : Leaf} (h : b.Window va leaf) :
    ∃ j < windowSize size i, va / 4096 = b.vramVaddr / 4096 + j ∧
      leaf.phys = physAddr (physStart base size i + j * 4096) + va % 4096 := by
  obtain ⟨hlow, hbefore, hafter⟩ := h
  obtain ⟨tab, phys, -, each⟩ := b.spec
  have hpage : pageOf va = va / 4096 := by
    unfold pageOf
    omega
  by_cases hin : ∃ x ∈ windowList b.vramVaddr (physStart base size i) (windowSize size i),
      pageOf va = pageOf x.1
  · obtain ⟨x, hx, he⟩ := hin
    obtain ⟨j, hj, rfl⟩ := mem_windowList.mp hx
    obtain ⟨a', ha'⟩ := each.page _ hx Perms.full
    rw [← he] at ha'
    obtain ⟨leaf', hwalk, hphys⟩ := walk_of_translate (canonical_lower hlow) ha'
    obtain rfl := Option.some.inj (hafter.symm.trans hwalk)
    refine ⟨j, hj, ?_, hphys⟩
    have hstop := b.placed.vram.stop
    simp only [aslrEnd] at hstop
    rw [← hpage, he]
    exact pageOf_window (n := windowSize size i) (by unfold windowSize; omega) hj
  · -- any other page is as it was
    rw [walk_congr (each.other _ (by omega) (fun x hx he => hin ⟨x, hx, he⟩) _), hbefore] at hafter
    cases hafter

/-- Every page of the window is mapped. -/
theorem window_offset {o : Nat} (ho : o / 4096 < windowSize size i) :
    ∃ leaf, b.Window (b.vramVaddr + o) leaf ∧
      leaf.phys = physAddr (physStart base size i + o / 4096 * 4096) + o % 4096 := by
  obtain ⟨tab, phys, -, each⟩ := b.spec
  have halign := b.placed.vram.aligned
  have hstop := b.placed.vram.stop
  simp only [aslrEnd] at hstop
  have hlow : b.vramVaddr + o < 0x800000000000 := by
    unfold windowSize at ho
    omega
  have hx : (b.vramVaddr + o / 4096 * 4096, physStart base size i + o / 4096 * 4096) ∈
      windowList b.vramVaddr (physStart base size i) (windowSize size i) :=
    mem_windowList.mpr ⟨_, ho, rfl⟩
  have hpage : pageOf (b.vramVaddr + o) = pageOf (b.vramVaddr + o / 4096 * 4096) := by
    unfold pageOf
    omega
  obtain ⟨a', ha'⟩ := each.page _ hx Perms.full
  have hbefore := each.before _ hx Perms.full
  rw [← hpage] at ha' hbefore
  obtain ⟨leaf, hwalk, hphys⟩ := walk_of_translate (canonical_lower hlow) ha'
  refine ⟨leaf, ⟨hlow, ?_, hwalk⟩, ?_⟩
  · rw [walk_lower hlow, walkFrom_eq_translate _ (by decide), hbefore]
    rfl
  · rw [hphys]
    have hoff : (b.vramVaddr + o) % 4096 = o % 4096 := by omega
    rw [hoff]

end HalBuild

/-! ## What is accepted for the shard -/

/-- An unveil failed and changed nothing, or has passed the checks. -/
theorem Effect.unveil_cases {s s' : Sys} {a0 a1 a2 : Nat} {r : Option Nat}
    (h : Effect s sysGpuUnveil a0 a1 a2 s' r) : (s' = s ∧ r = some u64Max) ∨
      ∃ part, ownedPartition s s.currentShard = some part ∧ a0 + a1 ≤ (s.partition part).vramSize ∧
        r = some 0 := by
  cases h with
  | unchanged _ failed =>
    rcases failed with (hc | hc | hc | hc) | rfl
    · cases hc
    · cases hc
    · cases hc
    · cases hc
    · exact Or.inl ⟨rfl, rfl⟩
  | unveil _ _ _ owned fits => exact Or.inr ⟨_, owned, fits, rfl⟩
  | exit hnr | yield hnr | send hnr | recv hnr | block hnr | grant hnr | revoke hnr | restrict hnr
  | fsOpen hnr | fsRead hnr | fsClose hnr | mmap hnr | pledge hnr | dma hnr => cases hnr

/-- The current shard owns partition `i`, which has the given size. -/
def OwnsPartition (s : Sys) (i vramSize : Nat) : Prop :=
  ownedPartition s s.currentShard = some i ∧ (s.partition i).vramSize = vramSize

/-- The offsets that are accepted for the shard of partition `i`: those of the allocations its
allocator makes, and those that an unveil or a DMA of its own names. -/
inductive Accepted (i vramSize : Nat) : Nat → Prop
  | alloc {m : Memory} {l : List VramAlloc} {a : VramAlloc} {o : Nat}
      (run : VramRun (vramSize % 2 ^ 32) m l) (made : a ∈ l) (owns : a.Owns o) : Accepted i vramSize o
  | unveil {s s' : Sys} {offset len o : Nat} (owner : OwnsPartition s i vramSize)
      (ok : handleGpuUnveil s offset len = .ok (s', 0)) (start : offset ≤ o) (stop : o < offset + len) :
      Accepted i vramSize o
  | dma {s s' : Sys} {target offset packed o : Nat} (owner : OwnsPartition s i vramSize)
      (ok : handleDma s target offset packed = .ok (s', 0)) (start : offset ≤ o)
      (stop : o < offset + packed % 2 ^ 32) : Accepted i vramSize o

/-- **What is accepted lies in the partition**, unless its size is lost in the 32-bit number. -/
theorem Accepted.lt {i vramSize o : Nat} (h : Accepted i vramSize o) (hsize : vramSize ≤ 0xFFFFFFC0) :
    o < vramSize := by
  cases h with
  | alloc run made owns =>
    rw [Nat.mod_eq_of_lt (by omega)] at run
    have hbound := ((run.tabled (by omega) (run.not_wrapped hsize)).bounds _ made).2.2
    exact owns.2.trans_le hbound
  | unveil owner ok _ stop =>
    have heffect : Effect _ sysGpuUnveil _ _ 0 _ (some 0) := handleGpuUnveil_effect ok
    rcases heffect.unveil_cases with ⟨-, hr⟩ | ⟨part, hown, hfits, -⟩
    · cases hr
    · obtain rfl := Option.some.inj (owner.1.symm.trans hown)
      rw [owner.2] at hfits
      omega
  | dma owner ok _ stop =>
    rcases (handleDma_effect ok).dma_cases with ⟨-, hr⟩ | ⟨src, m, hok, -⟩
    · cases hr
    · obtain rfl := Option.some.inj (owner.1.symm.trans hok.owned)
      have hfits := hok.src_fits
      rw [owner.2] at hfits
      omega

/-! ## The partition and nothing else -/

namespace HalBuild
variable {size base i : Nat} (b : HalBuild size base i)

/-- Through the window at `vaddr`, offset `o` is byte `o` of the partition. -/
def Reaches (vaddr o : Nat) : Prop :=
  ∃ leaf, b.Window (vaddr + o) leaf ∧ leaf.phys = physStart base size i + o

/-- The shard sees its whole partition and nothing else. -/
structure Sees : Prop where
  covers : ∃ cfg, GpuConfig.read b.after.mem b.root = some cfg ∧
    (∀ o < cfg.vramSize, b.Reaches cfg.vramVaddr o) ∧
    ∀ o, Accepted i cfg.vramSize o → b.Reaches cfg.vramVaddr o
  within : ∀ va leaf, b.Window va leaf →
    physStart base size i ≤ leaf.phys ∧ leaf.phys < physStart base size i + (halPartition size i).vramSize

/-- The size and the address in the config page are those of the partition. -/
theorem config_read (hsize : size < 2 ^ 64) : ∃ cfg, GpuConfig.read b.after.mem b.root = some cfg ∧
    cfg.vramSize = size / maxGpuPartitions ∧ cfg.vramVaddr = b.vramVaddr := by
  obtain ⟨tab, phys, hconfig, -⟩ := b.spec
  obtain ⟨leaf, hwalk, hphys⟩ := hconfig.mapped
  refine ⟨_, GpuConfig.read_eq hwalk hphys hconfig.aligned hconfig.holds, ?_, ?_⟩
  · exact Nat.mod_eq_of_lt (Nat.lt_of_le_of_lt (Nat.div_le_self _ _) hsize)
  · have hstop := b.placed.vram.stop
    simp only [aslrEnd] at hstop
    exact Nat.mod_eq_of_lt (by omega)

/-- What the shard sees is mapped, and physical addresses have 52 bits. -/
theorem Sees.fits (h : b.Sees) (hsize : size < 2 ^ 64) (hpos : 0 < size / maxGpuPartitions) :
    size / maxGpuPartitions ≤ maxVramMap ∧
      physStart base size i + size / maxGpuPartitions ≤ 2 ^ 52 := by
  obtain ⟨cfg, hread, hreach, -⟩ := h.covers
  obtain ⟨cfg', hread', hvram, hvaddr⟩ := b.config_read hsize
  obtain rfl := Option.some.inj (hread.symm.trans hread')
  rw [hvram, hvaddr] at hreach
  constructor
  · -- the first byte behind 32 MiB is not in the window
    by_contra hbig
    obtain ⟨leaf, hwindow, -⟩ := hreach maxVramMap (by omega)
    obtain ⟨j, hj, hpage, -⟩ := Window.page b hwindow
    have halign := b.placed.vram.aligned
    have hsame : (halPartition size i).vramSize = size / maxGpuPartitions := rfl
    unfold windowSize windowPages at hj
    rw [hsame] at hj
    simp only [maxVramMap] at hbig hj hpage
    omega
  · obtain ⟨leaf, hwindow, hphys⟩ := hreach (size / maxGpuPartitions - 1) (by omega)
    have hlt := walk_phys_lt hwindow.2.2
    omega

/-- **A partition that fits is seen.** -/
theorem sees (hsize : size < 2 ^ 64) (hbase : base % 4096 = 0)
    (hpage : size / maxGpuPartitions % 4096 = 0) (hcap : size / maxGpuPartitions ≤ maxVramMap)
    (hphys : physStart base size i + size / maxGpuPartitions ≤ 2 ^ 52) : b.Sees := by
  have hpages : windowSize size i = size / maxGpuPartitions / 4096 := by
    unfold windowSize windowPages
    change (min (size / maxGpuPartitions) maxVramMap + 4095) / 4096 = _
    rw [Nat.min_eq_left hcap]
    omega
  have hstart : physStart base size i % 4096 = 0 := by
    unfold physStart
    change (base + i * (size / maxGpuPartitions)) % 4096 = 0
    rw [Nat.add_mod, hbase, Nat.mul_mod, hpage, Nat.mul_zero]
  -- no bit of an address in the partition is lost
  have hkeep : ∀ j, j < windowSize size i →
      physAddr (physStart base size i + j * 4096) = physStart base size i + j * 4096 := by
    intro j hj
    rw [hpages] at hj
    exact physAddr_of_aligned (by omega) (by omega)
  have hreach : ∀ o, o < size / maxGpuPartitions → b.Reaches b.vramVaddr o := by
    intro o ho
    have ho' : o / 4096 < windowSize size i := by
      rw [hpages]
      omega
    obtain ⟨leaf, hwindow, hleaf⟩ := b.window_offset ho'
    refine ⟨leaf, hwindow, ?_⟩
    rw [hleaf, hkeep _ ho']
    omega
  obtain ⟨cfg, hread, hvram, hvaddr⟩ := b.config_read hsize
  refine ⟨⟨cfg, hread, ?_, ?_⟩, ?_⟩
  · rw [hvram, hvaddr]
    exact hreach
  · rw [hvram, hvaddr]
    intro o ho
    refine hreach o (ho.lt ?_)
    simp only [maxVramMap] at hcap
    omega
  · intro va leaf hwindow
    obtain ⟨j, hj, -, hleaf⟩ := Window.page b hwindow
    rw [hkeep j hj] at hleaf
    rw [hpages] at hj
    change _ ∧ _ < _ + size / maxGpuPartitions
    omega

end HalBuild

/-- The windows of two shards share no physical page. -/
def WindowsApart {size base i j : Nat} (b : HalBuild size base i) (b' : HalBuild size base j) : Prop :=
  ∀ va leaf va' leaf', b.Window va leaf → b'.Window va' leaf' → leaf.phys / 4096 ≠ leaf'.phys / 4096

/-! ### Trials -/

/-- A HAL shard up to its MMIO window of one page, on a machine with one free region. -/
def trialHal (p : GpuPartition) (v mmio : Nat) : Kernel (Sys × Nat × Sys × Ram) := do
  let (s₁, id) ← create plainSys emptyImage .high
  let s₂ ← createConfigPage s₁ id (s₁.pml4Of id) p v mmio
  let r ← mapBarToShard s₂.ram (s₁.pml4Of id) 0xFEB00000 4096 mmio 4096
  return (s₁, id, s₂, r)

/-- The trial succeeds and leaves frames for the tables of 32 MiB. -/
def trialOk (p : GpuPartition) (v mmio : Nat) : Bool :=
  (trialHal p v mmio).toOption.any fun x => 51 ≤ x.2.2.2.freeCount

/-- **A trial leads to a shard**: the VRAM window has at most 8192 pages, and the region has
frames for their tables. -/
theorem trial_build {size i v mmio : Nat} {seed' : BitVec 64} (base : Nat)
    (hchosen : chooseBases 1 1#64 (halPartition size i) 4096 = .ok (some (v, mmio, seed')))
    (htrial : trialOk (halPartition size i) v mmio = true) : Nonempty (HalBuild size base i) := by
  unfold trialOk at htrial
  cases hrun : trialHal (halPartition size i) v mmio with
  | error e =>
    rw [hrun] at htrial
    cases htrial
  | ok x =>
    obtain ⟨s₁, id, s₂, r⟩ := x
    rw [hrun] at htrial
    have hfree : 51 ≤ r.freeCount := of_decide_eq_true htrial
    obtain ⟨⟨s₁', id'⟩, hc, hrun⟩ := Kernel.bind_eq_ok hrun
    obtain ⟨s₂', hp, hrun⟩ := Kernel.bind_eq_ok hrun
    obtain ⟨r', hmmio, hrun⟩ := Kernel.bind_eq_ok hrun
    cases hrun
    obtain ⟨found, hfound, hplaced⟩ :=
      chooseBases_spec (show 4096 ≤ 2 ^ 29 by decide) 1 1#64 (halPartition size i)
    obtain rfl := Except.ok.inj (hfound.symm.trans hchosen)
    have hin := (hplaced _ _ _ rfl).1
    obtain ⟨tab, htree, hsmall, hunmapped⟩ := hal_vram_free (Booted.initial plainSys_initial) hc hp hin
      hmmio (base + (halPartition size i).vramOffset)
    -- the last tables of the window
    have hgroups : ∀ x ∈ windowList v (base + (halPartition size i).vramOffset)
        (windowPages (min (halPartition size i).vramSize maxVramMap)),
        missingTables r.mem 4 (s₁.pml4Of id) (pageOf x.1) ≠ 0 →
          pageOf x.1 / 512 ∈ Finset.Icc (v / 4096 / 512) (v / 4096 / 512 + 16) := by
      intro x hx _
      obtain ⟨j, hj, hpage⟩ := hin.vram.page hx
      have hle := Nat.min_le_right (halPartition size i).vramSize maxVramMap
      unfold windowPages at hj
      rw [Finset.mem_Icc]
      simp only [maxVramMap] at *
      omega
    have hsupply : 3 * (Finset.Icc (v / 4096 / 512) (v / 4096 / 512 + 16)).card ≤ r.supply := by
      rw [Nat.card_Icc]
      unfold Ram.supply
      omega
    obtain ⟨after, hafter⟩ := mapEach_returns (show FlagsOk deviceFlags by decide) (by decide)
      hin.vram.page_lt htree
      (fun x hx => hsmall _ (hin.vram.page_lt x hx)) (hin.vram.distinct _) hunmapped hgroups hsupply
    rw [← mapDevicePages_eq] at hafter
    exact ⟨⟨_, _, _, _, _, _, _, _, _, _, _, _, _, _, _, _, Booted.initial plainSys_initial,
      by decide, hchosen, hc, hp, hmmio, hafter⟩⟩

/-- **A HAL shard sees its whole partition and nothing else** exactly if the BAR is not larger
than 64 MiB and ends below 2^52. -/
theorem hal_sees_partition {k base : Nat} (hk : 13 ≤ k) (hk64 : k < 64) (hbase : base % 4096 = 0)
    (b₀ : HalBuild (2 ^ k) base 0) (b₁ : HalBuild (2 ^ k) base 1) :
    (b₀.Sees ∧ b₁.Sees ∧ WindowsApart b₀ b₁) ↔ 2 ^ k ≤ 64 * 1024 * 1024 ∧ base + 2 ^ k ≤ 2 ^ 52 := by
  have hsize : 2 ^ k < 2 ^ 64 := Nat.pow_lt_pow_right (by decide) hk64
  -- a share is a whole number of pages
  obtain ⟨n, hn⟩ : ∃ n, 2 ^ k = 8192 * (n + 1) := by
    refine ⟨2 ^ (k - 13) - 1, ?_⟩
    have hpos : 0 < 2 ^ (k - 13) := Nat.two_pow_pos _
    rw [Nat.sub_add_cancel hpos, show 8192 = 2 ^ 13 by decide, ← Nat.pow_add]
    congr 1
    omega
  have hhalf : 2 ^ k / maxGpuPartitions = 4096 * (n + 1) := by
    simp only [maxGpuPartitions]
    omega
  have hstart₀ : HalBuild.physStart base (2 ^ k) 0 = base := by
    unfold HalBuild.physStart halPartition
    simp only [Nat.zero_mul, Nat.add_zero]
  have hstart₁ : HalBuild.physStart base (2 ^ k) 1 = base + 4096 * (n + 1) := by
    unfold HalBuild.physStart halPartition
    simp only [Nat.one_mul, hhalf]
  constructor
  · rintro ⟨-, h₁, -⟩
    obtain ⟨hcap, hphys⟩ := HalBuild.Sees.fits b₁ h₁ hsize (by omega)
    rw [hhalf] at hcap hphys
    rw [hstart₁] at hphys
    simp only [maxVramMap] at hcap
    omega
  · rintro ⟨hcap, hphys⟩
    have hmap : 2 ^ k / maxGpuPartitions ≤ maxVramMap := by
      rw [hhalf]
      simp only [maxVramMap]
      omega
    have h₀ : b₀.Sees := b₀.sees hsize hbase (by omega) hmap (by omega)
    have h₁ : b₁.Sees := b₁.sees hsize hbase (by omega) hmap (by omega)
    refine ⟨h₀, h₁, fun va leaf va' leaf' hw hw' => ?_⟩
    have hin := h₀.within va leaf hw
    have hin' := h₁.within va' leaf' hw'
    have hshare : (halPartition (2 ^ k) 0).vramSize = 4096 * (n + 1) := hhalf
    rw [hstart₀, hshare] at hin
    rw [hstart₁] at hin'
    omega

set_option maxRecDepth 100000 in
theorem trialOk_small : ∀ i ∈ [0, 1],
    trialOk (halPartition (2 ^ 13) i) 0x280C4000 0x1B001000 = true := by
  decide +kernel

theorem chooseBases_8k : ∀ i ∈ [0, 1], chooseBases 1 1#64 (halPartition (2 ^ 13) i) 4096 =
    .ok (some (0x280C4000, 0x1B001000, prngNext (prngNext 1#64))) := by
  decide +kernel

theorem hal_sees_partition_small :
    ∃ (b₀ : HalBuild (2 ^ 13) 0x100000000 0) (b₁ : HalBuild (2 ^ 13) 0x100000000 1),
      b₀.Sees ∧ b₁.Sees ∧ WindowsApart b₀ b₁ := by
  obtain ⟨b₀⟩ := trial_build 0x100000000 (chooseBases_8k 0 (by decide)) (trialOk_small 0 (by decide))
  obtain ⟨b₁⟩ := trial_build 0x100000000 (chooseBases_8k 1 (by decide)) (trialOk_small 1 (by decide))
  exact ⟨b₀, b₁, (hal_sees_partition (by decide) (by decide) (by decide) b₀ b₁).mpr (by decide)⟩

set_option maxRecDepth 100000 in
theorem trialOk_128m : trialOk (halPartition (2 ^ 27) 0) 0x17041000 0x1B001000 = true := by
  decide +kernel

theorem chooseBases_128m : chooseBases 1 1#64 (halPartition (2 ^ 27) 0) 4096 =
    .ok (some (0x17041000, 0x1B001000, prngNext (prngNext 1#64))) := by
  decide +kernel

/-- Half of a partition of 64 MiB is out of the shard's reach. -/
theorem hal_misses_half : ∃ b₀ : HalBuild (2 ^ 27) 0x100000000 0, ¬ b₀.Sees := by
  obtain ⟨b₀⟩ := trial_build 0x100000000 chooseBases_128m trialOk_128m
  exact ⟨b₀, fun h => absurd (HalBuild.Sees.fits b₀ h (by decide) (by decide)).1 (by decide)⟩

end Coconut
