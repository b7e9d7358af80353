import Coconut.ImageLoad
import Coconut.Windows
import Mathlib.Logic.Function.Iterate

/-!
# Where the BAR windows go

`gpu::init` draws the virtual bases of the VRAM and the MMIO window of every HAL shard from
a xorshift generator and draws the second again until the two do not overlap.  The overlap
test counts bytes while the mapping counts pages; both agree because the bases are
page-aligned.  All that the image loader, the config page, `mmap` and the stack map lies
below the region the bases are drawn from.
-/
namespace Coconut
open Paging

@[simp] def aslrStart : Nat := 0x800000
@[simp] def aslrEnd : Nat := 0x3F000000

/-! ## The generator -/

/-- The seed made of the time stamp counter. -/
def prngSeed (tsc : BitVec 64) : BitVec 64 := tsc ||| 1#64

/-- One round of xorshift64: the new state, which is also the number returned. -/
def prngNext (s : BitVec 64) : BitVec 64 :=
  let s := s ^^^ (s <<< 13)
  let s := s ^^^ (s >>> 7)
  s ^^^ (s <<< 17)

theorem prngSeed_ne_zero (tsc : BitVec 64) : prngSeed tsc ≠ 0#64 := by
  intro h
  have hbit : (prngSeed tsc).getLsbD 0 = true := by simp [prngSeed]
  rw [h] at hbit
  cases hbit

/-- A word that a left shift does not change has no lowest bit. -/
theorem xor_shiftLeft_eq_zero {w k : Nat} (hk : 0 < k) {x : BitVec w} (h : x ^^^ (x <<< k) = 0#w) :
    x = 0#w := by
  have hx : x = x <<< k := BitVec.xor_eq_zero_iff.mp h
  have hbits : ∀ i, x.getLsbD i = false := by
    intro i
    induction i using Nat.strongRecOn with
    | ind i ih =>
      rw [hx, BitVec.getLsbD_shiftLeft]
      by_cases hik : i < k
      · simp [hik]
      · rw [ih (i - k) (by omega), Bool.and_false]
  exact BitVec.eq_of_getLsbD_eq fun i _ => by rw [hbits i, BitVec.getLsbD_zero]

/-- A word that a right shift does not change has no highest bit. -/
theorem xor_shiftRight_eq_zero {w k : Nat} (hk : 0 < k) {x : BitVec w}
    (h : x ^^^ (x >>> k) = 0#w) : x = 0#w := by
  have hx : x = x >>> k := BitVec.xor_eq_zero_iff.mp h
  have hbits : ∀ d i, w ≤ i + d → x.getLsbD i = false := by
    intro d
    induction d with
    | zero => exact fun i hi => BitVec.getLsbD_of_ge x i hi
    | succ d ih =>
      intro i hi
      rw [hx, BitVec.getLsbD_ushiftRight]
      exact ih (k + i) (by omega)
  exact BitVec.eq_of_getLsbD_eq fun i _ => by
    rw [hbits w i (Nat.le_add_left w i), BitVec.getLsbD_zero]

theorem prngNext_ne_zero {s : BitVec 64} (h : s ≠ 0#64) : prngNext s ≠ 0#64 := by
  intro hzero
  have h3 := xor_shiftLeft_eq_zero (by decide) hzero
  have h2 := xor_shiftRight_eq_zero (by decide) h3
  exact h (xor_shiftLeft_eq_zero (by decide) h2)

/-- **The state never becomes zero.** -/
theorem prng_iterate_ne_zero {seed : BitVec 64} (h : seed ≠ 0#64) (n : Nat) :
    prngNext^[n] seed ≠ 0#64 := by
  induction n with
  | zero => exact h
  | succ n ih =>
    rw [Function.iterate_succ_apply']
    exact prngNext_ne_zero ih

/-! ## The draws -/

/-- A random page-aligned address for a mapping of `mapSize` bytes, and the next state. -/
def randomVaddr (s : BitVec 64) (mapSize : Nat) : Kernel (Nat × BitVec 64) := do
  let range := (aslrEnd - aslrStart + 2 ^ 64 - mapSize) % 2 ^ 64
  let pages := range / 4096
  assertThat (pages != 0) .divideByZero
  let s := prngNext s
  return (wrappingAdd aslrStart (s.toNat % pages * 4096), s)

/-- The condition of the retry loop. -/
def windowsOverlap (vramVaddr vramMapSize mmioVaddr mmioSize : Nat) : Bool :=
  mmioVaddr < wrappingAdd vramVaddr vramMapSize && vramVaddr < wrappingAdd mmioVaddr mmioSize

/-- The retry loop of `init`; `none` if it has not come to an end after `fuel` rounds. -/
def retryMmio (vramVaddr vramMapSize mmioSize : Nat) :
    Nat → Nat → BitVec 64 → Kernel (Option (Nat × BitVec 64))
  | 0, _, _ => .ok none
  | fuel + 1, mmioVaddr, s =>
    if windowsOverlap vramVaddr vramMapSize mmioVaddr mmioSize then do
      let (mmioVaddr, s) ← randomVaddr s mmioSize
      retryMmio vramVaddr vramMapSize mmioSize fuel mmioVaddr s
    else .ok (some (mmioVaddr, s))

/-- The bases `init` chooses for one partition: VRAM, MMIO, and the next state. -/
def chooseBases (fuel : Nat) (s : BitVec 64) (p : GpuPartition) (mmioSize : Nat) :
    Kernel (Option (Nat × Nat × BitVec 64)) := do
  let vramMapSize := min p.vramSize maxVramMap
  let (vramVaddr, s) ← randomVaddr s vramMapSize
  let (mmioVaddr, s) ← randomVaddr s mmioSize
  let found ← retryMmio vramVaddr vramMapSize mmioSize fuel mmioVaddr s
  return found.map fun (mmioVaddr, s) => (vramVaddr, mmioVaddr, s)

/-- The window, rounded up to pages, lies in the region. -/
structure InRegionAslr (base mapSize : Nat) : Prop where
  aligned : base % 4096 = 0
  start : aslrStart ≤ base
  stop : base + windowPages mapSize * 4096 ≤ aslrEnd

/-- **A draw** neither underflows nor divides by zero, and its window fits. -/
theorem randomVaddr_eq_ok {mapSize : Nat} (h : mapSize ≤ 2 ^ 29) (s : BitVec 64) :
    ∃ base, randomVaddr s mapSize = .ok (base, prngNext s) ∧ InRegionAslr base mapSize := by
  have hrange : (aslrEnd - aslrStart + 2 ^ 64 - mapSize) % 2 ^ 64 = 0x3E800000 - mapSize := by
    simp only [aslrEnd, aslrStart]
    omega
  have hpages : (0x3E800000 - mapSize) / 4096 ≠ 0 := by omega
  have hdraw := Nat.mod_lt (prngNext s).toNat (Nat.pos_of_ne_zero hpages)
  generalize hk : (prngNext s).toNat % ((0x3E800000 - mapSize) / 4096) = k at hdraw
  refine ⟨0x800000 + k * 4096, ?_, ?_⟩
  · have hassert : assertThat ((0x3E800000 - mapSize) / 4096 != 0) .divideByZero = .ok () :=
      if_pos (bne_iff_ne.mpr hpages)
    have hbase : wrappingAdd aslrStart (k * 4096) = 0x800000 + k * 4096 :=
      wrappingAdd_eq (by simp only [aslrStart]; omega)
    unfold randomVaddr
    simp only [hrange, hassert, hk, hbase, Kernel.ok_bind]
    rfl
  · constructor
    · omega
    · simp only [aslrStart]
      omega
    · simp only [aslrEnd, windowPages]
      omega

/-! ## The chosen bases -/

/-- The two windows, rounded up to pages, lie in the region and share no page. -/
structure Placed (vramVaddr vramMapSize mmioVaddr mmioSize : Nat) : Prop where
  vram : InRegionAslr vramVaddr vramMapSize
  mmio : InRegionAslr mmioVaddr mmioSize
  apart : vramVaddr + windowPages vramMapSize * 4096 ≤ mmioVaddr ∨
    mmioVaddr + windowPages mmioSize * 4096 ≤ vramVaddr

/-- Between page-aligned bases, windows that share no byte share no page. -/
theorem Placed.of_overlap {vramVaddr vramMapSize mmioVaddr mmioSize : Nat}
    (hv : InRegionAslr vramVaddr vramMapSize) (hm : InRegionAslr mmioVaddr mmioSize)
    (h : windowsOverlap vramVaddr vramMapSize mmioVaddr mmioSize = false) :
    Placed vramVaddr vramMapSize mmioVaddr mmioSize := by
  refine ⟨hv, hm, ?_⟩
  obtain ⟨hva, -, hvstop⟩ := hv
  obtain ⟨hma, -, hmstop⟩ := hm
  simp only [aslrEnd] at hvstop hmstop
  unfold windowPages at *
  unfold windowsOverlap at h
  rw [wrappingAdd_eq (by omega), wrappingAdd_eq (by omega), Bool.and_eq_false_iff,
    decide_eq_false_iff_not, decide_eq_false_iff_not] at h
  omega

/-- The retry loop does not panic, and where it ends the windows are apart. -/
theorem retryMmio_spec {vramVaddr vramMapSize mmioSize : Nat} (hsize : mmioSize ≤ 2 ^ 29)
    (hv : InRegionAslr vramVaddr vramMapSize) (fuel : Nat) :
    ∀ {mmioVaddr : Nat} (s : BitVec 64), InRegionAslr mmioVaddr mmioSize →
      ∃ found, retryMmio vramVaddr vramMapSize mmioSize fuel mmioVaddr s = .ok found ∧
        ∀ m s', found = some (m, s') → Placed vramVaddr vramMapSize m mmioSize ∧
          (s ≠ 0#64 → s' ≠ 0#64) := by
  induction fuel with
  | zero =>
    intro mmioVaddr s _
    exact ⟨none, rfl, nofun⟩
  | succ fuel ih =>
    intro mmioVaddr s hm
    unfold retryMmio
    cases hover : windowsOverlap vramVaddr vramMapSize mmioVaddr mmioSize with
    | false =>
      refine ⟨some (mmioVaddr, s), rfl, ?_⟩
      rintro m s' he
      obtain ⟨rfl, rfl⟩ := Prod.mk.inj (Option.some.inj he)
      exact ⟨Placed.of_overlap hv hm hover, id⟩
    | true =>
      obtain ⟨base, hdraw, hbase⟩ := randomVaddr_eq_ok hsize s
      rw [if_pos rfl, hdraw, Kernel.ok_bind]
      obtain ⟨found, hfound, hplaced⟩ := ih (prngNext s) hbase
      refine ⟨found, hfound, fun m s' he => ?_⟩
      obtain ⟨hin, hne⟩ := hplaced m s' he
      exact ⟨hin, fun hs => hne (prngNext_ne_zero hs)⟩

/-- **The choice** does not panic, and the bases it ends with are good. -/
theorem chooseBases_spec {mmioSize : Nat} (hsize : mmioSize ≤ 2 ^ 29) (fuel : Nat) (s : BitVec 64)
    (p : GpuPartition) : ∃ found, chooseBases fuel s p mmioSize = .ok found ∧
      ∀ v m s', found = some (v, m, s') → Placed v (min p.vramSize maxVramMap) m mmioSize ∧
        (s ≠ 0#64 → s' ≠ 0#64) := by
  have hvram : min p.vramSize maxVramMap ≤ 2 ^ 29 :=
    Nat.le_trans (Nat.min_le_right _ _) (by decide)
  obtain ⟨v, hdraw, hv⟩ := randomVaddr_eq_ok hvram s
  obtain ⟨m, hdraw', hm⟩ := randomVaddr_eq_ok hsize (prngNext s)
  obtain ⟨found, hfound, hplaced⟩ := retryMmio_spec hsize hv fuel (prngNext (prngNext s)) hm
  refine ⟨found.map fun (m, s) => (v, m, s), ?_, ?_⟩
  · unfold chooseBases
    simp only [hdraw, hdraw', hfound, Kernel.ok_bind]
    rfl
  · intro v' m' s' he
    obtain ⟨⟨m₁, s₁⟩, hsome, hpair⟩ := Option.map_eq_some_iff.mp he
    obtain ⟨rfl, hrest⟩ := Prod.mk.inj hpair
    obtain ⟨rfl, rfl⟩ := Prod.mk.inj hrest
    obtain ⟨hin, hne⟩ := hplaced m₁ s₁ hsome
    exact ⟨hin, fun hs => hne (prngNext_ne_zero (prngNext_ne_zero hs))⟩

/-! ## The windows in the address space -/

section Hal
variable {isRam : Nat → Prop} {ops : List BootOp} {s s₁ s₂ : Sys} {image : Slice} {id : Nat}
  {priority : Priority} {p : GpuPartition} {v m : Nat}

/-- `create` maps the image and the stack. -/
theorem created_leaf (hb : Booted isRam ops s) (hc : create s image priority = .ok (s₁, id))
    {va : Nat} {leaf : Leaf} (hv : va < 0x800000000000)
    (hw : walk s₁.ram.mem (s₁.pml4Of id) va = some leaf) :
    va < (s₁.desc id).imageEnd ∨ shardStackVaddr ≤ va ∧ va < shardStackVaddr + 4096 := by
  obtain ⟨own, hok⟩ := hb.bootOk
  obtain ⟨ok⟩ := create_eq_ok hc
  obtain ⟨own₁, hok₁, hgains, -⟩ := hok.create_image ok
  have hstate : (s₁.desc id).state ≠ .free := by
    rw [ok.desc_self]
    exact nofun
  rcases hgains.leaves id va leaf hstate hv hw with ⟨hfree, -⟩ | ⟨-, elf, hparse, hnew⟩
  · exact absurd ok.free hfree
  · obtain rfl := Except.ok.inj (ok.parsed.symm.trans hparse)
    rcases hnew with ⟨seg, hseg, -, -, -, h2, -⟩ | ⟨h1, h2, -⟩
    · exact Or.inl (Nat.lt_of_lt_of_le h2 (ok.tiles.extent_le hseg))
    · exact Or.inr ⟨h1, h2⟩

/-- **The config page is not found mapped** unless the image reaches it. -/
theorem config_not_taken (hb : Booted isRam ops s) (hc : create s image priority = .ok (s₁, id))
    (himage : (s₁.desc id).imageEnd ≤ gpuConfigVaddr) (p : GpuPartition) (v m : Nat) :
    createConfigPage s₁ id (s₁.pml4Of id) p v m ≠ .error .alreadyMapped := by
  intro htaken
  obtain ⟨own, hok⟩ := hb.bootOk
  obtain ⟨ok⟩ := create_eq_ok hc
  obtain ⟨own₁, hok₁, -⟩ := hok.create ok
  have hroot : own₁ (s₁.pml4Of id) = some (.node id 4 0) :=
    (hok₁.spaces.shard id (by rw [ok.desc_self]; exact nofun)).root
  have hempty : walk s₁.ram.mem (s₁.pml4Of id) gpuConfigVaddr = none := by
    cases hw : walk s₁.ram.mem (s₁.pml4Of id) gpuConfigVaddr with
    | none => rfl
    | some leaf =>
      rcases created_leaf hb hc (by decide) hw with h | h
      · exact absurd himage (Nat.not_le.mpr h)
      · exact absurd h.1 (by decide)
  obtain ⟨phys, r₀, halloc, hmap⟩ := mapConfigPage_taken htaken (by decide)
  have fr := hok₁.spaces.ram.alloc halloc
  have hfields : ∀ f, f ≠ phys → Memory.SameFrame r₀.mem
      (writeFields r₀.mem phys (gpuConfigFields p v m)) f := fun f hf =>
    writeFields_sameFrame fr.aligned hf (gpuConfigFields_fit _ _ _)
  have hram : RamOk (Owners.assign _ phys (.node id 0 (gpuConfigVaddr / 4096))) _ _ :=
    fr.page_ok hfields
  have hroot' := (Owners.extends_assign (.node id 0 (gpuConfigVaddr / 4096)) fr.unowned) _ _ hroot
  refine map4k_taken (hram.treeOk hroot') (by decide) (hram.smallPath_root hroot' (by decide)) hmap
    Perms.full (translate_of_walk_none (n := pageOf gpuConfigVaddr) (by decide) ?_)
  exact (walk_fresh hok₁.spaces.ram fr hroot hfields (by decide)).trans hempty

/-- **The address space of a HAL shard before its windows are mapped**: a tree with nothing in
the region of the windows. -/
theorem hal_space (hb : Booted isRam ops s) (hc : create s image priority = .ok (s₁, id))
    (hp : createConfigPage s₁ id (s₁.pml4Of id) p v m = .ok s₂) :
    ∃ own, RamOk own isRam s₂.ram ∧ own (s₁.pml4Of id) = some (.node id 4 0) ∧
      ∀ va leaf, va < 0x800000000000 → walk s₂.ram.mem (s₁.pml4Of id) va = some leaf →
        va < aslrStart := by
  obtain ⟨own, hok⟩ := hb.bootOk
  obtain ⟨ok⟩ := create_eq_ok hc
  obtain ⟨own₁, hok₁, -, hbytes⟩ := hok.create_image ok
  have hstate : (s₁.desc id).state ≠ .free := by
    rw [ok.desc_self]
    exact nofun
  obtain ⟨-, own₂, hok₂, hgains₂⟩ := hok₁.configPage (.gpuConfigPage id 0 v m) ⟨ok.id_lt, hstate⟩
    (by decide) (by decide) (gpuConfigFields_fit _ _ _) hp rfl fun _ _ hl => hl
  have hroot := hgains₂.root id hstate
  have hstate₂ : (s₂.desc id).state ≠ .free := by
    obtain ⟨phys, r₀, r₁, hi, -, -, -, rfl⟩ := mapConfigPage_eq_ok hp
    rw [Sys.desc_modifyShard _ hi, if_pos rfl]
    exact hstate
  have hspace := (hok₂.spaces.shard id hstate₂).root
  rw [hroot] at hspace
  refine ⟨own₂, hok₂.spaces.ram, hspace, fun va leaf hv hw => ?_⟩
  have hw₂ : walk s₂.ram.mem (s₂.desc id).pml4Phys va = some leaf := by rwa [hroot]
  rcases hgains₂.leaves id va leaf hstate₂ hv hw₂ with ⟨-, hw₁⟩ | ⟨-, hconfig⟩
  · rcases created_leaf hb hc hv hw₁ with himage | ⟨-, hstack⟩
    · exact Nat.lt_of_lt_of_le himage (Nat.le_trans (ok.imageEnd_le hbytes) (by decide))
    · exact hstack
  · exact Nat.lt_trans hconfig.2.1 (by decide)

/-- A window in the region names its pages in order. -/
theorem InRegionAslr.page {base mapSize physBase : Nat} (h : InRegionAslr base mapSize)
    {x : Nat × Nat} (hx : x ∈ windowList base physBase (windowPages mapSize)) :
    ∃ j, j < windowPages mapSize ∧ pageOf x.1 = base / 4096 + j := by
  obtain ⟨j, hj, rfl⟩ := mem_windowList.mp hx
  have hstop := h.stop
  simp only [aslrEnd] at hstop
  have hpage : pageOf (base + j * 4096) = base / 4096 + j := pageOf_window (by omega) hj
  exact ⟨j, hj, hpage⟩

theorem InRegionAslr.page_lt {base mapSize physBase : Nat} (h : InRegionAslr base mapSize)
    (x : Nat × Nat) (hx : x ∈ windowList base physBase (windowPages mapSize)) :
    pageOf x.1 < 2 ^ 35 := by
  obtain ⟨j, hj, hpage⟩ := h.page hx
  have hstop := h.stop
  simp only [aslrEnd] at hstop
  omega

theorem InRegionAslr.distinct {base mapSize : Nat} (h : InRegionAslr base mapSize) (physBase : Nat) :
    ((windowList base physBase (windowPages mapSize)).map fun x => pageOf x.1).Nodup := by
  have hstop := h.stop
  simp only [aslrEnd] at hstop
  exact windowList_distinct _ _ (by omega)

/-- Above the stack nothing is mapped yet. -/
theorem hal_region_free (hb : Booted isRam ops s) (hc : create s image priority = .ok (s₁, id))
    (hp : createConfigPage s₁ id (s₁.pml4Of id) p v m = .ok s₂) {n : Nat} (hn : n < 2 ^ 35)
    (hstart : aslrStart ≤ n * 4096) :
    translate s₂.ram.mem 4 (s₁.pml4Of id) n Perms.full = none := by
  obtain ⟨-, -, -, hlow⟩ := hal_space hb hc hp
  refine translate_of_walk_none hn ?_
  cases hw : walk s₂.ram.mem (s₁.pml4Of id) (n * 4096) with
  | none => rfl
  | some leaf => exact absurd (hlow _ leaf (by omega) hw) (Nat.not_lt.mpr hstart)

/-- **The VRAM window is still free** when the MMIO window is mapped. -/
theorem hal_vram_free (hb : Booted isRam ops s) (hc : create s image priority = .ok (s₁, id))
    (hp : createConfigPage s₁ id (s₁.pml4Of id) p v m = .ok s₂) {mmioSize mmioPhys : Nat}
    (h : Placed v (min p.vramSize maxVramMap) m mmioSize) {r : Ram}
    (hmmio : mapBarToShard s₂.ram (s₁.pml4Of id) mmioPhys mmioSize m mmioSize = .ok r)
    (vramPhys : Nat) :
    ∃ tab, TreeOk (2 ^ 35) tab r (s₁.pml4Of id) ∧
      (∀ n, n < 2 ^ 35 → SmallPath r.mem 4 (s₁.pml4Of id) n) ∧
      ∀ x ∈ windowList v vramPhys (windowPages (min p.vramSize maxVramMap)),
        translate r.mem 4 (s₁.pml4Of id) (pageOf x.1) Perms.full = none := by
  obtain ⟨own, hram, hroot, -⟩ := hal_space hb hc hp
  have hsmall : ∀ n, n < 2 ^ 35 → SmallPath s₂.ram.mem 4 (s₁.pml4Of id) n := fun n hn =>
    hram.smallPath_root hroot hn
  unfold mapBarToShard at hmmio
  rw [Nat.min_self, mapDevicePages_eq] at hmmio
  obtain ⟨tab', each⟩ := mapEach_tree (by decide) h.mmio.page_lt (hram.treeOk hroot)
    (fun x hx => hsmall _ (h.mmio.page_lt x hx)) hmmio
  refine ⟨tab', each.tree, fun n hn => each.small n hn (hsmall n hn), fun x hx => ?_⟩
  obtain ⟨j, hj, hpage⟩ := h.vram.page hx
  have hlt := h.vram.page_lt x hx
  have hstart := h.vram.start
  have halign := h.vram.aligned
  have halign' := h.mmio.aligned
  have hapart := h.apart
  simp only [aslrStart] at hstart
  rw [each.other _ hlt, hal_region_free hb hc hp hlt (by simp only [aslrStart]; omega)]
  -- the page is not one of the MMIO window either
  intro y hy he
  obtain ⟨j', hj', hpage'⟩ := h.mmio.page hy
  omega

/-- **No window is found mapped.**  The MMIO window goes into an empty region, and the VRAM
window beside it. -/
theorem windows_not_taken (hb : Booted isRam ops s) (hc : create s image priority = .ok (s₁, id))
    (hp : createConfigPage s₁ id (s₁.pml4Of id) p v m = .ok s₂) {mmioSize : Nat}
    (h : Placed v (min p.vramSize maxVramMap) m mmioSize) (mmioPhys vramPhys : Nat) :
    mapBarToShard s₂.ram (s₁.pml4Of id) mmioPhys mmioSize m mmioSize ≠ .error .alreadyMapped ∧
      ∀ r, mapBarToShard s₂.ram (s₁.pml4Of id) mmioPhys mmioSize m mmioSize = .ok r →
        mapVramPartition r (s₁.pml4Of id) vramPhys p v ≠ .error .alreadyMapped := by
  obtain ⟨own, hram, hroot, -⟩ := hal_space hb hc hp
  refine ⟨fun htaken => ?_, fun r hmmio htaken => ?_⟩
  · unfold mapBarToShard at htaken
    rw [Nat.min_self, mapDevicePages_eq] at htaken
    obtain ⟨x, hx, hmapped⟩ := mapEach_taken (by decide) h.mmio.page_lt (hram.treeOk hroot)
      (fun x hx => hram.smallPath_root hroot (h.mmio.page_lt x hx)) (h.mmio.distinct _) htaken
    obtain ⟨j, hj, hpage⟩ := h.mmio.page hx
    have hstart := h.mmio.start
    refine hmapped Perms.full (hal_region_free hb hc hp (h.mmio.page_lt x hx) ?_)
    simp only [aslrStart] at hstart ⊢
    omega
  · obtain ⟨tab, htree, hsmall, hfree⟩ := hal_vram_free hb hc hp h hmmio (vramPhys + p.vramOffset)
    unfold mapVramPartition at htaken
    rw [mapDevicePages_eq] at htaken
    obtain ⟨x, hx, hmapped⟩ := mapEach_taken (by decide) h.vram.page_lt htree
      (fun x hx => hsmall _ (h.vram.page_lt x hx)) (h.vram.distinct _) htaken
    exact hmapped Perms.full (hfree x hx)

end Hal

/-- What a HAL shard maps besides its windows lies below the region: the image, the config
page, the stack, and whatever `mmap` accepts. -/
structure BelowRegion (d : ShardDescriptor) : Prop where
  image : d.imageEnd ≤ aslrStart
  config : gpuConfigVaddr + 4096 ≤ aslrStart
  stack : shardStackVaddr + 4096 ≤ aslrStart
  heap : ∀ d' vaStart numPages, mmapAccepts d' vaStart numPages = true →
    vaStart + numPages * 4096 ≤ aslrStart

theorem created_belowRegion {isRam : Nat → Prop} {ops : List BootOp} {s s₁ : Sys} {image : Slice}
    {priority : Priority} {id : Nat} (hb : Booted isRam ops s)
    (hc : create s image priority = .ok (s₁, id)) : BelowRegion (s₁.desc id) := by
  refine ⟨?_, by decide, by decide, ?_⟩
  · obtain ⟨own, hok⟩ := hb.bootOk
    obtain ⟨ok⟩ := create_eq_ok hc
    obtain ⟨_, -, -, hbytes⟩ := hok.create_image ok
    exact Nat.le_trans (ok.imageEnd_le hbytes) (by decide)
  · intro d' vaStart numPages hacc
    have hstack := (mmapAccepts_eq_true hacc).stack
    exact Nat.le_trans hstack (by decide)

/-- **ASLR placement is always valid.**  From every state of the generator, for every
partition and every MMIO BAR of at most 512 MiB: the draws do not underflow or divide by
zero, and whenever the retry loop ends the two windows are good, lie above whatever else the
shard maps, and are not found mapped; nor is the config page, for an image that ends below it. -/
theorem aslr_placement_valid {seed : BitVec 64} (hseed : seed ≠ 0#64) (n : Nat) (p : GpuPartition)
    {k : Nat} (hk : k ≤ 29) :
    prngNext^[n] seed ≠ 0#64 ∧
    (min p.vramSize maxVramMap ≤ aslrEnd - aslrStart ∧ 2 ^ k ≤ aslrEnd - aslrStart) ∧
    ∀ fuel, ∃ found, chooseBases fuel (prngNext^[n] seed) p (2 ^ k) = .ok found ∧
      ∀ v m s', found = some (v, m, s') → s' ≠ 0#64 ∧
        Placed v (min p.vramSize maxVramMap) m (2 ^ k) ∧
        ∀ isRam ops s image priority s₁ id mmioPhys vramPhys, Booted isRam ops s →
          create s image priority = .ok (s₁, id) → BelowRegion (s₁.desc id) ∧
          ((s₁.desc id).imageEnd ≤ gpuConfigVaddr →
            createConfigPage s₁ id (s₁.pml4Of id) p v m ≠ .error .alreadyMapped) ∧
          ∀ s₂, createConfigPage s₁ id (s₁.pml4Of id) p v m = .ok s₂ →
            mapBarToShard s₂.ram (s₁.pml4Of id) mmioPhys (2 ^ k) m (2 ^ k) ≠ .error .alreadyMapped ∧
            ∀ r, mapBarToShard s₂.ram (s₁.pml4Of id) mmioPhys (2 ^ k) m (2 ^ k) = .ok r →
              mapVramPartition r (s₁.pml4Of id) vramPhys p v ≠ .error .alreadyMapped := by
  have hsize : 2 ^ k ≤ 2 ^ 29 := Nat.pow_le_pow_right (by decide) hk
  have hstate := prng_iterate_ne_zero hseed n
  refine ⟨hstate, ⟨Nat.le_trans (Nat.min_le_right _ _) (by decide),
    Nat.le_trans hsize (by decide)⟩, fun fuel => ?_⟩
  obtain ⟨found, hfound, hplaced⟩ := chooseBases_spec hsize fuel (prngNext^[n] seed) p
  refine ⟨found, hfound, fun v m s' he => ?_⟩
  obtain ⟨hin, hne⟩ := hplaced v m s' he
  refine ⟨hne hstate, hin, ?_⟩
  intro isRam ops s image priority s₁ id mmioPhys vramPhys hb hc
  exact ⟨created_belowRegion hb hc, fun himage => config_not_taken hb hc himage p v m,
    fun s₂ hp => windows_not_taken hb hc hp hin mmioPhys vramPhys⟩

/-- One half of a 16 MiB BAR. -/
def smallPartition : GpuPartition := { GpuPartition.initial with vramSize := 0x800000 }

/-- A HAL shard with its config page, for windows at the bases drawn from the seed 1. -/
def smallHal : Kernel Sys := do
  let (s₁, id) ← create plainSys emptyImage .high
  createConfigPage s₁ id (s₁.pml4Of id) smallPartition 0x2C841000 0x1B001000

set_option maxRecDepth 100000 in
theorem smallHal_isSome : smallHal.toOption.isSome = true := by
  decide +kernel

theorem chooseBases_small : chooseBases 1 1#64 smallPartition (2 ^ 12) =
    .ok (some (0x2C841000, 0x1B001000, prngNext (prngNext 1#64))) := by
  decide +kernel

theorem aslr_placement_valid_small :
    (∃ s', chooseBases 1 1#64 smallPartition (2 ^ 12) = .ok (some (0x2C841000, 0x1B001000, s'))) ∧
    ∃ s₁ id s₂, create plainSys emptyImage .high = .ok (s₁, id) ∧
      createConfigPage s₁ id (s₁.pml4Of id) smallPartition 0x2C841000 0x1B001000 = .ok s₂ ∧
      Placed 0x2C841000 0x800000 0x1B001000 (2 ^ 12) ∧
      mapBarToShard s₂.ram (s₁.pml4Of id) 0xFE000000 (2 ^ 12) 0x1B001000 (2 ^ 12) ≠
        .error .alreadyMapped := by
  obtain ⟨found, hfound, hok⟩ :=
    (aslr_placement_valid (show 1#64 ≠ 0#64 by decide) 0 smallPartition (show 12 ≤ 29 by decide)).2.2 1
  obtain rfl := Except.ok.inj (chooseBases_small.symm.trans hfound)
  obtain ⟨-, hplaced, hmaps⟩ := hok _ _ _ rfl
  refine ⟨⟨_, chooseBases_small⟩, ?_⟩
  cases h : smallHal with
  | error e =>
    have hc := smallHal_isSome
    rw [h] at hc
    cases hc
  | ok s₂ =>
    obtain ⟨⟨s₁, id⟩, hc, hp⟩ := Kernel.bind_eq_ok h
    obtain ⟨-, -, hwindows⟩ := hmaps _ _ _ _ _ _ _ 0xFE000000 0
      (Booted.initial plainSys_initial) hc
    exact ⟨s₁, id, s₂, hc, hp, hplaced, (hwindows s₂ hp).1⟩

end Coconut
