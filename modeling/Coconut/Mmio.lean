import Coconut.BootTables
import Coconut.Supply
import Mathlib.Data.Finset.Card
import Mathlib.Order.Interval.Finset.Nat

/-!
# The kernel's MMIO windows

`map_mmio` hands out addresses of the last gibibyte of the address space, one region after
the other, and never gives one back.  `MMIO_NEXT` and the sizes are 64-bit words that wrap
silently, and a page-table entry has room for 52 bits of a physical address.  A sequence of
calls is therefore in order exactly if its regions, rounded up to pages, fit into the
gibibyte together and each of them ends below 2^52.

The sizes come from `probe_bars`, which negates the mask that a device returns.
-/
namespace Coconut
open Paging

/-! ## Probing BARs -/

/-- The six BAR registers of a device: what they hold, and what they return after all ones
have been written to them. -/
structure BarRegisters where
  original : Nat → BitVec 32
  mask : Nat → BitVec 32

/-- A memory BAR, as `probe_bars` reports it. -/
structure BarInfo where
  physBase : BitVec 64
  size : BitVec 64
  is64bit : Bool
  prefetchable : Bool

/-- The address bits of a register. -/
def barBits (x : BitVec 32) : BitVec 32 := x &&& 0xFFFFFFF0#32

/-- One round of the loop of `probe_bars`: the BAR that starts in register `i`, if any, and
the number of registers it takes. -/
def probeBar (regs : BarRegisters) (i : Nat) : Option BarInfo × Nat :=
  let original := regs.original i
  let mask := regs.mask i
  if mask = 0#32 ∨ mask = 0xFFFFFFFF#32 then (none, 1)
  -- I/O BARs are skipped
  else if original &&& 1#32 ≠ 0#32 then (none, 1)
  else
    let prefetchable := original &&& 8#32 != 0#32
    let is64bit := (original >>> 1) &&& 3#32 == 2#32
    if is64bit ∧ i < 5 then
      let fullMask : BitVec 64 :=
        ((regs.mask (i + 1)).setWidth 64 <<< 32) ||| (barBits mask).setWidth 64
      if fullMask = 0#64 then (none, 2)
      else
        let base : BitVec 64 :=
          ((regs.original (i + 1)).setWidth 64 <<< 32) ||| (barBits original).setWidth 64
        (some ⟨base, ~~~fullMask + 1#64, true, prefetchable⟩, 2)
    else
      let memMask := barBits mask
      if memMask = 0#32 then (none, 1)
      else (some ⟨(barBits original).setWidth 64, (~~~memMask).setWidth 64 + 1#64, false,
        prefetchable⟩, 1)

/-- The loop of `probe_bars` from register `i` on, for at most `fuel` rounds. -/
def probeFrom (regs : BarRegisters) : Nat → Nat → List BarInfo
  | 0, _ => []
  | fuel + 1, i =>
    if i < 6 then
      let (bar, step) := probeBar regs i
      bar.toList ++ probeFrom regs fuel (i + step)
    else []

/-- The BARs of a device; six rounds are enough for six registers. -/
def probeBars (regs : BarRegisters) : List BarInfo := probeFrom regs 6 0

/-- A size that `probe_bars` can report. -/
def Reportable (size : Nat) : Prop := ∃ regs, ∃ bar ∈ probeBars regs, bar.size.toNat = size

theorem probeBar_size {regs : BarRegisters} {i : Nat} {bar : BarInfo}
    (h : (probeBar regs i).1 = some bar) : bar.size ≠ 0#64 := by
  unfold probeBar at h
  simp only at h
  split at h
  · cases h
  split at h
  · cases h
  split at h
  · split at h
    · cases h
    · rename_i hmask
      obtain rfl := Option.some.inj h
      intro hzero
      change ~~~_ + 1#64 = 0#64 at hzero
      rw [← BitVec.neg_eq_not_add, BitVec.neg_eq_zero_iff] at hzero
      exact hmask hzero
  · split at h
    · cases h
    · obtain rfl := Option.some.inj h
      intro hzero
      have hnat := congrArg BitVec.toNat hzero
      change ((~~~_ : BitVec 32).setWidth 64 + 1#64).toNat = 0 at hnat
      have hlt := (~~~barBits (regs.mask i)).isLt
      simp only [BitVec.toNat_add, BitVec.toNat_setWidth, BitVec.toNat_ofNat] at hnat
      omega

theorem probeFrom_size {regs : BarRegisters} {fuel : Nat} :
    ∀ {i : Nat} {bar : BarInfo}, bar ∈ probeFrom regs fuel i → bar.size ≠ 0#64 := by
  induction fuel with
  | zero =>
    intro i bar h
    cases h
  | succ fuel ih =>
    intro i bar h
    unfold probeFrom at h
    split at h
    · rcases List.mem_append.mp h with h | h
      · exact probeBar_size (Option.mem_toList.mp h)
      · exact ih h
    · cases h

/-- **No BAR is reported with size zero.** -/
theorem Reportable.pos {size : Nat} (h : Reportable size) : 0 < size ∧ size < 2 ^ 64 := by
  obtain ⟨regs, bar, hbar, rfl⟩ := h
  refine ⟨Nat.pos_of_ne_zero fun hzero => ?_, bar.size.isLt⟩
  exact probeFrom_size hbar (BitVec.eq_of_toNat_eq hzero)

/-! ## `map_mmio` -/

/-- Flags of a kernel device page. -/
def mmioFlags : Nat :=
  ptePresent ||| pteWritable ||| pteNoExecute ||| pteCacheDisable ||| pteWriteThrough

/-- The page loop of `map_mmio`: `n` pages from `offset` on. -/
def mapMmioPages (root virtBase alignedPhys : Nat) : Nat → Nat → Ram → Kernel Ram
  | 0, _, r => .ok r
  | n + 1, offset, r => do
    let r ← map4k r root (wrappingAdd virtBase offset) (wrappingAdd alignedPhys offset) mmioFlags
    mapMmioPages root virtBase alignedPhys n (offset + 4096) r

/-- `aligned_size`: the size with the offset in the first page, rounded up. -/
def mmioAlignedSize (physBase size : Nat) : Nat :=
  (size + physBase % 4096 + 4095) % 2 ^ 64 / 4096 * 4096

/-- Map a physical region into the kernel's address space: the pointer, and `MMIO_NEXT`
afterwards. -/
def mapMmioRegion (r : Ram) (root next physBase size : Nat) : Kernel (Nat × Ram × Nat) := do
  let alignedPhys := physBase / 4096 * 4096
  let alignedSize := mmioAlignedSize physBase size
  let r ← mapMmioPages root next alignedPhys (alignedSize / 4096) 0 r
  return (mapMmio next physBase, r, wrappingAdd next alignedSize)

/-- A region that `map_mmio` was asked for, with the pointer it returned. -/
structure MmioRegion where
  physBase : Nat
  size : Nat
  ptr : Nat

/-- A sequence of calls, each given by its physical base and its size. -/
def mapMmioAll (root : Nat) : List (Nat × Nat) → Ram → Nat → Kernel (Ram × List MmioRegion)
  | [], r, _ => .ok (r, [])
  | (physBase, size) :: calls, r, next => do
    let (ptr, r, next) ← mapMmioRegion r root next physBase size
    let (r, regions) ← mapMmioAll root calls r next
    return (r, ⟨physBase, size, ptr⟩ :: regions)

/-- The first of several calls, and the rest. -/
theorem mapMmioAll_cons {root next : Nat} {call : Nat × Nat} {calls : List (Nat × Nat)} {r r' : Ram}
    {regions : List MmioRegion} (h : mapMmioAll root (call :: calls) r next = .ok (r', regions)) :
    ∃ r₁ rest, mapMmioPages root next (call.1 / 4096 * 4096)
        (mmioAlignedSize call.1 call.2 / 4096) 0 r = .ok r₁ ∧
      mapMmioAll root calls r₁ (wrappingAdd next (mmioAlignedSize call.1 call.2)) = .ok (r', rest) ∧
      regions = ⟨call.1, call.2, mapMmio next call.1⟩ :: rest := by
  obtain ⟨⟨ptr, r₁, next₁⟩, hcall, hthen⟩ := Kernel.bind_eq_ok h
  obtain ⟨⟨r₂, rest⟩, hrest, hdone⟩ := Kernel.bind_eq_ok hthen
  obtain ⟨r₃, hpages, hret⟩ := Kernel.bind_eq_ok hcall
  obtain ⟨rfl, rfl⟩ := Prod.mk.inj (Except.ok.inj hdone)
  obtain ⟨rfl, htail⟩ := Prod.mk.inj (Except.ok.inj hret)
  obtain ⟨rfl, rfl⟩ := Prod.mk.inj htail
  exact ⟨r₃, rest, hpages, hrest, rfl⟩

/-! ## What the regions should be -/

/-- The kernel reads byte `i` of the region at its pointer plus `i`, inside the window. -/
structure MmioRegion.Faithful (m : Memory) (root : Nat) (x : MmioRegion) : Prop where
  translates : ∀ i < x.size, ∃ leaf, walk m root (x.ptr + i) = some leaf ∧
    leaf.phys = x.physBase + i
  start : mmioVirtBase ≤ x.ptr
  stop : x.ptr + x.size ≤ 2 ^ 64

/-- The pages of a region. -/
def MmioRegion.pages (x : MmioRegion) : Finset Nat :=
  Finset.Ico (x.ptr / 4096) ((x.ptr + x.size + 4095) / 4096)

/-- Every region is faithful and no two share a page. -/
structure WindowsOk (m : Memory) (root : Nat) (regions : List MmioRegion) : Prop where
  faithful : ∀ x ∈ regions, x.Faithful m root
  disjoint : regions.Pairwise fun x y => Disjoint x.pages y.pages

/-- The pages a call needs. -/
def pagesNeeded (call : Nat × Nat) : Nat := (call.2 + call.1 % 4096 + 4095) / 4096

/-- All calls together need no more than the gibibyte, and each ends below 2^52. -/
structure CallsFit (calls : List (Nat × Nat)) : Prop where
  total : (calls.map pagesNeeded).sum ≤ 2 ^ 18
  phys : ∀ call ∈ calls, call.1 + call.2 ≤ 2 ^ 52

/-! ## Good windows fit -/

/-- Disjoint parts of a set have no more members together than the set. -/
theorem sum_card_le {α : Type} [DecidableEq α] {w : Finset α} {parts : List (Finset α)}
    (hsub : ∀ x ∈ parts, x ⊆ w) (hdisj : parts.Pairwise Disjoint) :
    (parts.map Finset.card).sum ≤ w.card := by
  induction parts generalizing w with
  | nil => exact Nat.zero_le _
  | cons x parts ih =>
    rw [List.pairwise_cons] at hdisj
    have hx := hsub x (List.mem_cons_self ..)
    have hrest : ∀ y ∈ parts, y ⊆ w \ x := by
      intro y hy
      exact Finset.subset_sdiff.mpr ⟨hsub y (List.mem_cons_of_mem _ hy), (hdisj.1 y hy).symm⟩
    have hsum := ih hrest hdisj.2
    rw [Finset.card_sdiff_of_subset hx] at hsum
    have hle := Finset.card_le_card hx
    rw [List.map_cons, List.sum_cons]
    omega

/-- The calls and the regions go together, and a pointer keeps the offset in the page. -/
theorem mapMmioAll_regions {root : Nat} {calls : List (Nat × Nat)} :
    ∀ {r r' : Ram} {next : Nat} {regions : List MmioRegion}, next % 4096 = 0 →
      mapMmioAll root calls r next = .ok (r', regions) →
      regions.map (fun x => (x.physBase, x.size)) = calls ∧
        ∀ x ∈ regions, x.ptr % 4096 = x.physBase % 4096 := by
  induction calls with
  | nil =>
    intro r r' next regions _ h
    obtain ⟨rfl, rfl⟩ := Prod.mk.inj (Except.ok.inj h)
    exact ⟨rfl, nofun⟩
  | cons call calls ih =>
    intro r r' next regions hnext h
    obtain ⟨r₁, rest, -, hrest, rfl⟩ := mapMmioAll_cons h
    have hnext' : wrappingAdd next (mmioAlignedSize call.1 call.2) % 4096 = 0 := by
      unfold wrappingAdd mmioAlignedSize
      omega
    obtain ⟨hcalls, hptrs⟩ := ih hnext' hrest
    refine ⟨by rw [List.map_cons, hcalls], fun x hx => ?_⟩
    rcases List.mem_cons.mp hx with rfl | hx
    · change mapMmio next call.1 % 4096 = call.1 % 4096
      unfold mapMmio wrappingAdd
      omega
    · exact hptrs x hx

theorem MmioRegion.card_pages {x : MmioRegion} (h : x.ptr % 4096 = x.physBase % 4096) :
    x.pages.card = pagesNeeded (x.physBase, x.size) := by
  unfold MmioRegion.pages pagesNeeded
  rw [Nat.card_Ico]
  simp only
  omega

/-- **Faithful and disjoint regions fit.** -/
theorem WindowsOk.callsFit {m : Memory} {root : Nat} {regions : List MmioRegion}
    {calls : List (Nat × Nat)} (h : WindowsOk m root regions)
    (hcalls : regions.map (fun x => (x.physBase, x.size)) = calls)
    (hptrs : ∀ x ∈ regions, x.ptr % 4096 = x.physBase % 4096)
    (hpos : ∀ call ∈ calls, 0 < call.2) : CallsFit calls := by
  subst hcalls
  refine ⟨?_, fun call hcall => ?_⟩
  · -- count the pages of the regions in the window
    have hsum : ((regions.map MmioRegion.pages).map Finset.card).sum ≤
        (Finset.Ico (mmioVirtBase / 4096) (2 ^ 52)).card :=
      sum_card_le ?_ (List.pairwise_map.mpr h.disjoint)
    · rw [List.map_map, Nat.card_Ico] at hsum
      have hsame : regions.map (Finset.card ∘ MmioRegion.pages) =
          (regions.map fun x => (x.physBase, x.size)).map pagesNeeded := by
        rw [List.map_map]
        exact List.map_congr_left fun x hx => MmioRegion.card_pages (hptrs x hx)
      rw [hsame] at hsum
      exact hsum
    · intro part hpart
      obtain ⟨x, hx, rfl⟩ := List.mem_map.mp hpart
      have hfaithful := h.faithful x hx
      refine Finset.Ico_subset_Ico (Nat.div_le_div_right hfaithful.start) ?_
      have hstop := hfaithful.stop
      omega
  · obtain ⟨x, hx, rfl⟩ := List.mem_map.mp hcall
    have hsize : 0 < x.size := hpos _ hcall
    obtain ⟨leaf, hwalk, hphys⟩ := (h.faithful x hx).translates (x.size - 1) (by omega)
    have hlt := walk_phys_lt hwalk
    change x.physBase + x.size ≤ 2 ^ 52
    omega

/-! ## What fits is mapped well -/

/-- The supervisor's tables as `map_mmio` finds them: a tree without a large page on the way
into the window. -/
structure MmioReady (tab : TableMap) (r : Ram) (root : Nat) : Prop where
  tree : TreeOk (2 ^ 36) tab r root
  window : ∀ n, 2 ^ 36 - 2 ^ 18 ≤ n → n < 2 ^ 36 → SmallPath r.mem 4 root n

/-- The loop as a loop over pages; both addresses wrap. -/
theorem mapMmioPages_eq_mapEach (root virtBase alignedPhys : Nat) {n : Nat} : ∀ (i : Nat) (r : Ram),
    mapMmioPages root virtBase alignedPhys n (i * 4096) r = mapEach root mmioFlags
      ((List.range' i n).map fun j =>
        (wrappingAdd virtBase (j * 4096), wrappingAdd alignedPhys (j * 4096))) r := by
  induction n with
  | zero =>
    intro i r
    rfl
  | succ n ih =>
    intro i r
    rw [List.range'_succ, List.map_cons, mapMmioPages, mapEach]
    refine congrArg _ (funext fun r₁ => ?_)
    rw [← ih (i + 1) r₁, Nat.succ_mul]

/-- The pages that a sequence of calls maps, beginning at `next`. -/
def mmioPages : List (Nat × Nat) → Nat → List (Nat × Nat)
  | [], _ => []
  | (physBase, size) :: calls, next =>
    (List.range' 0 (mmioAlignedSize physBase size / 4096)).map (fun j =>
        (wrappingAdd next (j * 4096), wrappingAdd (physBase / 4096 * 4096) (j * 4096))) ++
      mmioPages calls (wrappingAdd next (mmioAlignedSize physBase size))

/-- The calls return if the loop over all their pages does. -/
theorem mapMmioAll_of_mapEach {root : Nat} {calls : List (Nat × Nat)} {r r' : Ram} {next : Nat}
    (h : mapEach root mmioFlags (mmioPages calls next) r = .ok r') :
    ∃ regions, mapMmioAll root calls r next = .ok (r', regions) := by
  induction calls generalizing r next with
  | nil => exact ⟨[], by rw [mapMmioAll, Except.ok.inj h]⟩
  | cons call calls ih =>
    obtain ⟨physBase, size⟩ := call
    rw [mmioPages, mapEach_append] at h
    obtain ⟨r₁, h₁, hrest⟩ := Kernel.bind_eq_ok h
    obtain ⟨regions, hm⟩ := ih hrest
    have hloop := mapMmioPages_eq_mapEach root next (physBase / 4096 * 4096)
      (n := mmioAlignedSize physBase size / 4096) 0 r
    rw [Nat.zero_mul, h₁] at hloop
    refine ⟨⟨physBase, size, mapMmio next physBase⟩ :: regions, ?_⟩
    rw [mapMmioAll, mapMmioRegion]
    simp only [hloop, Kernel.ok_bind]
    rw [show (pure (mapMmio next physBase, r₁, wrappingAdd next (mmioAlignedSize physBase size)) :
      Kernel (Nat × Ram × Nat)) = .ok _ from rfl]
    simp only [Kernel.ok_bind, hm]
    rfl

/-- Without a wrap the loop goes over a window. -/
theorem mapMmioPages_eq {root virtBase alignedPhys n : Nat} (r : Ram)
    (hv : virtBase + n * 4096 ≤ 2 ^ 64) (hp : alignedPhys + n * 4096 ≤ 2 ^ 64) :
    mapMmioPages root virtBase alignedPhys n 0 r =
      mapEach root mmioFlags (windowList virtBase alignedPhys n) r := by
  have h := mapMmioPages_eq_mapEach root virtBase alignedPhys (n := n) 0 r
  rw [Nat.zero_mul] at h
  rw [h, windowList]
  refine congrArg (mapEach root mmioFlags · r) (List.map_congr_left fun j hj => ?_)
  have hj := (List.mem_range'_1.mp hj).2
  rw [wrappingAdd_eq (by omega), wrappingAdd_eq (by omega)]

/-- The page number of an address of the window. -/
theorem pageOf_mmio {va : Nat} (h1 : mmioVirtBase ≤ va) (h2 : va < 2 ^ 64) :
    pageOf va = va / 4096 - (2 ^ 52 - 2 ^ 36) ∧ 2 ^ 52 - 2 ^ 18 ≤ va / 4096 ∧ va / 4096 < 2 ^ 52 := by
  unfold pageOf
  simp only [mmioVirtBase] at h1
  omega

section Call
variable {tab : TableMap} {r r' : Ram} {root next : Nat} {call : Nat × Nat}

/-- What one call of `map_mmio` does that stays inside the window. -/
structure MapsRegion (root next : Nat) (call : Nat × Nat) (r : Ram) (r' : Ram) : Prop where
  ready : ∃ tab', MmioReady tab' r' root
  faithful : MmioRegion.Faithful r'.mem root ⟨call.1, call.2, next + call.1 % 4096⟩
  keeps : ∀ va, mmioVirtBase ≤ va → va < next → walk r'.mem root va = walk r.mem root va

/-- **One call** that fits. -/
theorem mapMmioPages_region (h : MmioReady tab r root) (hnext : next % 4096 = 0)
    (hbase : mmioVirtBase ≤ next) (hpos : 0 < call.2)
    (hfits : next + pagesNeeded call * 4096 ≤ 2 ^ 64) (hphys : call.1 + call.2 ≤ 2 ^ 52)
    (hm : mapMmioPages root next (call.1 / 4096 * 4096) (pagesNeeded call) 0 r = .ok r') :
    MapsRegion root next call r r' := by
  have hneed : call.2 + call.1 % 4096 ≤ pagesNeeded call * 4096 ∧
      pagesNeeded call * 4096 < call.2 + call.1 % 4096 + 4096 := by
    unfold pagesNeeded
    omega
  rw [mapMmioPages_eq r hfits (by omega)] at hm
  -- the pages of the region lie in the window
  have hpage : ∀ j, j < pagesNeeded call →
      pageOf (next + j * 4096) = next / 4096 + j - (2 ^ 52 - 2 ^ 36) := by
    intro j hj
    rw [(pageOf_mmio (Nat.le_trans hbase (Nat.le_add_right _ _)) (by omega)).1,
      Nat.add_mul_div_right _ _ (by decide)]
  have hin : ∀ x ∈ windowList next (call.1 / 4096 * 4096) (pagesNeeded call),
      pageOf x.1 < 2 ^ 36 ∧ SmallPath r.mem 4 root (pageOf x.1) := by
    intro x hx
    obtain ⟨j, hj, rfl⟩ := mem_windowList.mp hx
    have hlt := pageOf_lt (next + j * 4096)
    refine ⟨hlt, h.window _ ?_ hlt⟩
    have hp := hpage j hj
    simp only [mmioVirtBase] at hbase
    simp only
    omega
  obtain ⟨tab', each⟩ := mapEach_tree (by decide) (fun x hx => (hin x hx).1) h.tree
    (fun x hx => (hin x hx).2) hm
  refine ⟨⟨tab', each.tree, fun n h1 h2 => each.small n h2 (h.window n h1 h2)⟩,
    ⟨?_, Nat.le_trans hbase (Nat.le_add_right _ _), ?_⟩, ?_⟩
  · intro i hi
    change i < call.2 at hi
    change ∃ leaf, walk r'.mem root (next + call.1 % 4096 + i) = some leaf ∧ leaf.phys = call.1 + i
    -- byte `i` lies in page `j` of the region
    obtain ⟨j, hj⟩ : ∃ j, (call.1 % 4096 + i) / 4096 = j := ⟨_, rfl⟩
    have hjn : j < pagesNeeded call := by omega
    have hcan : canonical (next + call.1 % 4096 + i) = true := by
      simp only [mmioVirtBase] at hbase
      simp only [canonical, Bool.or_eq_true, decide_eq_true_eq]
      omega
    have hsame : pageOf (next + call.1 % 4096 + i) = pageOf (next + j * 4096) := by
      rw [hpage j hjn, (pageOf_mmio (by omega) (by omega)).1]
      omega
    obtain ⟨a', ht⟩ := each.page _ (mem_windowList.mpr ⟨j, hjn, rfl⟩) Perms.full
    simp only at ht
    rw [← hsame] at ht
    obtain ⟨leaf, hwalk, hleaf⟩ := walk_of_translate hcan ht
    refine ⟨leaf, hwalk, hleaf.trans ?_⟩
    simp only
    rw [physAddr_of_aligned (by omega) (by omega)]
    omega
  · change next + call.1 % 4096 + call.2 ≤ 2 ^ 64
    omega
  · intro va h1 h2
    refine walk_congr (each.other _ (pageOf_lt va) (fun x hx => ?_) _)
    obtain ⟨j, hj, rfl⟩ := mem_windowList.mp hx
    have hp := hpage j hj
    obtain ⟨hva, hlow, hhigh⟩ := pageOf_mmio h1 (by omega)
    simp only
    omega

end Call

theorem pagesNeeded_pos {call : Nat × Nat} (h : 0 < call.2) : 0 < pagesNeeded call := by
  unfold pagesNeeded
  omega

/-- A region that ends below 2^52 is not cut off when it is rounded up. -/
theorem mmioAlignedSize_eq {call : Nat × Nat} (h : call.1 + call.2 ≤ 2 ^ 52) :
    mmioAlignedSize call.1 call.2 = pagesNeeded call * 4096 := by
  unfold mmioAlignedSize pagesNeeded
  rw [Nat.mod_eq_of_lt]
  omega

theorem MmioRegion.Faithful.congr {m m' : Memory} {root : Nat} {x : MmioRegion}
    (h : x.Faithful m root) (hsame : ∀ va, mmioVirtBase ≤ va → va < x.ptr + x.size →
      walk m' root va = walk m root va) : x.Faithful m' root := by
  refine ⟨fun i hi => ?_, h.start, h.stop⟩
  rw [hsame _ (Nat.le_trans h.start (Nat.le_add_right _ _)) (Nat.add_lt_add_left hi _)]
  exact h.translates i hi

/-- **A sequence of calls** that fits above `pos`.  `MMIO_NEXT` wraps to zero if the last
region fills the window, so `pos` runs in front of it. -/
theorem mapMmioAll_windows {root : Nat} {calls : List (Nat × Nat)} :
    ∀ (pos : Nat) {tab : TableMap} {r r' : Ram} {regions : List MmioRegion},
      MmioReady tab r root → pos % 4096 = 0 → mmioVirtBase ≤ pos →
      pos + (calls.map pagesNeeded).sum * 4096 ≤ 2 ^ 64 →
      (∀ call ∈ calls, 0 < call.2 ∧ call.1 + call.2 ≤ 2 ^ 52) →
      mapMmioAll root calls r (pos % 2 ^ 64) = .ok (r', regions) →
      WindowsOk r'.mem root regions ∧ (∀ x ∈ regions, pos ≤ x.ptr) ∧
        ∀ va, mmioVirtBase ≤ va → va < pos → walk r'.mem root va = walk r.mem root va := by
  induction calls with
  | nil =>
    intro pos tab r r' regions _ _ _ _ _ h
    obtain ⟨rfl, rfl⟩ := Prod.mk.inj (Except.ok.inj h)
    exact ⟨⟨nofun, List.Pairwise.nil⟩, nofun, fun _ _ _ => rfl⟩
  | cons call calls ih =>
    intro pos tab r r' regions hready hpos hbase hfits hcalls h
    obtain ⟨hsize, hphys⟩ := hcalls call (List.mem_cons_self ..)
    have hneed := pagesNeeded_pos hsize
    rw [List.map_cons, List.sum_cons] at hfits
    rw [Nat.mod_eq_of_lt (by omega)] at h
    obtain ⟨r₁, rest, hpages, hrest, rfl⟩ := mapMmioAll_cons h
    rw [mmioAlignedSize_eq hphys] at hpages hrest
    rw [Nat.mul_div_cancel _ (by decide)] at hpages
    have region := mapMmioPages_region hready hpos hbase hsize (by lia) hphys hpages
    obtain ⟨tab₁, hready₁⟩ := region.ready
    obtain ⟨hwindows, hptrs, hkeeps⟩ := ih (pos + pagesNeeded call * 4096) hready₁ (by omega)
      (by omega) (by lia) (fun c hc => hcalls c (List.mem_cons_of_mem _ hc)) hrest
    have hptr : mapMmio pos call.1 = pos + call.1 % 4096 := wrappingAdd_eq (by omega)
    have hend : pos + call.1 % 4096 + call.2 ≤ pos + pagesNeeded call * 4096 := by
      unfold pagesNeeded
      omega
    rw [hptr]
    refine ⟨⟨fun x hx => ?_, ?_⟩, fun x hx => ?_, fun va h1 h2 => ?_⟩
    · rcases List.mem_cons.mp hx with rfl | hx
      · exact region.faithful.congr fun va h1 h2 => hkeeps va h1 (Nat.lt_of_lt_of_le h2 hend)
      · exact hwindows.faithful x hx
    · refine List.pairwise_cons.mpr ⟨fun x hx => ?_, hwindows.disjoint⟩
      -- the pages of the later regions begin where those of this one end
      have hafter := hptrs x hx
      refine Finset.disjoint_left.mpr fun page h1 h2 => ?_
      have hbefore := (Finset.mem_Ico.mp h1).2
      have hfrom := (Finset.mem_Ico.mp h2).1
      simp only at hbefore
      omega
    · rcases List.mem_cons.mp hx with rfl | hx
      · exact Nat.le_add_right _ _
      · exact Nat.le_trans (Nat.le_add_right _ _) (hptrs x hx)
    · rw [hkeeps va h1 (Nat.lt_of_lt_of_le h2 (Nat.le_add_right _ _)), region.keeps va h1 h2]

/-- **The kernel's MMIO windows.**  A sequence of calls that returns leaves faithful and
disjoint windows exactly if the regions fit. -/
theorem mmio_windows_exact {tab : TableMap} {r r' : Ram} {root : Nat} (h : MmioReady tab r root)
    {calls : List (Nat × Nat)} {regions : List MmioRegion}
    (hcalls : ∀ call ∈ calls, Reportable call.2)
    (hm : mapMmioAll root calls r mmioVirtBase = .ok (r', regions)) :
    WindowsOk r'.mem root regions ↔ CallsFit calls := by
  have hpos : ∀ call ∈ calls, 0 < call.2 := fun call hcall => (hcalls call hcall).pos.1
  constructor
  · intro hok
    obtain ⟨hregions, hptrs⟩ := mapMmioAll_regions (by decide) hm
    exact hok.callsFit hregions hptrs hpos
  · intro hfit
    have htotal := hfit.total
    refine (mapMmioAll_windows mmioVirtBase h (by decide) (Nat.le_refl _) ?_
      (fun call hcall => ⟨hpos call hcall, hfit.phys call hcall⟩) hm).1
    simp only [mmioVirtBase]
    omega

/-! ## Two calls after boot -/

/-- The supervisor's tables and eight free regions. -/
def bootRam : Ram := ⟨supervisorTables fun _ => 0, fun w => if w = 0 then 0x7F8#64 else 0#64, []⟩

theorem bootRam_ready : MmioReady supervisorTab bootRam 0x400000 :=
  ⟨supervisorTables_tree _ (by decide), fun _ h1 h2 => (supervisorTables_window _ h1 h2).1⟩

theorem bootRam_supply : 4096 ≤ bootRam.supply :=
  Ram.le_supply (n := 64) (k := 8) (by decide) (by decide) (by decide)

/-- The pages of the window and those of the first gibibyte are empty, and there are frames for
the page tables of both. -/
theorem bootRam_returns {pages : List (Nat × Nat)}
    (hpages : ∀ x ∈ pages, 2 ^ 36 - 2 ^ 18 ≤ pageOf x.1 ∨ pageOf x.1 < 2 ^ 18)
    (hdistinct : (pages.map fun x => pageOf x.1).Nodup) :
    ∃ r', mapEach 0x400000 mmioFlags pages bootRam = .ok r' := by
  have hpage : ∀ x ∈ pages, SmallPath bootRam.mem 4 0x400000 (pageOf x.1) ∧
      (∀ a, translate bootRam.mem 4 0x400000 (pageOf x.1) a = none) ∧
      pageOf x.1 / 512 ∈ Finset.Ico (2 ^ 27 - 512) (2 ^ 27) ∪ Finset.range 512 := by
    intro x hx
    have hlt := pageOf_lt x.1
    rw [Finset.mem_union, Finset.mem_Ico, Finset.mem_range]
    rcases hpages x hx with h | h
    · obtain ⟨hs, ht⟩ := supervisorTables_window (fun _ => 0) h hlt
      exact ⟨hs, ht, by omega⟩
    · obtain ⟨hs, ht⟩ := supervisorTables_lower (fun _ => 0) (n := pageOf x.1) (by omega)
      exact ⟨hs, ht, by omega⟩
  have hcard : (Finset.Ico (2 ^ 27 - 512) (2 ^ 27) ∪ Finset.range 512).card ≤ 1024 := by
    refine (Finset.card_union_le _ _).trans ?_
    rw [Nat.card_Ico, Finset.card_range]
    decide
  have hsupply := bootRam_supply
  exact mapEach_returns (by decide) (by decide) (fun x _ => pageOf_lt x.1) bootRam_ready.tree
    (fun x hx => (hpage x hx).1) hdistinct (fun x hx => (hpage x hx).2.1 _)
    (fun x hx _ => (hpage x hx).2.2) (by omega)

theorem reportable_page : Reportable 4096 :=
  ⟨⟨fun _ => 0xFED90000#32, fun i => if i = 0 then 0xFFFFF000#32 else 0#32⟩, _, List.mem_cons_self ..,
    by decide⟩

/-- A call for a whole page and one for a few bytes across a page boundary. -/
def twoCalls : List (Nat × Nat) := [(0xFED90000, 4096), (0xFEE00FF0, 0x20)]

theorem reportable_bytes : Reportable 0x20 :=
  ⟨⟨fun _ => 0xFEE00000#32, fun i => if i = 0 then 0xFFFFFFE0#32 else 0#32⟩, _, List.mem_cons_self ..,
    by decide⟩

theorem mmio_windows_exact_two : ∃ r' regions,
    mapMmioAll 0x400000 twoCalls bootRam mmioVirtBase = .ok (r', regions) ∧
      regions.length = 2 ∧ WindowsOk r'.mem 0x400000 regions := by
  obtain ⟨r', hr'⟩ := bootRam_returns (by decide : ∀ x ∈ mmioPages twoCalls mmioVirtBase, _)
    (by decide)
  obtain ⟨regions, hm⟩ := mapMmioAll_of_mapEach hr'
  have hcalls : ∀ call ∈ twoCalls, Reportable call.2 :=
    List.forall_mem_cons.mpr ⟨reportable_page, List.forall_mem_singleton.mpr reportable_bytes⟩
  refine ⟨r', regions, hm, ?_, (mmio_windows_exact bootRam_ready hcalls hm).mpr ⟨by decide, ?_⟩⟩
  · have hlength := congrArg List.length (mapMmioAll_regions (by decide) hm).1
    rwa [List.length_map] at hlength
  · decide

/-- Half of the pages of a 2 GiB window lie above the end of the address space, at its start. -/
theorem pageOf_wrapped {j : Nat} (hj : j < 2 ^ 19) :
    pageOf (wrappingAdd mmioVirtBase (j * 4096)) =
      if j < 2 ^ 18 then 2 ^ 36 - 2 ^ 18 + j else j - 2 ^ 18 := by
  unfold pageOf wrappingAdd
  simp only [mmioVirtBase]
  split_ifs <;> omega

/-- **`map_mmio` of 2 GiB returns.** -/
theorem bootRam_two_gib : ∃ r', mapEach 0x400000 mmioFlags ((List.range' 0 (2 ^ 19)).map fun j =>
    (wrappingAdd mmioVirtBase (j * 4096), wrappingAdd (2 ^ 32) (j * 4096))) bootRam = .ok r' := by
  have hlt : ∀ {j}, j ∈ List.range' 0 (2 ^ 19) → j < 2 ^ 19 := fun hj => by
    simpa using (List.mem_range'_1.mp hj).2
  refine bootRam_returns ?_ ?_
  · intro x hx
    obtain ⟨j, hj, rfl⟩ := List.mem_map.mp hx
    rw [pageOf_wrapped (hlt hj)]
    have := hlt hj
    split_ifs <;> omega
  · rw [List.map_map]
    refine List.Nodup.map_on ?_ (List.nodup_range' (h := Nat.one_pos))
    intro i hi j hj he
    simp only [Function.comp_apply] at he
    rw [pageOf_wrapped (hlt hi), pageOf_wrapped (hlt hj)] at he
    have := hlt hi
    have := hlt hj
    split_ifs at he <;> omega

theorem reportable_two_gib : Reportable (2 ^ 31) :=
  ⟨⟨fun _ => 0x8#32, fun i => if i = 0 then 0x80000000#32 else 0#32⟩, _, List.mem_cons_self ..,
    by decide⟩

/-- A BAR of 2 GiB: its second half is mapped at the start of the address space. -/
theorem mmio_window_wraps : Reportable (2 ^ 31) ∧ ∃ r' regions,
    mapMmioAll 0x400000 [(2 ^ 32, 2 ^ 31)] bootRam mmioVirtBase = .ok (r', regions) ∧
      ¬ WindowsOk r'.mem 0x400000 regions := by
  obtain ⟨r', hr'⟩ := bootRam_two_gib
  obtain ⟨regions, hm⟩ := mapMmioAll_of_mapEach
    (show mapEach _ _ (mmioPages [(2 ^ 32, 2 ^ 31)] mmioVirtBase) bootRam = _ by
      rw [mmioPages, mmioPages, List.append_nil]
      exact hr')
  refine ⟨reportable_two_gib, r', regions, hm, fun hok => ?_⟩
  obtain ⟨hregions, hptrs⟩ := mapMmioAll_regions (by decide) hm
  have hfit := hok.callsFit hregions hptrs fun call hcall => by
    rw [List.mem_singleton.mp hcall]
    decide
  exact absurd hfit.total (by decide)

end Coconut
