import Coconut.Spaces

/-!
# Boot builds the address spaces

Each call of boot extends the ownership map and keeps every address space in order:
`create` builds one from an empty root table, the config pages and device windows add to
one, and the other calls touch none.  `Booted.bootOk` is the invariant in which every run
starts.
-/
namespace Coconut
open Paging

variable {isRam : Nat → Prop} {own own' : Owners Nat} {r r' : Ram} {t root : Nat} {s s' : Sys}

/-! ## The root table -/

theorem copyUpperHalf_sameFrame (m : Memory) (sup : Nat) {p f : Nat} (hp : p % 4096 = 0) (hf : f ≠ p) :
    Memory.SameFrame m (copyUpperHalf m sup p) f := by
  intro x hx
  refine if_neg fun hc => hf ?_
  rw [← hx]
  exact Memory.frameOf_eq hp (by omega) (by omega)

theorem entryAt_copyUpperHalf (m : Memory) (sup p : Nat) {i : Nat} (hi : i < 512) :
    entryAt (copyUpperHalf m sup p) p i = if i < 256 then entryAt m p i else entryAt m sup i := by
  split
  · exact Memory.readLE_congr fun x h1 h2 => if_neg (by omega)
  · refine Memory.readLE_shift fun j hj => ?_
    refine (if_pos ⟨by omega, by omega⟩).trans ?_
    rw [show sup + (p + 8 * i + j - p) = sup + 8 * i + j by omega]

/-- What the upper half of the supervisor's root table gives to the shards. -/
def UpperOk (m : Memory) (sup : Nat) : Prop :=
  ∀ i, 256 ≤ i → i < 512 → hasFlag (entryAt m sup i) pteUser = false ∧
    hasFlag (entryAt m sup i) ptePageSize = false

/-- **A new root table**: empty below, the supervisor's entries above. -/
theorem newRoot_spec (h : RamOk own isRam r) {sup p : Nat} (hsup : own sup = some (.shared 4))
    (hupper : UpperOk r.mem sup) (ha : r.allocFrameZeroed = some (p, r')) (t : Nat) :
    RamOk (own.assign p (.node t 4 0)) isRam { r' with mem := copyUpperHalf r'.mem sup p } ∧
      Grows t own r (own.assign p (.node t 4 0))
        { r' with mem := copyUpperHalf r'.mem sup p } isRam ∧
      ∀ va, va < 0x800000000000 → walk (copyUpperHalf r'.mem sup p) p va = none := by
  have fr := h.alloc ha
  have hother : ∀ f, f ≠ p → Memory.SameFrame r'.mem (copyUpperHalf r'.mem sup p) f := fun f hf =>
    copyUpperHalf_sameFrame _ _ fr.aligned hf
  have hx := Owners.extends_assign (.node t 4 0) fr.unowned
  have hsp : sup ≠ p := fun he => by
    rw [he, fr.unowned] at hsup
    cases hsup
  have hof : OfTree t (.node t 4 0) := rfl
  have hempty : ∀ i, i < 256 → isPresent (entryAt (copyUpperHalf r'.mem sup p) p i) = false := by
    intro i hi
    rw [entryAt_copyUpperHalf _ _ _ (by omega), if_pos hi, fr.zeroed,
      show entryAt (r.mem.fill p 4096 0) p i = 0 from r.mem.readU64_fill_zero (by omega) (by omega),
      isPresent_zero]
  refine ⟨?_, fr.fill hof hother h.tables, fun va hv => ?_⟩
  rotate_left
  · rw [walk_lower hv, walkFrom_absent _ (hempty _ (tableIndex_lower hv))]
  have hok := fr.ok (.node t 4 0)
  refine ⟨⟨hok.wellFormed.aligned, hok.wellFormed.taken, hok.wellFormed.distinct⟩, hok.managed,
    hok.owned_live, hok.tables.update (Owners.assign_self ..) hother fun i hi => ?_⟩
  change EntryOk _ _ _ _ _ _ (entryAt (copyUpperHalf r'.mem sup p) p i)
  by_cases h256 : i < 256
  · exact .absent (hempty i h256)
  · rw [entryAt_copyUpperHalf _ _ _ hi, if_neg h256]
    have hsame : entryAt r'.mem sup i = entryAt r.mem sup i := by
      rw [fr.zeroed]
      exact entryAt_congr (r.mem.fill_sameFrame 0 fr.aligned hsp) (h.tables.ram sup _ hsup).2.1 hi
    rw [hsame]
    obtain ⟨hu, hs⟩ := hupper i (by omega) hi
    cases hp : isPresent (entryAt r.mem sup i) with
    | false => exact .absent hp
    | true => exact .upper rfl (by omega) hu (hx _ _ (h.tables.shared sup 3 hsup (by decide) i hi hp hs))

/-! ## Segments -/

/-- The part of the image that has been loaded is mapped. -/
structure LoadOk (own : Owners Nat) (isRam : Nat → Prop) (t root : Nat) (l : Loading) : Prop where
  ok : RamOk own isRam l.ram
  rooted : own root = some (.node t 4 0)
  aligned : l.imageEnd % 4096 = 0
  start : 0x1000 ≤ l.imageEnd
  fits : l.imageEnd ≤ 0x7FF000
  image : PagesOk own l.ram.mem t root 0x1000 l.imageEnd false
  data : l.imageDataStart ≠ 0 → l.imageDataEnd ≤ l.imageEnd ∧
    PagesOk own l.ram.mem t root l.imageDataStart l.imageDataEnd true

/-- Nothing has been loaded yet. -/
theorem LoadOk.empty (h : RamOk own isRam r) (hroot : own root = some (.node t 4 0))
    (frames : List Nat) {dataStart : Nat} (dataEnd : Nat) (hd : dataStart = 0) :
    LoadOk own isRam t root ⟨r, frames, shardCodeVaddr, dataStart, dataEnd⟩ :=
  ⟨h, hroot, (rfl : 0x1000 % 4096 = 0), Nat.le_refl _, show 0x1000 ≤ 0x7FF000 by decide,
    fun _ h1 h2 => absurd (Nat.lt_of_le_of_lt h1 h2) (Nat.lt_irrefl _), fun hne => absurd hd hne⟩

/-- The stages of one round of the segment loop. -/
theorem loadSegment_eq_ok {image : Slice} {l l' : Loading} {seg : Segment}
    (h : loadSegment image root l seg = .ok l') : seg.vaddr = l.imageEnd ∧
      (seg.writable = true → seg.executable = false) ∧ seg.memSize ≤ shardStackVaddr - seg.vaddr ∧
      loadPages image root seg seg.flags ((seg.memSize + 4095) / 4096) 0 l.ram l.frames =
        .ok (l'.ram, l'.frames) ∧
      l'.imageEnd = seg.vaddr + (seg.memSize + 4095) / 4096 * 4096 ∧
      (seg.writable = true ∧ l'.imageDataStart = seg.vaddr ∧ l'.imageDataEnd = l'.imageEnd ∨
        seg.writable = false ∧ l'.imageDataStart = l.imageDataStart ∧
          l'.imageDataEnd = l.imageDataEnd) := by
  unfold loadSegment at h
  obtain ⟨_, hvaddr, h⟩ := Kernel.bind_eq_ok h
  obtain ⟨_, hwx, h⟩ := Kernel.bind_eq_ok h
  obtain ⟨_, hfits, h⟩ := Kernel.bind_eq_ok h
  have hwx := Kernel.assert_eq_ok hwx
  refine ⟨beq_iff_eq.mp (Kernel.assert_eq_ok hvaddr), fun hw => by simpa [hw] using hwx,
    of_decide_eq_true (Kernel.assert_eq_ok hfits), ?_⟩
  simp only at h
  split at h
  · rename_i hw
    obtain ⟨_, -, h⟩ := Kernel.bind_eq_ok h
    obtain ⟨⟨ram, frames⟩, hpages, h⟩ := Kernel.bind_eq_ok h
    obtain rfl := Except.ok.inj h
    exact ⟨hpages, rfl, Or.inl ⟨hw, rfl, rfl⟩⟩
  · rename_i hw
    obtain ⟨⟨ram, frames⟩, hpages, h⟩ := Kernel.bind_eq_ok h
    obtain rfl := Except.ok.inj h
    exact ⟨hpages, rfl, Or.inr ⟨by simpa using hw, rfl, rfl⟩⟩

/-- A leaf of a loaded segment: it lies in the pages of the segment and has its
permissions, which are never both to write and to execute. -/
def SegmentLeaf (segs : List Segment) (va : Nat) (leaf : Leaf) : Prop :=
  ∃ seg ∈ segs, 0x1000 ≤ seg.vaddr ∧ (seg.writable = true → seg.executable = false) ∧
    PagesLeaf seg.vaddr (seg.vaddr + (seg.memSize + 4095) / 4096 * 4096) seg.flags va leaf

theorem SegmentLeaf.mono {segs segs' : List Segment} {va : Nat} {leaf : Leaf}
    (hs : ∀ seg ∈ segs, seg ∈ segs') (h : SegmentLeaf segs va leaf) : SegmentLeaf segs' va leaf := by
  obtain ⟨seg, hseg, h⟩ := h
  exact ⟨seg, hs seg hseg, h⟩

/-- The bytes a segment takes in memory: whole pages. -/
def Segment.extent (seg : Segment) : Nat := (seg.memSize + 4095) / 4096 * 4096

/-- The segments are mapped, byte by byte as the file has them. -/
def ImageBytes (image : Slice) (segs : List Segment) (own : Owners Nat) (m : Memory)
    (t root : Nat) : Prop :=
  ∀ seg ∈ segs, seg.vaddr + seg.extent ≤ 0x7FF000 ∧
    SegmentBytes image seg own m t root 0 seg.extent

theorem ImageBytes.mono {image : Slice} {segs : List Segment}
    (h : ImageBytes image segs own r.mem t root) (ha : Adds t root own r own' r' isRam) :
    ImageBytes image segs own' r'.mem t root := by
  intro seg hseg
  obtain ⟨hfits, hbytes⟩ := h seg hseg
  exact ⟨hfits, hbytes.mono (Nat.le_trans hfits (by decide)) ha⟩

/-- **One segment.** -/
theorem loadSegment_bytes {image : Slice} {l l' : Loading} {seg : Segment}
    (h : LoadOk own isRam t root l) (hl : loadSegment image root l seg = .ok l') :
    ∃ own' taken, LoadOk own' isRam t root l' ∧ l'.frames = l.frames ++ taken ∧
      AddsPages (SegmentLeaf [seg]) taken t root own l.ram own' l'.ram isRam ∧
      ImageBytes image [seg] own' l'.ram.mem t root := by
  obtain ⟨hvaddr, hwx, hsize, hpages, hend, hdata⟩ := loadSegment_eq_ok hl
  have haligned := h.aligned
  have hfits := h.fits
  have hstart := h.start
  simp only [shardStackVaddr] at hsize
  -- the segment ends at a page boundary below the stack
  have hend' : l'.imageEnd ≤ 0x7FF000 ∧ l'.imageEnd % 4096 = 0 ∧ l.imageEnd ≤ l'.imageEnd := by
    rw [hend]
    omega
  obtain ⟨own', taken, hframes, adds, bytes⟩ := loadPages_bytes (by rw [hvaddr]; exact haligned) 0
    h.ok h.rooted (by rw [Nat.zero_add, ← hend]; omega) hpages
  rw [Nat.zero_add, Nat.zero_mul] at bytes
  have pages := bytes.pagesOk
  rw [← hend, Nat.add_zero, hvaddr] at pages
  rw [Nat.zero_add, Nat.zero_mul, Nat.add_zero] at adds
  have hold : PagesOk own' l'.ram.mem t root 0x1000 l.imageEnd false :=
    h.image.mono (by omega) adds.grows.keeps adds.keeps
  refine ⟨own', taken, ⟨adds.ok, adds.grows.keeps _ _ h.rooted, hend'.2.1, by omega, hend'.1,
    fun va h1 h2 => ?_, fun hne => ?_⟩, hframes, adds.weaken fun va leaf hl =>
      ⟨seg, List.mem_singleton_self seg, by omega, hwx, hl⟩, fun seg' hseg' => ?_⟩
  · by_cases hva : va < l.imageEnd
    · exact hold va h1 hva
    · exact (pages va (by omega) h2).weaken
  · rcases hdata with ⟨hw, hds, hde⟩ | ⟨-, hds, hde⟩
    · rw [hds, hde, hvaddr]
      rw [hw] at pages
      exact ⟨Nat.le_refl _, pages⟩
    · rw [hds] at hne ⊢
      rw [hde]
      obtain ⟨hle, hp⟩ := h.data hne
      exact ⟨by omega, hp.mono (by omega) adds.grows.keeps adds.keeps⟩
  · obtain rfl := List.mem_singleton.mp hseg'
    exact ⟨hend ▸ hend'.1, bytes⟩

/-- **The segment loop of `create`.** -/
theorem loadSegments_bytes {image : Slice} {segs : List Segment} : ∀ {own : Owners Nat} {l l' : Loading},
    LoadOk own isRam t root l → loadSegments image root segs l = .ok l' →
    ∃ own' taken, LoadOk own' isRam t root l' ∧ l'.frames = l.frames ++ taken ∧
      AddsPages (SegmentLeaf segs) taken t root own l.ram own' l'.ram isRam ∧
      ImageBytes image segs own' l'.ram.mem t root := by
  induction segs with
  | nil =>
    intro own l l' h hl
    obtain rfl := Except.ok.inj hl
    exact ⟨own, [], h, (List.append_nil _).symm, AddsPages.refl h.ok, nofun⟩
  | cons seg segs ih =>
    intro own l l' h hl
    obtain ⟨l₁, hseg, hl⟩ := Kernel.bind_eq_ok hl
    obtain ⟨own₁, taken₁, h₁, hframes₁, adds₁, bytes₁⟩ := loadSegment_bytes h hseg
    obtain ⟨own', taken', h', hframes', adds', bytes'⟩ := ih h₁ hl
    refine ⟨own', taken₁ ++ taken', h', by rw [hframes', hframes₁, List.append_assoc], ?_,
      fun seg' hseg' => ?_⟩
    · exact AddsPages.trans
        (adds₁.weaken fun _ _ => .mono fun x hx => List.mem_singleton.mp hx ▸ List.mem_cons_self ..)
        (adds'.weaken fun _ _ => .mono fun x hx => List.mem_cons_of_mem _ hx)
    · rcases List.mem_cons.mp hseg' with rfl | hrest
      · exact bytes₁.mono adds'.toAdds _ (List.mem_singleton_self _)
      · exact bytes' seg' hrest

/-! ## The invariant of boot -/

/-- Every shard that exists has its address space in order, and its frames listed. -/
structure Spaces (own : Owners Nat) (isRam : Nat → Prop) (s : Sys) : Prop where
  ram : RamOk own isRam s.ram
  shard : ∀ i, (s.desc i).state ≠ .free → SpaceOk own s.ram.mem i (s.desc i)
  frames : ∀ i, (s.desc i).state ≠ .free → FramesOk own s.ram.mem i (s.desc i)

/-- **What an operation gives to address spaces**: frames to shards it acts for, and to
these the leaves `new`.  What was mapped before stays. -/
structure Gains (acts : Nat → Prop) (new : Nat → Leaf → Prop) (own : Owners Nat) (s : Sys)
    (own' : Owners Nat) (s' : Sys) : Prop where
  keeps : own.Extends own'
  adds : ∀ f o, own' f = some o → own f = some o ∨ ∃ t, acts t ∧ OfTree t o
  managed : ∀ f, s'.ram.Managed f ↔ s.ram.Managed f
  took : ∀ f, (own f = none ∧ ∃ o, own' f = some o) ↔ (¬ s.ram.Live f ∧ s'.ram.Live f)
  root : ∀ i, (s.desc i).state ≠ .free → (s'.desc i).pml4Phys = (s.desc i).pml4Phys
  pages : ∀ i, (s.desc i).state ≠ .free → KeepsPages (s.desc i).pml4Phys s.ram.mem s'.ram.mem
  leaves : ∀ i va leaf, (s'.desc i).state ≠ .free → va < 0x800000000000 →
    walk s'.ram.mem (s'.desc i).pml4Phys va = some leaf →
    ((s.desc i).state ≠ .free ∧ walk s.ram.mem (s.desc i).pml4Phys va = some leaf) ∨
      (acts i ∧ new va leaf)

/-- Frames and tables are as before. -/
theorem Gains.of_walk {acts : Nat → Prop} {new : Nat → Leaf → Prop}
    (hregions : s'.ram.subRegions = s.ram.subRegions) (hbitmap : s'.ram.bitmap = s.ram.bitmap)
    (hroot : ∀ i, (s'.desc i).pml4Phys = (s.desc i).pml4Phys)
    (hfree : ∀ i, (s'.desc i).state ≠ .free → (s.desc i).state ≠ .free)
    (hwalk : ∀ i va, (s.desc i).state ≠ .free → va < 0x800000000000 →
      walk s'.ram.mem (s.desc i).pml4Phys va = walk s.ram.mem (s.desc i).pml4Phys va) :
    Gains acts new own s own s' where
  keeps := Owners.Extends.refl own
  adds _ _ h := Or.inl h
  managed f := by
    unfold Ram.Managed
    rw [hregions, hbitmap]
  took f := by
    unfold Ram.Live
    rw [hregions]
    exact Grows.took_self
  root i _ := hroot i
  pages i hi va leaf hv hw := by rw [hwalk i va hi hv, hw]
  leaves i va leaf hi hv hw := by
    rw [hroot, hwalk i va (hfree i hi) hv] at hw
    exact Or.inl ⟨hfree i hi, hw⟩

/-- The tree of one shard has grown. -/
theorem Grows.gains {acts : Nat → Prop} {new : Nat → Leaf → Prop} (hg : Grows t own s.ram own' s'.ram isRam)
    (h : Spaces own isRam s) (hacts : acts t)
    (hother : ∀ i, i ≠ t → (s'.desc i).pml4Phys = (s.desc i).pml4Phys ∧
      ((s'.desc i).state ≠ .free → (s.desc i).state ≠ .free))
    (hself : (s.desc t).state ≠ .free → (s'.desc t).pml4Phys = (s.desc t).pml4Phys ∧
      KeepsPages (s.desc t).pml4Phys s.ram.mem s'.ram.mem)
    (hleaves : ∀ va leaf, va < 0x800000000000 → walk s'.ram.mem (s'.desc t).pml4Phys va = some leaf →
      ((s.desc t).state ≠ .free ∧ walk s.ram.mem (s.desc t).pml4Phys va = some leaf) ∨ new va leaf) :
    Gains acts new own s own' s' where
  keeps := hg.keeps
  adds f o hf := (hg.adds f o hf).imp_right fun ho => ⟨t, hacts, ho⟩
  managed := hg.managed
  took := hg.took
  root i hi := by
    by_cases hit : i = t
    · subst hit
      exact (hself hi).1
    · exact (hother i hit).1
  pages i hi va leaf hv hw := by
    by_cases hit : i = t
    · subst hit
      exact (hself hi).2 va leaf hv hw
    · rw [hg.walk_other h.ram (h.shard i hi).root hit hv, hw]
  leaves i va leaf hi hv hw := by
    by_cases hit : i = t
    · subst hit
      exact (hleaves va leaf hv hw).imp_right fun hn => ⟨hacts, hn⟩
    · obtain ⟨hroot, hfree⟩ := hother i hit
      rw [hroot, hg.walk_other h.ram (h.shard i (hfree hi)).root hit hv] at hw
      exact Or.inl ⟨hfree hi, hw⟩

/-- What holds after every call of boot. -/
structure BootOk (own : Owners Nat) (isRam : Nat → Prop) (s : Sys) : Prop where
  spaces : Spaces own isRam s
  supervisor : own s.supervisorPml4 = some (.shared 4)
  upper : UpperOk s.ram.mem s.supervisorPml4
  unused : ∀ i, (s.desc i).state = .free → (s.desc i).space = ShardDescriptor.initial.space
  unowned : ∀ i, (s.desc i).state = .free → ∀ f o, own f = some o → ¬ OfTree i o
  descs : ∀ i, DescOk (s.desc i)

/-- A call that adds to the address space of shard `t` only. -/
theorem BootOk.grow (h : BootOk own isRam s) (hok : RamOk own' isRam s'.ram)
    (hg : Grows t own s.ram own' s'.ram isRam) (hsup : s'.supervisorPml4 = s.supervisorPml4)
    (hother : ∀ i, i ≠ t → s'.desc i = s.desc i) (hcreated : (s'.desc t).state ≠ .free)
    (hspace : SpaceOk own' s'.ram.mem t (s'.desc t)) (hframes : FramesOk own' s'.ram.mem t (s'.desc t))
    (hdesc : DescOk (s'.desc t)) : BootOk own' isRam s' where
  spaces := by
    refine ⟨hok, fun i hi => ?_, fun i hi => ?_⟩
    · by_cases hit : i = t
      · rw [hit]
        exact hspace
      · rw [hother i hit] at hi ⊢
        exact (h.spaces.shard i hi).grows_other h.spaces.ram hg hit
    · by_cases hit : i = t
      · rw [hit]
        exact hframes
      · rw [hother i hit] at hi ⊢
        exact (h.spaces.frames i hi).grows_other hg hit
  supervisor := by
    rw [hsup]
    exact hg.keeps _ _ h.supervisor
  upper := by
    have hframe := hg.contents _ _ h.supervisor (by rintro ⟨k, p, he⟩; cases he)
    rw [hsup]
    intro i h1 h2
    rw [entryAt_congr hframe (h.spaces.ram.tables.ram _ _ h.supervisor).2.1 h2]
    exact h.upper i h1 h2
  unused i hi := by
    by_cases hit : i = t
    · rw [hit] at hi
      exact absurd hi hcreated
    · rw [hother i hit] at hi ⊢
      exact h.unused i hi
  unowned i hi f o hf ho := by
    have hit : i ≠ t := fun he => hcreated (he ▸ hi)
    rw [hother i hit] at hi
    rcases hg.adds f o hf with hold | hnew
    · exact h.unowned i hi f o hold ho
    · exact hit (ho.unique hnew)
  descs i := by
    by_cases hit : i = t
    · rw [hit]
      exact hdesc
    · rw [hother i hit]
      exact h.descs i

/-- A call that leaves memory and address spaces alone. -/
theorem BootOk.silent (h : BootOk own isRam s) (hram : s'.ram = s.ram)
    (hsup : s'.supervisorPml4 = s.supervisorPml4)
    (hdesc : ∀ i, Keeps (s.desc i) (s'.desc i) ∧ (s'.desc i).state = (s.desc i).state) :
    BootOk own isRam s' where
  spaces := by
    refine ⟨hram ▸ h.spaces.ram, fun i hi => ?_, fun i hi => ?_⟩
    · rw [(hdesc i).2] at hi
      rw [hram]
      exact (h.spaces.shard i hi).of_space (hdesc i).1.space
    · rw [(hdesc i).2] at hi
      rw [hram]
      exact (h.spaces.frames i hi).of_space (hdesc i).1.space
  supervisor := by
    rw [hsup]
    exact h.supervisor
  upper := by
    rw [hsup, hram]
    exact h.upper
  unused i hi := by
    rw [(hdesc i).2] at hi
    rw [(hdesc i).1.space]
    exact h.unused i hi
  unowned i hi := h.unowned i ((hdesc i).2 ▸ hi)
  descs i := (h.descs i).keeps (hdesc i).1

/-! ## The calls -/

theorem setupInitialKernelStack_sameFrame (m : Memory) (entry : Nat) {p f : Nat} (hp : p % 4096 = 0)
    (hf : f ≠ p) : Memory.SameFrame m (setupInitialKernelStack m p entry) f := by
  intro x hx
  have hout : ¬ (p ≤ x ∧ x < p + 4096) := fun hc => hf (by
    rw [← hx]
    exact Memory.frameOf_eq hp hc.1 hc.2)
  refine (Memory.writeLE_of_not_mem _ (by omega)).trans ?_
  exact Memory.fill_of_not_mem _ (by omega)

/-- A kernel stack: a fresh frame with contents, held by tree `t` and mapped nowhere. -/
theorem heldFrame_spec (new : Nat → Leaf → Prop) (h : RamOk own isRam r) {p : Nat} {m : Memory}
    (hroot : own root = some (.node t 4 0)) (ha : r.allocFrameZeroed = some (p, r'))
    (hm : ∀ f, f ≠ p → Memory.SameFrame r'.mem m f) :
    AddsPages new [p] t root own r (own.assign p (.held t)) { r' with mem := m } isRam := by
  have fr := h.alloc ha
  have hof : OfTree t (.held t) := rfl
  have hsame : ∀ va, va < 0x800000000000 → walk m root va = walk r.mem root va := fun va hv =>
    walk_fresh h fr hroot hm hv
  refine ⟨⟨(fr.ok _).setMem fun f o hf ht => hm f fun he => ?_, fr.fill hof hm h.tables,
    fun va leaf hv hw => (hsame va hv).trans hw⟩, fun va leaf hv hw => Or.inl ((hsame va hv).symm.trans hw),
    fr.takes_fill (Or.inr rfl) hm h.tables⟩
  rw [he, Owners.assign_self] at hf
  cases hf
  cases ht

/-- An address space without a data region: the image and the stack. -/
theorem SpaceOk.of_image {m : Memory} {d : ShardDescriptor}
    (hroot : own d.pml4Phys = some (.node t 4 0)) (hkstack : own d.kernelStackPhys = some (.held t))
    (hfits : d.imageEnd ≤ 0x7FF000) (himage : PagesOk own m t d.pml4Phys 0x1000 d.imageEnd false)
    (hdata : d.imageDataStart ≠ 0 → d.imageDataEnd ≤ d.imageEnd ∧
      PagesOk own m t d.pml4Phys d.imageDataStart d.imageDataEnd true)
    (hstack : PagesOk own m t d.pml4Phys 0x7FF000 0x800000 true) (hnone : d.dataStart = 0) :
    SpaceOk own m t d := by
  have hstack' : ∀ va, dataRegions d va (va + 1) → 0x7FF000 ≤ va ∧ va < 0x800000 := by
    intro va hva
    unfold dataRegions at hva
    omega
  refine ⟨hroot, hkstack, fun va hva => ?_, fun va hva => ?_, fun va hva => ?_⟩
  · rcases hva with (⟨-, hi⟩ | hd) | (⟨hne, -, hi⟩ | hd)
    · omega
    · exact (hstack' va hd).2
    · have := (hdata hne).1
      omega
    · exact (hstack' va hd).2
  · rcases hva with ⟨h1, h2⟩ | hd
    · exact himage va h1 (by omega)
    · exact (hstack va (hstack' va hd).1 (hstack' va hd).2).weaken
  · rcases hva with ⟨hne, h1, h2⟩ | hd
    · exact (hdata hne).2 va h1 (by omega)
    · exact hstack va (hstack' va hd).1 (hstack' va hd).2

/-- A tree that has its root table only. -/
theorem FramesOk.newRoot {p : Nat} {m : Memory} {d : ShardDescriptor}
    (hnone : ∀ f o, own f = some o → ¬ OfTree t o) (hroot : d.pml4Phys = p)
    (hframes : d.allocatedFrames = [p]) : FramesOk (own.assign p (.node t 4 0)) m t d := by
  have hself : ∀ f o, own.assign p (.node t 4 0) f = some o → OfTree t o → f = p ∧ o = .node t 4 0 := by
    intro f o hf ho
    by_cases hfp : f = p
    · rw [hfp, Owners.assign_self] at hf
      exact ⟨hfp, (Option.some.inj hf).symm⟩
    · rw [own.assign_of_ne _ hfp] at hf
      exact absurd ho (hnone f o hf)
  refine ⟨fun f k q hf hk => ?_, fun f k q _ hf => ?_, [], by rw [hframes, hroot], List.nodup_nil,
    fun f => ⟨?_, nofun⟩⟩
  · have := (Owner.node.inj (hself f _ hf rfl).2).2.1
    omega
  · rw [hroot]
    exact (hself f _ hf rfl).1
  · rintro (⟨q, hf⟩ | hf)
    · cases (hself f _ hf rfl).2
    · cases (hself f _ hf rfl).2

/-- The shard a call of boot acts for. -/
def BootOp.target (s : Sys) : BootOp → Option Nat
  | .create _ _ => firstFrom (fun i => (s.desc i).state == .free) maxShards 0
  | .gpuConfigPage shardId _ _ _ => some shardId
  | .pipelineConfig shardId _ _ _ _ _ => some shardId
  | .mapBar shardId _ _ _ _ => some shardId
  | .mapVram shardId _ _ => some shardId
  | _ => none

/-- The flags of a config page. -/
abbrev configFlags : Nat := pteUser ||| pteNoExecute

/-- The leaves of a new shard: its segments and its stack. -/
def CreatedLeaf (segs : List Segment) (va : Nat) (leaf : Leaf) : Prop :=
  SegmentLeaf segs va leaf ∨ PagesLeaf shardStackVaddr (shardStackVaddr + 4096) dataFlags va leaf

/-- The leaves a call of boot adds. -/
def BootOp.NewLeaf (s : Sys) (va : Nat) (leaf : Leaf) : BootOp → Prop
  | .create image _ => ∃ elf, parse image = .ok elf ∧ CreatedLeaf elf.segments va leaf
  | .gpuConfigPage _ _ _ _ => PagesLeaf gpuConfigVaddr (gpuConfigVaddr + 4096) configFlags va leaf
  | .pipelineConfig _ _ _ _ _ _ =>
    PagesLeaf pipelineConfigVaddr (pipelineConfigVaddr + 4096) configFlags va leaf
  | .mapBar _ _ barSize virtBase cap =>
    PagesLeaf virtBase (virtBase + windowPages (min barSize cap) * 4096) deviceFlags va leaf
  | .mapVram _ partition vramVaddr => PagesLeaf vramVaddr
      (vramVaddr + windowPages (min (s.partition partition).vramSize maxVramMap) * 4096) deviceFlags va leaf
  | _ => False

/-- What a call of boot gives to address spaces. -/
def BootGains (s : Sys) (call : BootOp) (own : Owners Nat) (own' : Owners Nat) (s' : Sys) : Prop :=
  Gains (fun i => call.target s = some i) (fun va leaf => call.NewLeaf s va leaf) own s own' s'

/-- **`create`** builds the address space of the new shard, and the image in it. -/
theorem BootOk.create_image {image : Slice} {priority : Priority} {id : Nat}
    (h : BootOk own isRam s) (ok : CreateOk s image priority s' id) :
    ∃ own', BootOk own' isRam s' ∧ BootGains s (.create image priority) own own' s' ∧
      ImageBytes image ok.elf.segments own' s'.ram.mem id (s'.desc id).pml4Phys := by
  have hspace := h.unused id ok.free
  obtain ⟨-, -, -, -, hids, -, hds, -, -, -⟩ := Space.mk.inj hspace
  -- the root table, the image, the stack, the kernel stack
  obtain ⟨ok₀, grows₀, hempty⟩ := newRoot_spec h.spaces.ram h.supervisor h.upper ok.pml4 id
  have hload := LoadOk.empty ok₀ (Owners.assign_self ..) [ok.pml4Phys] (s.desc id).imageDataEnd hids
  obtain ⟨own₁, taken, load, hframes, adds₁, bytes⟩ := loadSegments_bytes hload ok.segments
  obtain ⟨own₂, adds₂, -, stack⟩ := mapFresh_spec (w := true) load.ok load.rooted
    (by decide) (by decide) ok.stack (fun f _ => Memory.SameFrame.refl _ _) (by decide) (by decide)
    (by decide) ok.mapStack
  have hroot₂ := adds₂.grows.keeps _ _ load.rooted
  have adds₃ := heldFrame_spec (CreatedLeaf ok.elf.segments) adds₂.ok hroot₂ ok.kstack fun f hf =>
    setupInitialKernelStack_sameFrame _ shardFirstEntry (adds₂.ok.alloc ok.kstack).aligned hf
  have adds := (adds₂.weaken fun _ _ => Or.inr).trans adds₃
  have all := (adds₁.weaken fun _ _ => Or.inl).trans adds
  obtain ⟨-, hframes₁⟩ := pushFrame_eq_ok ok.pushStack
  obtain ⟨-, hframes₂⟩ := pushFrame_eq_ok ok.pushKstack
  have hram : s'.ram = { ok.ram₃ with
      mem := setupInitialKernelStack ok.ram₃.mem ok.kstackPhys shardFirstEntry } :=
    congrArg Sys.ram ok.result
  have hsup : s'.supervisorPml4 = s.supervisorPml4 := by
    have := congrArg Sys.supervisorPml4 ok.result
    exact this
  have hpml4 : (s'.desc id).pml4Phys = ok.pml4Phys := congrArg ShardDescriptor.pml4Phys ok.desc_self
  have hgrows := grows₀.trans all.grows
  rw [← hram] at adds adds₃ all hgrows
  refine ⟨_, h.grow (t := id) adds.ok hgrows hsup (fun i hi => ok.desc_of_ne hi)
    (by rw [ok.desc_self]; exact nofun) ?_ ?_ ?_, hgrows.gains h.spaces ok.first (fun i hi => ?_)
    (fun hc => absurd ok.free hc) (fun va leaf hv hw => ?_),
    hpml4 ▸ bytes.mono adds.toAdds⟩
  · rw [ok.desc_self]
    have hfits := load.fits
    refine .of_image (adds₃.grows.keeps _ _ hroot₂) (Owners.assign_self ..) hfits
      (load.image.mono (by omega) adds.grows.keeps adds.keeps) (fun hne => ?_) ?_ hds
    · obtain ⟨hle, hp⟩ := load.data hne
      exact ⟨hle, hp.mono (by omega) adds.grows.keeps adds.keeps⟩
    · intro va h1 h2
      refine (stack va ?_).mono (by omega) adds₃.grows.keeps adds₃.keeps
      simp only [shardStackVaddr]
      omega
  · refine (FramesOk.newRoot (d := { s'.desc id with allocatedFrames := [ok.pml4Phys] })
      (h.unowned id ok.free) hpml4 rfl).adds all rfl ?_
    rw [ok.desc_self]
    change ok.frames₂ = [ok.pml4Phys] ++ _
    rw [hframes₂, hframes₁, hframes, List.append_assoc, List.append_assoc]
  · rw [ok.desc_self]
    exact ⟨Nat.lt_of_lt_of_le (by decide) load.start, (h.descs id).unveil, fun _ _ hw => by cases hw⟩
  · rw [ok.desc_of_ne hi]
    exact ⟨rfl, fun hc => hc⟩
  · rw [hpml4] at hw
    refine Or.inr ⟨ok.elf, ok.parsed, (all.only va leaf hv hw).resolve_left fun hold => ?_⟩
    rw [hempty va hv] at hold
    cases hold

theorem BootOk.create {image : Slice} {priority : Priority} {id : Nat} (h : BootOk own isRam s)
    (ok : CreateOk s image priority s' id) :
    ∃ own', BootOk own' isRam s' ∧ BootGains s (.create image priority) own own' s' := by
  obtain ⟨own', hboot, hgains, -⟩ := h.create_image ok
  exact ⟨own', hboot, hgains⟩

/-- Stores of words into one frame. -/
theorem writeFields_sameFrame {p f : Nat} (hp : p % 4096 = 0) (hf : f ≠ p) :
    ∀ {fields : List (Nat × Nat × Nat)} {m : Memory}, (∀ x ∈ fields, x.1 + x.2.1 ≤ 4096) →
      Memory.SameFrame m (writeFields m p fields) f := by
  intro fields
  induction fields with
  | nil => exact fun _ => Memory.SameFrame.refl _ _
  | cons x fields ih =>
    obtain ⟨off, width, value⟩ := x
    intro m hx
    have hx0 : off + width ≤ 4096 := hx _ (List.mem_cons_self ..)
    exact (m.writeLE_sameFrame hp (by omega) (by omega) hf).trans
      (ih fun y hy => hx y (List.mem_cons_of_mem _ hy))

theorem gpuConfigFields_fit (p : GpuPartition) (vramVaddr mmioVaddr : Nat) :
    ∀ x ∈ gpuConfigFields p vramVaddr mmioVaddr, x.1 + x.2.1 ≤ 4096 := by
  intro x hx
  simp only [gpuConfigFields, List.mem_cons, List.not_mem_nil, or_false] at hx
  rcases hx with rfl | rfl | rfl | rfl | rfl | rfl <;> exact of_decide_eq_true rfl

theorem pipelineConfigFields_fit (stage numStages channelId layersStart layersEnd : Nat) :
    ∀ x ∈ pipelineConfigFields stage numStages channelId layersStart layersEnd,
      x.1 + x.2.1 ≤ 4096 := by
  intro x hx
  simp only [pipelineConfigFields, List.mem_cons, List.not_mem_nil, or_false] at hx
  rcases hx with rfl | rfl | rfl | rfl | rfl | rfl <;> exact of_decide_eq_true rfl

/-- Pages were added to the address space of a shard, and their frames listed. -/
theorem BootOk.adds {new : Nat → Leaf → Prop} {frames : List Nat} {call : BootOp} (h : BootOk own isRam s)
    (hcreated : (s.desc t).state ≠ .free)
    (ha : AddsPages new frames t (s.desc t).pml4Phys own s.ram own' s'.ram isRam)
    (hsup : s'.supervisorPml4 = s.supervisorPml4) (hother : ∀ i, i ≠ t → s'.desc i = s.desc i)
    (hself : s'.desc t = { s.desc t with allocatedFrames := (s.desc t).allocatedFrames ++ frames })
    (htarget : call.target s = some t) (hnew : ∀ va leaf, new va leaf → call.NewLeaf s va leaf) :
    BootOk own' isRam s' ∧ BootGains s call own own' s' := by
  have hspace := (h.spaces.shard t hcreated).mono ha.grows.keeps ha.keeps
  have hd := h.descs t
  have hstate : (s'.desc t).state ≠ .free := by
    rw [hself]
    exact hcreated
  have hroot : (s'.desc t).pml4Phys = (s.desc t).pml4Phys := by rw [hself]
  refine ⟨h.grow ha.ok ha.grows hsup hother hstate ?_ ((h.spaces.frames t hcreated).adds ha hroot ?_) ?_,
    ha.grows.gains h.spaces htarget (fun i hi => ?_) (fun _ => ⟨hroot, ha.keeps⟩) fun va leaf hv hw => ?_⟩
  · rw [hself]
    exact hspace.setFrames _
  · rw [hself]
  · rw [hself]
    exact ⟨hd.image, hd.unveil, hd.waiting⟩
  · rw [hother i hi]
    exact ⟨rfl, id⟩
  · rw [hroot] at hw
    exact (ha.only va leaf hv hw).imp (fun hold => ⟨hcreated, hold⟩) (hnew va leaf)

/-- The config page is mapped for reading. -/
def ConfigMapped (s : Sys) (i vaddr : Nat) : Prop :=
  ∀ va, va / 4096 = vaddr / 4096 → ∃ leaf, walk s.ram.mem (s.desc i).pml4Phys va = some leaf ∧
    LeafFlags configFlags leaf

/-- **A config page** is one more page of the shard. -/
theorem BootOk.configPage {id vaddr : Nat} {p : Panic} {fields : List (Nat × Nat × Nat)}
    (h : BootOk own isRam s) (call : BootOp) (hcreated : s.Created id) (hv : vaddr < 0x800000000000)
    (hva : vaddr % 4096 = 0) (hfields : ∀ x ∈ fields, x.1 + x.2.1 ≤ 4096)
    (hrun : mapConfigPage s id (s.pml4Of id) vaddr p fields = .ok s')
    (htarget : call.target s = some id) (hnew : ∀ va leaf,
      PagesLeaf vaddr (vaddr + 4096) configFlags va leaf → call.NewLeaf s va leaf) :
    ConfigMapped s' id vaddr ∧ ∃ own', BootOk own' isRam s' ∧ BootGains s call own own' s' := by
  obtain ⟨phys, r₀, r₁, hi, halloc, hmap, -, rfl⟩ := mapConfigPage_eq_ok hrun
  have hstate : (s.desc id).state ≠ .free := hcreated.2
  have hspace := h.spaces.shard id hstate
  obtain ⟨own', adds, maps, -⟩ := mapFresh_spec (w := false) h.spaces.ram hspace.root hv hva halloc
    (fun f hf => writeFields_sameFrame (h.spaces.ram.alloc halloc).aligned hf hfields)
    (by decide) (by decide) (by decide) hmap
  have hdesc := Sys.desc_modifyShard { s with ram := r₁ } hi fun d =>
    { d with allocatedFrames := d.allocatedFrames ++ [phys] }
  refine ⟨fun va hpage => ?_, own', h.adds hstate adds rfl (fun i hne => ?_) ?_ htarget hnew⟩
  · rw [hdesc, if_pos rfl]
    exact ⟨_, maps.page va hpage, rfl, rfl, rfl⟩
  · rw [hdesc, if_neg hne]
    rfl
  · rw [hdesc, if_pos rfl]
    rfl

/-- **A device window** adds no memory to the shard. -/
theorem BootOk.deviceWindow {id virtBase physBase mapSize : Nat} {call : BootOp} (h : BootOk own isRam s)
    (hcreated : s.Created id) (hwin : DeviceWindow isRam virtBase physBase mapSize)
    (hrun : mapDevicePages (s.pml4Of id) virtBase physBase (windowPages mapSize) 0 s.ram = .ok r')
    (htarget : call.target s = some id) (hnew : ∀ va leaf,
      PagesLeaf virtBase (virtBase + windowPages mapSize * 4096) deviceFlags va leaf →
        call.NewLeaf s va leaf) :
    ∃ own', BootOk own' isRam { s with ram := r' } ∧ BootGains s call own own' { s with ram := r' } := by
  have hspace := h.spaces.shard id hcreated.2
  obtain ⟨own', adds⟩ := mapDevicePages_spec hwin.aligned 0 h.spaces.ram hspace.root
    (by rw [Nat.zero_add]; exact hwin.lower)
    (fun j _ hj => hwin.device j (by rwa [Nat.zero_add] at hj)) hrun
  rw [Nat.zero_add, Nat.zero_mul, Nat.add_zero] at adds
  refine ⟨own', h.adds hcreated.2 adds rfl (fun _ _ => rfl) ?_ htarget hnew⟩
  rw [List.append_nil]
  rfl

theorem keeps_modifyCap (s : Sys) {i : Nat} (hi : i < maxShards) (slot : Nat) (f : CapEntry → CapEntry)
    (j : Nat) : Keeps (s.desc j) (Sys.desc { s with shards := s.shards.modifyCap i slot f } j) ∧
      (Sys.desc { s with shards := s.shards.modifyCap i slot f } j).state = (s.desc j).state := by
  refine ⟨keeps_modifyShard s i (fun d => { d with caps := d.caps.modify slot f })
    (fun _ => ⟨rfl, Or.inl rfl⟩) j, ?_⟩
  refine (congrArg ShardDescriptor.state (Sys.desc_modifyShard s hi _ j)).trans ?_
  split
  · rename_i hj
    rw [hj]
  · rfl

theorem Initial.desc_eq (h : Initial isRam s) (i : Nat) : s.desc i = ShardDescriptor.initial := by
  unfold Sys.desc Table.getD
  rw [h.shards]
  split <;> rfl

theorem BootOk.initial (h : Initial isRam s) : ∃ own, BootOk own isRam s := by
  obtain ⟨own, hram, hsup, hshared, hupper⟩ := h.kernel
  have hdesc := h.desc_eq
  refine ⟨own, ⟨hram, fun i hi => absurd (by rw [hdesc i]; rfl) hi,
    fun i hi => absurd (by rw [hdesc i]; rfl) hi⟩, hsup, hupper, fun i _ => ?_, fun i _ f o hf ho => ?_,
    fun i => ?_⟩
  · rw [hdesc i]
  · obtain ⟨k, rfl⟩ := hshared f o hf
    exact ho
  · rw [hdesc i]
    exact DescOk.initial

/-- A call that leaves memory and address spaces alone. -/
theorem BootOk.silent_gains {call : BootOp} (h : BootOk own isRam s) (hram : s'.ram = s.ram)
    (hsup : s'.supervisorPml4 = s.supervisorPml4)
    (hdesc : ∀ i, Keeps (s.desc i) (s'.desc i) ∧ (s'.desc i).state = (s.desc i).state) :
    ∃ own', BootOk own' isRam s' ∧ BootGains s call own own' s' := by
  refine ⟨own, h.silent hram hsup hdesc, .of_walk (by rw [hram]) (by rw [hram])
    (fun i => congrArg Space.pml4Phys (hdesc i).1.space) (fun i hi => (hdesc i).2 ▸ hi) fun i va _ _ => ?_⟩
  rw [hram]

/-- **Every call of boot keeps the address spaces in order.** -/
theorem BootOk.run {call : BootOp} (h : BootOk own isRam s) (hadm : call.Admissible isRam s)
    (hrun : call.run s = .ok s') : ∃ own', BootOk own' isRam s' ∧ BootGains s call own own' s' := by
  cases call with
  | create image priority =>
    obtain ⟨⟨s₁, id⟩, hc, rfl⟩ := Kernel.map_eq_ok hrun
    obtain ⟨ok⟩ := create_eq_ok hc
    exact h.create ok
  | gpuConfigPage id partition vramVaddr mmioVaddr =>
    have hpage := h.configPage (.gpuConfigPage id partition vramVaddr mmioVaddr) hadm (by decide)
      (by decide) (gpuConfigFields_fit _ _ _) hrun rfl fun _ _ hl => hl
    exact hpage.2
  | pipelineConfig id stage numStages channelId layersStart layersEnd =>
    have hpage := h.configPage
      (.pipelineConfig id stage numStages channelId layersStart layersEnd) hadm (by decide)
      (by decide) (pipelineConfigFields_fit _ _ _ _ _) hrun rfl fun _ _ hl => hl
    exact hpage.2
  | mapBar id =>
    obtain ⟨r', hr, rfl⟩ := Kernel.map_eq_ok hrun
    exact h.deviceWindow hadm.1 hadm.2 hr rfl fun _ _ hl => hl
  | mapVram id =>
    obtain ⟨r', hr, rfl⟩ := Kernel.map_eq_ok hrun
    exact h.deviceWindow hadm.1 hadm.2 hr rfl fun _ _ hl => hl
  | setOwner =>
    obtain rfl := Except.ok.inj hrun
    exact h.silent_gains rfl rfl fun _ => ⟨Keeps.refl _, rfl⟩
  | channelInit =>
    obtain ⟨channels, -, rfl⟩ := Kernel.map_eq_ok hrun
    exact h.silent_gains rfl rfl fun _ => ⟨Keeps.refl _, rfl⟩
  | grant i =>
    obtain ⟨⟨shards, o⟩, hg, rfl⟩ := Kernel.map_eq_ok hrun
    obtain ⟨hi, ⟨-, rfl⟩ | ⟨slot, -, -, -, rfl⟩⟩ := grantToShard_effect hg
    · exact h.silent_gains rfl rfl fun _ => ⟨Keeps.refl _, rfl⟩
    · exact h.silent_gains rfl rfl fun j => keeps_modifyCap s hi slot _ j

theorem Booted.bootOk {ops : List BootOp} (h : Booted isRam ops s) : ∃ own, BootOk own isRam s := by
  induction h with
  | initial h => exact BootOk.initial h
  | op _ hadm hrun ih =>
    obtain ⟨own, hok⟩ := ih
    obtain ⟨own', hok', -⟩ := hok.run hadm hrun
    exact ⟨own', hok'⟩

/-! ## Runs -/

namespace Run
variable (r : Run)

/-- The numbers of every descriptor are in order until the halt. -/
theorem descs (n : Nat) : (r.state n).mode ≠ .halted → ∀ i, DescOk ((r.state n).desc i) := by
  induction n with
  | zero =>
    intro _
    obtain ⟨own, hok⟩ := r.booted.bootOk
    exact hok.descs
  | succ n ih =>
    intro hm
    have hd := ih (r.unhalted hm)
    rcases r.step_cases n with ⟨a, hmode, heffect⟩ | ⟨hsame, -⟩
    · exact DescOk.step hd (step_footprint (r.control_inv n) hmode hd heffect) hm
    · rw [hsame]
      exact hd

/-- **What a step of a run does to memory.** -/
theorem footprint {n : Nat} (hm : (r.state n).mode ≠ .halted) :
    Footprint (r.state n) (r.event n) (r.state (n + 1)) := by
  rcases r.step_cases n with ⟨a, hmode, heffect⟩ | ⟨hsame, -⟩
  · exact step_footprint (r.control_inv n) hmode (r.descs n hm) heffect
  · rw [hsame]
    exact .quiet rfl fun _ => Keeps.refl _

end Run
end Coconut
