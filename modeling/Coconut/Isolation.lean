import Coconut.Dma

/-!
# Spatial isolation

The invariant of boot, carried through every step of a run.  Whatever a step writes, it
writes through the page tables of the shard it acts for, or to the VRAM BAR
(`Written.touches`); whatever it maps, it maps to fresh frames in that shard's tree.  So
every shard keeps its own frames, no frame of a page table or of a kernel stack is ever
reachable from user code, and no shard changes what another one sees.
-/
namespace Coconut
open Paging

variable {isRam : Nat → Prop} {own : Owners Nat} {s s' : Sys} {ev : Event}

/-! ## Writes -/

section Writes
variable {m m' : Memory} {t root : Nat}

/-- The copy loop of `handle_dma` writes to the BAR, or where a pointer that has wrapped
leads in the lower half of the caller's address space. -/
theorem copyVram_touches (hv : s.config.VramOk isRam) (hcount : 0 < s.partitionCount)
    (hroot : own s.cr3 = some (.node t 4 0)) {n : Nat} : ∀ {src b : Nat} {m : Memory},
    TablesOk own isRam m → b + n ≤ s.vramTotalSize →
    copyVram s n src (wrappingAdd s.vramKernPtr b) m = .ok m' → Touches isRam s.cr3 m m' := by
  induction n with
  | zero =>
    intro src b m _ _ h
    obtain rfl := Except.ok.inj h
    exact Touches.refl _ _ _
  | succ n ih =>
    intro src b m hok hb h
    obtain ⟨hbase, hlt⟩ : mmioVirtBase ≤ s.vramKernPtr ∧ s.vramKernPtr < 2 ^ 64 := hv.kernPtr hcount
    have hbar : s.vramPhysBase + s.vramTotalSize < 2 ^ 52 := hv.bar hcount
    obtain ⟨srcLeaf, -, h⟩ := Kernel.bind_eq_ok h
    obtain ⟨dstLeaf, hdst, h⟩ := Kernel.bind_eq_ok h
    simp only at h
    split at h
    · cases h
    · rename_i hw
      have hw : dstLeaf.writable = true := by simpa using hw
      -- one byte
      have ht : Touches isRam s.cr3 m fun x => if x = dstLeaf.phys then m srcLeaf.phys else m x := by
        have hdst := Kernel.expect_eq_ok hdst
        unfold vramTarget at hdst
        split at hdst
        · obtain rfl := Option.some.inj hdst
          refine Touches.device _ ?_
          have hsum : wrappingAdd s.vramKernPtr b - s.vramKernPtr = b := by
            unfold wrappingAdd at *
            omega
          rw [hsum]
          exact hv.device b (by change b < s.vramTotalSize; omega)
        · rename_i hwrap
          refine Touches.store _ ?_ hdst hw
          unfold walk at hdst
          split at hdst
          · rename_i hcan
            unfold canonical at hcan
            unfold wrappingAdd at *
            simp only [mmioVirtBase, Bool.or_eq_true, decide_eq_true_eq] at hbase hcan
            omega
          · cases hdst
      have hnext : wrappingAdd (wrappingAdd s.vramKernPtr b) 1 = wrappingAdd s.vramKernPtr (b + 1) := by
        unfold wrappingAdd
        omega
      rw [hnext] at h
      exact hok.touches_trans hroot ht (ih (hok.touch hroot ht) (by omega) h)

end Writes

/-- **Whatever a shard writes, it writes to its own writable pages or to a device.** -/
theorem Written.touches {t : Nat} {m : Memory} (h : Written s t m) (hok : TablesOk own isRam s.ram.mem)
    (hspace : SpaceOk own s.ram.mem t (s.desc t)) (hv : s.config.VramOk isRam) :
    Touches isRam (s.desc t).pml4Phys s.ram.mem m := by
  cases h with
  | copyOut valid le copied =>
    exact copyOut_touches hspace.root hok (hspace.writableRam hok valid le).1 copied
  | @store virt b leaf mapped user writable after =>
    subst after
    exact Touches.store b (hok.lower_of_user hspace.root virt.toNat_lt mapped user) mapped writable
  | dma current ok copied =>
    subst current
    obtain ⟨-, hdst, -⟩ := ok.ranges hv
    rw [wrappingAdd_eq hdst.sums.2] at copied
    exact copyVram_touches hv (Nat.zero_lt_of_lt ok.target_lt) hspace.root hok hdst.bar copied

/-! ## Steps -/

/-- Stores through the address space of shard `t`. -/
theorem Spaces.touch {t : Nat} {m : Memory} (h : Spaces own isRam s)
    (hroot : own (s.desc t).pml4Phys = some (.node t 4 0))
    (ht : Touches isRam (s.desc t).pml4Phys s.ram.mem m) (hram : s'.ram = { s.ram with mem := m })
    (hdesc : ∀ i, (s'.desc i).state ≠ .free → (s.desc i).state ≠ .free)
    (hspace : ∀ i, (s'.desc i).space = (s.desc i).space) : Spaces own isRam s' where
  ram := by
    rw [hram]
    exact h.ram.setMem fun _ _ => h.ram.tables.sameTable_of_touches hroot ht
  shard i hi := by
    rw [hram]
    exact ((h.shard i (hdesc i hi)).touch h.ram.tables hroot ht).of_space (hspace i)
  frames i hi := by
    rw [hram]
    exact ((h.frames i (hdesc i hi)).setMem h.ram.tables fun _ _ =>
      h.ram.tables.sameTable_of_touches hroot ht).of_space (hspace i)

/-- Nothing happened to memory. -/
theorem Spaces.of_space {acts : Nat → Prop} {new : Nat → Leaf → Prop} (h : Spaces own isRam s) (hram : s'.ram = s.ram)
    (hdesc : ∀ i, (s'.desc i).state ≠ .free → (s.desc i).state ≠ .free)
    (hspace : ∀ i, SpaceOk own s.ram.mem i (s.desc i) → SpaceOk own s.ram.mem i (s'.desc i))
    (hframes : ∀ i, (s'.desc i).pml4Phys = (s.desc i).pml4Phys ∧
      (s'.desc i).allocatedFrames = (s.desc i).allocatedFrames) :
    Spaces own isRam s' ∧ Gains acts new own s own s' := by
  refine ⟨⟨hram ▸ h.ram, fun i hi => ?_, fun i hi => ?_⟩,
    .of_walk (by rw [hram]) (by rw [hram]) (fun i => (hframes i).1) hdesc fun i va _ _ => by rw [hram]⟩
  · rw [hram]
    exact hspace i (h.shard i (hdesc i hi))
  · rw [hram]
    exact (h.frames i (hdesc i hi)).of_fields (hframes i).1 (hframes i).2

theorem frames_of_space {d d' : ShardDescriptor} (h : d'.space = d.space) :
    d'.pml4Phys = d.pml4Phys ∧ d'.allocatedFrames = d.allocatedFrames :=
  ⟨congrArg Space.pml4Phys h, congrArg Space.allocatedFrames h⟩

theorem extendData_setFrames (d : ShardDescriptor) (frames : List Nat) (vaStart vaEnd : Nat) :
    extendData { d with allocatedFrames := frames } vaStart vaEnd =
      { extendData d vaStart vaEnd with allocatedFrames := frames } := by
  unfold extendData
  split <;> rfl

/-- The first page boundary from `a` on. -/
def pageUp (a : Nat) : Nat := (a + 4095) / 4096 * 4096

/-- `mmap` adds pages to the address space of the current shard. -/
theorem Spaces.mmapPages {ram : Ram} {frames : List Nat} {mapped : Bool} {vaStart numPages : Nat}
    (h : Spaces own isRam s) (created : s.current.state ≠ .free)
    (accepted : mmapAccepts s.current vaStart numPages = true)
    (pages : mmapPages s.current.pml4Phys vaStart numPages 0 s.ram s.current.allocatedFrames =
      .ok (ram, frames, mapped)) :
    ∃ own' taken, frames = s.current.allocatedFrames ++ taken ∧
      AddsPages (PagesLeaf (pageUp s.current.imageEnd) shardStackVaddr dataFlags) taken s.currentShard
        s.current.pml4Phys own s.ram own' ram isRam ∧ (mapped = true →
      PagesOk own' ram.mem s.currentShard s.current.pml4Phys vaStart (vaStart + numPages * 4096) true) := by
  have hok := mmapAccepts_eq_true accepted
  have hend : vaStart + numPages * 4096 ≤ 0x7FF000 := hok.stack
  have hbound : vaStart + (0 + numPages) * 4096 ≤ 0x800000000000 := by
    rw [Nat.zero_add]
    exact Nat.le_trans hend (by decide)
  obtain ⟨own', taken, hframes, adds, hpages⟩ :=
    mmapPages_spec hok.aligned 0 h.ram (h.shard s.currentShard created).root hbound pages
  rw [Nat.zero_mul, Nat.add_zero, Nat.zero_add] at hpages adds
  have himage : pageUp s.current.imageEnd ≤ vaStart := by
    have h1 := hok.image
    have h2 := hok.aligned
    unfold pageUp
    omega
  exact ⟨own', taken, hframes, adds.widen himage hok.stack, hpages⟩

theorem mmapped_ram {ram : Ram} {frames : List Nat} {mapped : Bool} {vaStart numPages : Nat} :
    (mmapped s ram frames mapped vaStart numPages).ram = ram := by
  rw [mmapped_eq]
  rfl

theorem fields_mmapped (ram : Ram) (frames : List Nat) (mapped : Bool) (vaStart numPages : Nat)
    (lt : s.currentShard < maxShards) :
    ((mmapped s ram frames mapped vaStart numPages).desc s.currentShard).pml4Phys = s.current.pml4Phys ∧
      ((mmapped s ram frames mapped vaStart numPages).desc s.currentShard).allocatedFrames = frames := by
  rw [desc_mmapped lt, if_pos rfl]
  cases mapped with
  | false => exact ⟨rfl, rfl⟩
  | true =>
    obtain ⟨a, b, he, -⟩ := extendData_eq { s.current with allocatedFrames := frames } vaStart
      (vaStart + numPages * 4096)
    rw [if_pos rfl, he]
    exact ⟨rfl, rfl⟩

/-- What a step gives to address spaces: the pages of an `mmap` of the current shard. -/
def StepGains (own : Owners Nat) (s : Sys) (own' : Owners Nat) (s' : Sys) : Prop :=
  Gains (· = s.currentShard) (PagesLeaf (pageUp s.current.imageEnd) shardStackVaddr dataFlags) own s own' s'

theorem Spaces.mmapped {ram : Ram} {frames : List Nat} {mapped : Bool} {vaStart numPages : Nat}
    (h : Spaces own isRam s) (lt : s.currentShard < maxShards) (created : s.current.state ≠ .free)
    (accepted : mmapAccepts s.current vaStart numPages = true)
    (pages : Coconut.mmapPages s.current.pml4Phys vaStart numPages 0 s.ram s.current.allocatedFrames =
      .ok (ram, frames, mapped))
    (hdesc : ∀ i, ((mmapped s ram frames mapped vaStart numPages).desc i).state ≠ .free →
      (s.desc i).state ≠ .free) :
    ∃ own', Spaces own' isRam (mmapped s ram frames mapped vaStart numPages) ∧
      StepGains own s own' (mmapped s ram frames mapped vaStart numPages) := by
  obtain ⟨own', taken, hframes, adds, hpages⟩ := h.mmapPages created accepted pages
  have hspace : SpaceOk own s.ram.mem s.currentShard s.current := h.shard _ created
  have hnew : SpaceOk own' ram.mem s.currentShard s.current := hspace.mono adds.grows.keeps adds.keeps
  have hcur : SpaceOk own' ram.mem s.currentShard
      ((Coconut.mmapped s ram frames mapped vaStart numPages).desc s.currentShard) := by
    rw [desc_mmapped lt, if_pos rfl]
    -- the new frames are listed, and the region recorded if all pages are there
    cases mapped with
    | false => exact hnew.setFrames frames
    | true =>
      rw [if_pos rfl, extendData_setFrames]
      exact (hnew.extendData (mmapAccepts_eq_true accepted) (hpages rfl)).setFrames frames
  obtain ⟨hroot, hlist⟩ := fields_mmapped ram frames mapped vaStart numPages lt
  have hother : ∀ i, i ≠ s.currentShard →
      (Coconut.mmapped s ram frames mapped vaStart numPages).desc i = s.desc i := fun i hne => by
    rw [desc_mmapped lt, if_neg hne]
  have hram : (Coconut.mmapped s ram frames mapped vaStart numPages).ram = ram := mmapped_ram
  generalize Coconut.mmapped s ram frames mapped vaStart numPages = s' at hdesc hcur hroot hlist hother hram ⊢
  subst hram
  refine ⟨own', ⟨adds.ok, fun i hi => ?_, fun i hi => ?_⟩, adds.grows.gains h rfl (fun i hne => ?_)
    (fun _ => ⟨hroot, adds.keeps⟩) fun va leaf hv hw => ?_⟩
  · by_cases he : i = s.currentShard
    · rw [he]
      exact hcur
    · rw [hother i he] at hi ⊢
      exact (h.shard i hi).grows_other h.ram adds.grows he
  · by_cases he : i = s.currentShard
    · rw [he]
      exact (h.frames _ created).adds adds hroot (hlist.trans hframes)
    · rw [hother i he] at hi ⊢
      exact (h.frames i hi).grows_other adds.grows he
  · rw [hother i hne]
    exact ⟨rfl, fun hc => hc⟩
  · rw [hroot] at hw
    exact (adds.only va leaf hv hw).imp_left fun hold => ⟨created, hold⟩

/-- **Every step keeps the address spaces in order.**  It may give new frames to the
shard it acts for. -/
theorem Spaces.step (h : Spaces own isRam s) (hv : s.config.VramOk isRam) (hf : Footprint s ev s')
    (hm : s'.mode ≠ .halted)
    (hdesc : ∀ i, (s'.desc i).state ≠ .free → (s.desc i).state ≠ .free) :
    ∃ own', Spaces own' isRam s' ∧ StepGains own s own' s' := by
  cases hf with
  | quiet ram shards =>
    exact ⟨own, h.of_space ram hdesc (fun i hi => hi.of_space (shards i).space)
      fun i => frames_of_space (shards i).space⟩
  | block lt ram valid current others =>
    have hspace : ∀ i, (s'.desc i).space = (s.desc i).space := by
      intro i
      by_cases he : i = s.currentShard
      · rw [he]
        exact current.1
      · exact (others i he).space
    exact ⟨own, h.of_space ram hdesc (fun i hi => hi.of_space (hspace i)) fun i =>
      frames_of_space (hspace i)⟩
  | write lt created written ram shards =>
    have hspace := h.shard _ created
    have htouch := written.touches h.ram.tables hspace hv
    refine ⟨own, h.touch hspace.root htouch ram hdesc fun i => (shards i).space,
      .of_walk (by rw [ram]) (by rw [ram]) (fun i => (frames_of_space (shards i).space).1) hdesc
        fun i va hi hva => ?_⟩
    rw [ram]
    exact h.ram.tables.walk_touch hspace.root htouch (h.shard i hi).root hva
  | mmap lt _ created accepted pages after =>
    subst after
    exact h.mmapped lt created accepted pages hdesc
  | unveil lt _ _ _ after =>
    subst after
    refine ⟨own, h.of_space rfl hdesc (fun i hi => ?_) fun i => ?_⟩
    · rw [Sys.desc_modifyShard s lt]
      split
      · rename_i he
        subst he
        exact ⟨hi.root, hi.kstack, hi.low, hi.read, hi.write⟩
      · exact hi
    · rw [Sys.desc_modifyShard s lt]
      split
      · rename_i he
        subst he
        exact ⟨rfl, rfl⟩
      · exact ⟨rfl, rfl⟩
  | halt _ halted => exact absurd halted hm

namespace Run
variable (r : Run)

theorem created_of_next {n i : Nat} (h : ((r.state (n + 1)).desc i).state ≠ .free) :
    ((r.state n).desc i).state ≠ .free := by
  intro hf
  obtain ⟨l, hl, -⟩ := r.control_step n
  exact h (hl.free (r.control_inv n) hf)

/-- **The address spaces are in order in every state of a run**, until the halt. -/
theorem spaces (n : Nat) : (r.state n).mode ≠ .halted → ∃ own, Spaces own r.isRam (r.state n) := by
  induction n with
  | zero =>
    intro _
    obtain ⟨own, hok⟩ := r.booted.bootOk
    exact ⟨own, hok.spaces⟩
  | succ n ih =>
    intro hm
    have hm' := r.unhalted hm
    obtain ⟨own, h⟩ := ih hm'
    obtain ⟨own', h', -⟩ := h.step (r.vramOk n) (r.footprint hm') hm fun i => r.created_of_next
    exact ⟨own', h'⟩

/-- What a step of a run gives to address spaces. -/
theorem gains {n : Nat} (hm : (r.state (n + 1)).mode ≠ .halted) :
    ∃ own own', Spaces own r.isRam (r.state n) ∧ StepGains own (r.state n) own' (r.state (n + 1)) := by
  have hm' := r.unhalted hm
  obtain ⟨own, h⟩ := r.spaces n hm'
  obtain ⟨own', -, gains⟩ := h.step (r.vramOk n) (r.footprint hm') hm fun i => r.created_of_next
  exact ⟨own, own', h, gains⟩

theorem created_add {n k i : Nat} (h : ((r.state (n + k)).desc i).state ≠ .free) :
    ((r.state n).desc i).state ≠ .free := by
  induction k with
  | zero => exact h
  | succ k ih => exact ih (r.created_of_next h)

end Run

/-! ## Isolation -/

/-- User code of shard `i` reaches frame `f`. -/
def UserMapped (s : Sys) (i f : Nat) : Prop :=
  ∃ virt leaf, virt < 2 ^ 64 ∧ walk s.ram.mem (s.desc i).pml4Phys virt = some leaf ∧
    leaf.user = true ∧ Memory.frameOf leaf.phys = f

/-- The shard has an address space: it has been created and not been destroyed. -/
def Sys.HasSpace (s : Sys) (i : Nat) : Prop :=
  (s.desc i).state ≠ .free ∧ (s.desc i).state ≠ .destroyed

theorem Sys.hasSpace_of_isLive {i : Nat} (h : (s.desc i).state.isLive = true) : s.HasSpace i := by
  constructor
  · intro hf
    rw [hf] at h
    cases h
  · intro hd
    rw [hd] at h
    cases h

/-- No shard reaches memory of another, page tables or kernel stacks. -/
structure Isolated (isRam : Nat → Prop) (s : Sys) : Prop where
  /-- No frame of memory is mapped for the user code of two shards. -/
  apart : ∀ i j f, i ≠ j → s.HasSpace i → s.HasSpace j → isRam f → UserMapped s i f → ¬ UserMapped s j f
  /-- No frame mapped for user code is a page table of any shard, at any level. -/
  tables : ∀ i j f k, s.HasSpace i → s.HasSpace j → isRam f → UserMapped s i f →
    ¬ TableFrame s.ram.mem (s.desc j).pml4Phys k f
  /-- No frame mapped for user code is the kernel stack of any shard. -/
  kernelStacks : ∀ i j f, s.HasSpace i → s.HasSpace j → isRam f → UserMapped s i f →
    f ≠ (s.desc j).kernelStackPhys

/-- What user code reaches is a page of its own tree. -/
theorem Spaces.owner_of_userMapped {i f : Nat} (h : Spaces own isRam s) (hi : (s.desc i).state ≠ .free)
    (hram : isRam f) (hu : UserMapped s i f) : ∃ p, own f = some (.node i 0 p) := by
  obtain ⟨virt, leaf, hlt, hw, huser, rfl⟩ := hu
  have hroot := (h.shard i hi).root
  have hv := h.ram.tables.lower_of_user hroot hlt hw huser
  exact ⟨_, (h.ram.tables.walk_frame hroot hv hw).1.resolve_right fun hd => hd hram⟩

theorem Spaces.isolated (h : Spaces own isRam s) : Isolated isRam s where
  apart i j f hne hi hj hram hui huj := by
    obtain ⟨p, hp⟩ := h.owner_of_userMapped hi.1 hram hui
    obtain ⟨q, hq⟩ := h.owner_of_userMapped hj.1 hram huj
    rw [hp] at hq
    exact hne (Owner.node.inj (Option.some.inj hq)).1
  tables i j f k hi hj hram hui ht := by
    obtain ⟨p, hp⟩ := h.owner_of_userMapped hi.1 hram hui
    rcases h.ram.tables.owner_of_tableFrame (h.shard j hj.1).root ht with ⟨q, hq⟩ | hq
    · rw [hp] at hq
      exact ht.level_ne (Owner.node.inj (Option.some.inj hq)).2.1.symm
    · rw [hp] at hq
      cases hq
  kernelStacks i j f hi hj hram hui he := by
    obtain ⟨p, hp⟩ := h.owner_of_userMapped hi.1 hram hui
    rw [he, (h.shard j hj.1).kstack] at hp
    cases hp

/-- A step changes a page of a live shard only by the stores of the acting shard. -/
theorem Spaces.sameFrame_of_page {i f p : Nat} (h : Spaces own isRam s) (hv : s.config.VramOk isRam)
    (hf : Footprint s ev s') (hi : (s.desc i).state.isLive = true) (hp : own f = some (.node i 0 p))
    (hwrite : ∀ m, own (s.desc (actor s ev)).pml4Phys = some (.node (actor s ev) 4 0) →
      Touches isRam (s.desc (actor s ev)).pml4Phys s.ram.mem m → Memory.SameFrame s.ram.mem m f) :
    Memory.SameFrame s.ram.mem s'.ram.mem f := by
  cases hf with
  | quiet ram =>
    rw [ram]
    exact Memory.SameFrame.refl _ _
  | block _ ram =>
    rw [ram]
    exact Memory.SameFrame.refl _ _
  | write lt created written ram =>
    have hspace := h.shard _ created
    rw [ram]
    exact hwrite _ hspace.root (written.touches h.ram.tables hspace hv)
  | mmap _ _ created accepted pages after =>
    obtain ⟨own', taken, -, adds, -⟩ := h.mmapPages created accepted pages
    rw [after, mmapped_ram]
    refine adds.grows.contents f _ hp ?_
    rintro ⟨k, q, he⟩
    cases (Owner.node.inj he).2.1
  | unveil _ _ _ _ after =>
    rw [after]
    exact Memory.SameFrame.refl _ _
  | halt done =>
    rw [show (s.desc i).state.isLive = false from allDone_eq_true done i] at hi
    cases hi

/-- A step changes no frame that another shard reaches. -/
theorem Spaces.sameFrame_of_step {i f : Nat} (h : Spaces own isRam s) (hv : s.config.VramOk isRam)
    (hf : Footprint s ev s') (hi : (s.desc i).state.isLive = true) (hne : i ≠ actor s ev)
    (hram : isRam f) (hu : UserMapped s i f) : Memory.SameFrame s.ram.mem s'.ram.mem f := by
  obtain ⟨p, hp⟩ := h.owner_of_userMapped (Sys.hasSpace_of_isLive hi).1 hram hu
  refine h.sameFrame_of_page hv hf hi hp fun m hroot ht => ?_
  refine h.ram.tables.sameFrame_of_touches hroot ht hp ?_
  intro q he
  exact hne (Owner.node.inj he).1

/-- **Spatial isolation.**  In every state of every run the shards are isolated from
each other, and whatever a step does for one shard, it changes no frame of memory that
the user code of another live shard reaches. -/
theorem Run.spatial_isolation (r : Run) (n : Nat) :
    Isolated r.isRam (r.state n) ∧
      ∀ i f, ((r.state n).desc i).state.isLive = true → i ≠ actor (r.state n) (r.event n) →
        r.isRam f → UserMapped (r.state n) i f →
        Memory.SameFrame (r.state n).ram.mem (r.state (n + 1)).ram.mem f := by
  by_cases hm : (r.state n).mode = .halted
  · -- after the halt no shard has an address space
    have hnone : ∀ i, ¬ (r.state n).HasSpace i := fun i hi =>
      (r.destroyed_of_halted n i hm).elim hi.1 hi.2
    refine ⟨⟨fun i _ _ _ hi => absurd hi (hnone i), fun i _ _ _ hi => absurd hi (hnone i),
      fun i _ _ hi => absurd hi (hnone i)⟩, fun i f _ _ _ _ => ?_⟩
    rw [r.halted_final hm]
    exact Memory.SameFrame.refl _ _
  · obtain ⟨own, h⟩ := r.spaces n hm
    exact ⟨h.isolated, fun i f => h.sameFrame_of_step (r.vramOk n) (r.footprint hm)⟩

end Coconut
