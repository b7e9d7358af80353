import Coconut.Scheduling
import Coconut.Stores

/-!
# What a step does to memory

The second view of the system, beside the control machine: physical memory, the fields
of a descriptor that describe its address space, and the buffer that a suspended receive
will fill.  `step_footprint` says once what a step can do there: nothing; suspend a
receive; write through the page tables of the acting shard; add pages to them; set an
unveil window; or end the run.

The tables that boot sets up and no step writes are gathered in `Config`.
-/
namespace Coconut
open Paging

/-! ## The view -/

/-- The tables that no step writes. -/
structure Config where
  supervisorPml4 : Nat
  fs : Ext2Fs
  partitions : Table maxGpuPartitions GpuPartition
  partitionCount : Nat
  vramKernPtr : Nat
  vramPhysBase : Nat
  vramTotalSize : Nat

def Sys.config (s : Sys) : Config :=
  ⟨s.supervisorPml4, s.fs, s.partitions, s.partitionCount, s.vramKernPtr, s.vramPhysBase,
    s.vramTotalSize⟩

/-- The fields of a descriptor that describe memory. -/
structure Space where
  pml4Phys : Nat
  allocatedFrames : List Nat
  kernelStackPhys : Nat
  imageEnd : Nat
  imageDataStart : Nat
  imageDataEnd : Nat
  dataStart : Nat
  dataEnd : Nat
  vramUnveilOffset : Nat
  vramUnveilSize : Nat

def ShardDescriptor.space (d : ShardDescriptor) : Space :=
  ⟨d.pml4Phys, d.allocatedFrames, d.kernelStackPhys, d.imageEnd, d.imageDataStart, d.imageDataEnd,
    d.dataStart, d.dataEnd, d.vramUnveilOffset, d.vramUnveilSize⟩

/-- The buffer and length of the receive in which a shard is suspended. -/
def ShardDescriptor.waits (d : ShardDescriptor) : Option (Nat × Nat) :=
  match d.savedContext with
  | .channelRecv _ _ buf maxLen => some (buf, maxLen)
  | _ => none

theorem writeRegions_congr {d d' : ShardDescriptor} (h : d'.space = d.space) :
    writeRegions d' = writeRegions d := by
  obtain ⟨-, -, -, -, h1, h2, h3, h4, -, -⟩ := Space.mk.inj h
  unfold writeRegions dataRegions
  rw [h1, h2, h3, h4]

/-- The address space is as it was, and no receive has been suspended. -/
structure Keeps (d d' : ShardDescriptor) : Prop where
  space : d'.space = d.space
  waits : d'.waits = d.waits ∨ d'.waits = none

theorem Keeps.refl (d : ShardDescriptor) : Keeps d d := ⟨rfl, Or.inl rfl⟩

theorem Keeps.trans {d d' d'' : ShardDescriptor} (h : Keeps d d') (h' : Keeps d' d'') :
    Keeps d d'' where
  space := h'.space.trans h.space
  waits := by
    rcases h'.waits with he | he
    · rw [he]
      exact h.waits
    · exact Or.inr he

theorem keeps_modifyShard (s : Sys) (j : Nat) (f : ShardDescriptor → ShardDescriptor)
    (hf : ∀ d, Keeps d (f d)) (i : Nat) : Keeps (s.desc i) ((s.modifyShard j f).desc i) :=
  s.modifyShard_rel j f Keeps.refl hf i

/-- The shard a step acts for: the one `run_loop` switches to, or the current one. -/
def actor (s : Sys) (ev : Event) : Nat := ev.selected.getD s.currentShard

/-! ## Steps -/

/-- Memory `m` is what shard `t` makes of `s.ram.mem` by one of the operations that
write through its page tables. -/
inductive Written (s : Sys) (t : Nat) (m : Memory) : Prop
  | copyOut {buf len : Nat} {bytes : List UInt8} (valid : InRegion (writeRegions (s.desc t)) buf len)
      (le : bytes.length ≤ len)
      (copied : copyOut s.ram.mem (s.desc t).pml4Phys buf bytes = .ok m)
  | store {virt : UInt64} {b : UInt8} {leaf : Leaf}
      (mapped : walk s.ram.mem (s.desc t).pml4Phys virt.toNat = some leaf) (user : leaf.user = true)
      (writable : leaf.writable = true)
      (after : m = fun x => if x = leaf.phys then b else s.ram.mem x)
  | dma {target srcOffset dstOffset len src : Nat} (current : t = s.currentShard)
      (ok : DmaOk s target srcOffset dstOffset len src)
      (copied : copyVram s len
        (wrappingAdd s.vramKernPtr (wrappingAdd (s.partition src).vramOffset srcOffset))
        (wrappingAdd s.vramKernPtr (wrappingAdd (s.partition target).vramOffset dstOffset))
        s.ram.mem = .ok m)

/-- What a step can do to memory. -/
inductive Footprint (s : Sys) (ev : Event) (s' : Sys) : Prop
  | quiet (ram : s'.ram = s.ram) (shards : ∀ i, Keeps (s.desc i) (s'.desc i))
  | block {buf maxLen : Nat} (lt : s.currentShard < maxShards) (ram : s'.ram = s.ram)
      (valid : InRegion (writeRegions s.current) buf maxLen)
      (current : (s'.desc s.currentShard).space = s.current.space ∧
        (s'.desc s.currentShard).waits = some (buf, maxLen))
      (others : ∀ i, i ≠ s.currentShard → Keeps (s.desc i) (s'.desc i))
  | write {m : Memory} (lt : actor s ev < maxShards) (created : (s.desc (actor s ev)).state ≠ .free)
      (written : Written s (actor s ev) m) (ram : s'.ram = { s.ram with mem := m })
      (shards : ∀ i, Keeps (s.desc i) (s'.desc i))
  | mmap {ram : Ram} {frames : List Nat} {mapped : Bool} {vaStart numPages : Nat}
      (lt : s.currentShard < maxShards) (unselected : ev.selected = none)
      (created : s.current.state ≠ .free)
      (accepted : mmapAccepts s.current vaStart numPages = true)
      (pages : mmapPages s.current.pml4Phys vaStart numPages 0 s.ram s.current.allocatedFrames =
        .ok (ram, frames, mapped))
      (after : s' = mmapped s ram frames mapped vaStart numPages)
  | unveil {part offset size : Nat} (lt : s.currentShard < maxShards)
      (owned : ownedPartition s s.currentShard = some part)
      (fits : offset + size ≤ (s.partition part).vramSize) (lt64 : offset + size < 2 ^ 64)
      (after : s' = s.modifyShard s.currentShard fun d =>
        { d with vramUnveilOffset := offset, vramUnveilSize := size })
  | halt (done : allDone s.shards = true) (halted : s'.mode = .halted)

section Steps
variable {s s' : Sys} {ev : Event}

theorem keeps_wake (s : Sys) (j ch i : Nat) : Keeps (s.desc i) ((wake s j ch).desc i) :=
  keeps_modifyShard s j _ (fun d => by
    split
    · exact ⟨rfl, Or.inl rfl⟩
    · exact Keeps.refl d) i

theorem keeps_setReady (s : Sys) (i : Nat) : Keeps (s.desc i) ((setReady s).desc i) := by
  unfold setReady
  split
  · refine keeps_modifyShard s _ _ (fun d => ?_) i
    split
    · exact ⟨rfl, Or.inl rfl⟩
    · exact Keeps.refl d
  · exact Keeps.refl _

theorem setReady_ram (s : Sys) : (setReady s).ram = s.ram := by
  unfold setReady
  split <;> rfl

/-- The shard gives up the processor, but not in a receive. -/
theorem footprint_suspended {context : SavedContext} (h : context = .sysYield ∨ context = .timerPreempt) :
    Footprint s ev (suspended (setReady s) context) := by
  refine .quiet (setReady_ram s) fun i => (keeps_setReady s i).trans ?_
  refine keeps_modifyShard (setReady s) _ (fun d => { d with savedContext := context })
    (fun d => ⟨rfl, Or.inr ?_⟩) i
  rcases h with rfl | rfl <;> rfl

theorem footprint_exited (exitCode : Nat) : Footprint s ev (exited s exitCode) :=
  .quiet rfl (keeps_modifyShard s s.currentShard (fun d => { d with exitCode, state := .exited })
    fun _ => ⟨rfl, Or.inl rfl⟩)

theorem desc_suspended_block {ch : Nat} {context : SavedContext} (hi : s.currentShard < maxShards)
    (i : Nat) : (suspended (Coconut.block s s.currentShard ch) context).desc i =
      if i = s.currentShard then { s.current with
        state := .blocked, blockedOnChannel := ch, savedContext := context } else s.desc i := by
  have h := Sys.desc_modifyShard (Coconut.block s s.currentShard ch) hi
    (fun d => { d with savedContext := context }) i
  refine h.trans ?_
  unfold Coconut.block
  rw [Sys.desc_modifyShard s hi, Sys.desc_modifyShard s hi, if_pos rfl]
  split <;> rfl

theorem Effect.footprint {nr a0 a1 a2 : Nat} {r : Option Nat} {returned : Option Returned}
    (hi : s.currentShard < maxShards) (hcreated : s.current.state ≠ .free)
    (h : Effect s nr a0 a1 a2 s' r) : Footprint s ⟨none, returned⟩ s' := by
  cases h with
  | unchanged => exact .quiet rfl fun _ => Keeps.refl _
  | exit => exact footprint_exited _
  | yield => exact footprint_suspended (Or.inl rfl)
  | send => exact .quiet rfl (keeps_wake _ _ _)
  | recv _ ok _ copied =>
    refine .write hi hcreated (.copyOut ok.valid ?_ copied) rfl fun _ => Keeps.refl _
    rw [Memory.length_readBytes]
    exact Nat.min_le_right _ _
  | block _ ok =>
    refine .block hi rfl ok.valid ?_ fun i hne => ?_
    · rw [desc_suspended_block hi, if_pos rfl]
      exact ⟨rfl, rfl⟩
    · rw [desc_suspended_block hi, if_neg hne]
      exact Keeps.refl _
  | grant => exact .quiet rfl (keeps_modifyShard s _ _ fun _ => ⟨rfl, Or.inl rfl⟩)
  | revoke => exact .quiet rfl (keeps_modifyShard s _ _ fun _ => ⟨rfl, Or.inl rfl⟩)
  | restrict => exact .quiet rfl (keeps_modifyShard s _ _ fun _ => ⟨rfl, Or.inl rfl⟩)
  | fsOpen => exact .quiet rfl fun _ => Keeps.refl _
  | fsRead _ _ valid _ data copied =>
    exact .write hi hcreated (.copyOut valid (Ext2Fs.readData_length data) copied) rfl
      fun _ => Keeps.refl _
  | fsClose => exact .quiet rfl fun _ => Keeps.refl _
  | mmap _ _ accepted pages => exact .mmap hi rfl hcreated accepted pages rfl
  | dma _ ok copied => exact .write hi hcreated (.dma rfl ok copied) rfl fun _ => Keeps.refl _
  | pledge => exact .quiet rfl (keeps_modifyShard s _ _ fun _ => ⟨rfl, Or.inl rfl⟩)
  | unveil _ _ _ owned fits lt => exact .unveil hi owned fits lt rfl

/-! ## Buffers of suspended receives -/

/-- What `mmapAccepts` has checked. -/
structure MmapOk (d : ShardDescriptor) (vaStart numPages : Nat) : Prop where
  aligned : vaStart % 4096 = 0
  pos : 0 < numPages
  le : numPages ≤ 256
  image : d.imageEnd ≤ vaStart
  stack : vaStart + numPages * 4096 ≤ shardStackVaddr
  adjacent : d.dataStart ≠ 0 → vaStart + numPages * 4096 = d.dataStart ∨ vaStart = d.dataEnd
  frames : d.allocatedFrames.length + numPages ≤ maxShardFrames

theorem mmapAccepts_eq_true {d : ShardDescriptor} {vaStart numPages : Nat}
    (h : mmapAccepts d vaStart numPages = true) : MmapOk d vaStart numPages := by
  unfold mmapAccepts at h
  simp only [Bool.and_eq_true, Bool.not_eq_true', Bool.or_eq_false_iff, decide_eq_false_iff_not,
    beq_iff_eq, beq_eq_false_iff_ne, Bool.or_eq_true, Nat.not_lt, and_assoc] at h
  obtain ⟨haligned, hpos, hle, himage, hstack, hadj, hframes⟩ := h
  rw [show (0xFFF : Nat) = 2 ^ 12 - 1 from rfl, Nat.and_two_pow_sub_one_eq_mod] at haligned
  have hend : (checkedAdd vaStart (numPages * 4096)).getD u64Max = vaStart + numPages * 4096 := by
    cases hc : checkedAdd vaStart (numPages * 4096) with
    | none =>
      rw [hc] at hstack
      exact absurd hstack (by decide)
    | some e => exact (checkedAdd_eq_some hc).1
  rw [hend] at hstack hadj
  refine ⟨haligned, by omega, hle, himage, hstack, fun hne => ?_, hframes⟩
  exact (hadj.resolve_left hne).2.imp id id

/-- `mmap` writes two fields of the descriptor. -/
theorem extendData_eq (d : ShardDescriptor) (vaStart vaEnd : Nat) :
    ∃ a b, extendData d vaStart vaEnd = { d with dataStart := a, dataEnd := b } ∧
      (d.dataStart = 0 ∧ a = vaStart ∧ b = vaEnd ∨
        d.dataStart ≠ 0 ∧ a = min vaStart d.dataStart ∧ b = max vaEnd d.dataEnd) := by
  unfold extendData
  by_cases h0 : d.dataStart = 0
  · rw [if_pos (beq_iff_eq.mpr h0)]
    exact ⟨vaStart, vaEnd, rfl, Or.inl ⟨h0, rfl, rfl⟩⟩
  · rw [if_neg fun hc => h0 (beq_iff_eq.mp hc)]
    refine ⟨_, _, rfl, Or.inr ⟨h0, ?_, ?_⟩⟩
    all_goals split <;> omega

/-- A relation that does not look at the fields SYS_MMAP writes. -/
theorem mmapped_rel {P : ShardDescriptor → ShardDescriptor → Prop} {ram : Ram} {frames : List Nat}
    {mapped : Bool} {vaStart numPages : Nat} (hrefl : ∀ d, P d d)
    (hf : ∀ d a b, P d { d with allocatedFrames := frames, dataStart := a, dataEnd := b }) (i : Nat) :
    P (s.desc i) ((mmapped s ram frames mapped vaStart numPages).desc i) := by
  rw [mmapped_eq]
  refine Sys.modifyShard_rel { s with ram } _ _ hrefl (fun d => ?_) i
  cases mapped with
  | false => exact hf d d.dataStart d.dataEnd
  | true =>
    obtain ⟨a, b, he, -⟩ := extendData_eq { d with allocatedFrames := frames } vaStart
      (vaStart + numPages * 4096)
    rw [if_pos rfl, he]
    exact hf d a b

/-- A descriptor whose numbers fit each other: the image ends above zero, the unveil
window does not wrap, and a suspended receive has a buffer that the shard may write. -/
structure DescOk (d : ShardDescriptor) : Prop where
  image : 0 < d.imageEnd
  unveil : d.vramUnveilOffset + d.vramUnveilSize < 2 ^ 64
  waiting : ∀ buf maxLen, d.waits = some (buf, maxLen) → InRegion (writeRegions d) buf maxLen

theorem DescOk.initial : DescOk ShardDescriptor.initial :=
  ⟨by decide, by decide, fun _ _ h => by cases h⟩

/-- The same address space, perhaps with another suspended receive. -/
theorem DescOk.of_space {d d' : ShardDescriptor} (h : DescOk d) (hs : d'.space = d.space)
    (hw : ∀ buf maxLen, d'.waits = some (buf, maxLen) → InRegion (writeRegions d) buf maxLen) :
    DescOk d' where
  image := by
    rw [show d'.imageEnd = d.imageEnd from congrArg Space.imageEnd hs]
    exact h.image
  unveil := by
    rw [show d'.vramUnveilOffset = d.vramUnveilOffset from congrArg Space.vramUnveilOffset hs,
      show d'.vramUnveilSize = d.vramUnveilSize from congrArg Space.vramUnveilSize hs]
    exact h.unveil
  waiting buf maxLen hb := by
    rw [writeRegions_congr hs]
    exact hw buf maxLen hb

theorem DescOk.keeps {d d' : ShardDescriptor} (h : DescOk d) (hk : Keeps d d') : DescOk d' := by
  refine h.of_space hk.space fun buf maxLen hw => ?_
  rcases hk.waits with he | he
  · exact h.waiting buf maxLen (he ▸ hw)
  · rw [he] at hw
    cases hw

/-- **What a step does to memory.** -/
theorem step_footprint {a : Action} (hc : s.control.Inv) (hmode : a.mode = s.mode) (hd : ∀ i, DescOk (s.desc i))
    (h : StepEffect s a s' ev) : Footprint s ev s' := by
  have hcurrent : s.mode = .user → s.current.state ≠ .free := by
    intro hm hfree
    have hrun : s.current.state = .running := (hc.user hm).2
    rw [hfree] at hrun
    cases hrun
  have hpicked : ∀ {id}, pickNextReady s.shards s.lastScheduled = some id →
      (s.desc id).state ≠ .free := by
    intro id hp hfree
    have hready : (s.desc id).state = .ready := Control.pick_ready hc.last_lt hp
    rw [hfree] at hready
    cases hready
  have hswitch : ∀ id i, Keeps (s.desc i) ((switched s id).desc i) := fun id i =>
    keeps_modifyShard s id (fun d => { d with state := .running }) (fun _ => ⟨rfl, Or.inl rfl⟩) i
  cases h with
  | refused => exact .quiet rfl fun _ => Keeps.refl _
  | syscall hi _ effect => exact effect.footprint hi (hcurrent hmode.symm)
  | timer => exact footprint_suspended (Or.inr rfl)
  | kill => exact footprint_exited _
  | store mapped user writable =>
    exact .write (hc.user hmode.symm).1 (hcurrent hmode.symm) (.store mapped user writable rfl)
      rfl fun _ => Keeps.refl _
  | select => exact .quiet rfl (hswitch _)
  | @selectRecv id ch buf maxLen ep m picked hi context _ copied =>
    have hvalid := (hd id).waiting buf maxLen (by
      unfold ShardDescriptor.waits
      rw [show (s.desc id).savedContext = _ from context])
    have hroot : (switched s id).cr3 = (s.desc id).pml4Phys :=
      congrArg Space.pml4Phys (hswitch id id).space
    rw [hroot] at copied
    refine .write hi (hpicked picked) (.copyOut hvalid ?_ copied) rfl (hswitch id)
    rw [Memory.length_readBytes]
    exact Nat.min_le_right _ _
  | selectRecvEmpty => exact .quiet rfl (hswitch _)
  | halt _ done => exact .halt done rfl

theorem desc_mmapped {ram : Ram} {frames : List Nat} {mapped : Bool} {vaStart numPages : Nat}
    (hi : s.currentShard < maxShards) (i : Nat) :
    (mmapped s ram frames mapped vaStart numPages).desc i =
      if i = s.currentShard then
        if mapped then
          extendData { s.current with allocatedFrames := frames } vaStart (vaStart + numPages * 4096)
        else { s.current with allocatedFrames := frames }
      else s.desc i := by
  rw [mmapped_eq]
  exact Sys.desc_modifyShard { s with ram } hi _ i

/-- The data region only grows. -/
theorem writeRegions_extendData {d : ShardDescriptor} {vaStart vaEnd a b : Nat} (hpos : 0 < vaStart)
    (h : writeRegions d a b) : writeRegions (extendData d vaStart vaEnd) a b := by
  obtain ⟨x, y, he, hxy⟩ := extendData_eq d vaStart vaEnd
  rw [he]
  unfold writeRegions dataRegions at *
  simp only
  omega

theorem DescOk.extendData {d : ShardDescriptor} {vaStart vaEnd : Nat} (h : DescOk d)
    (hpos : 0 < vaStart) : DescOk (extendData d vaStart vaEnd) := by
  have hgrow : ∀ a b, writeRegions d a b → writeRegions (Coconut.extendData d vaStart vaEnd) a b :=
    fun _ _ => writeRegions_extendData hpos
  obtain ⟨x, y, he, -⟩ := extendData_eq d vaStart vaEnd
  rw [he] at hgrow ⊢
  exact ⟨h.image, h.unveil, fun buf maxLen hb => (h.waiting buf maxLen hb).mono hgrow⟩

/-- Every step keeps the numbers of every descriptor in order. -/
theorem DescOk.step (h : ∀ i, DescOk (s.desc i)) (hf : Footprint s ev s') (hm : s'.mode ≠ .halted)
    (i : Nat) : DescOk (s'.desc i) := by
  cases hf with
  | quiet _ shards => exact (h i).keeps (shards i)
  | write _ _ _ _ shards => exact (h i).keeps (shards i)
  | @block buf maxLen _ _ valid current others =>
    by_cases hi : i = s.currentShard
    · subst hi
      refine (h s.currentShard).of_space current.1 fun buf' maxLen' hw => ?_
      rw [current.2] at hw
      obtain ⟨rfl, rfl⟩ := Prod.mk.inj (Option.some.inj hw)
      exact valid
    · exact (h i).keeps (others i hi)
  | @mmap ram frames mapped vaStart numPages lt _ _ accepted _ after =>
    subst after
    have hok : DescOk s.current := h s.currentShard
    have hpos : 0 < vaStart := Nat.lt_of_lt_of_le hok.image (mmapAccepts_eq_true accepted).image
    have hok' : DescOk { s.current with allocatedFrames := frames } := ⟨hok.1, hok.2, hok.3⟩
    rw [desc_mmapped lt]
    split
    · cases mapped with
      | false => exact hok'
      | true => exact hok'.extendData hpos
    · exact h i
  | unveil lt _ _ lt64 after =>
    subst after
    rw [Sys.desc_modifyShard s lt]
    split
    · exact ⟨(h s.currentShard).image, lt64, (h s.currentShard).waiting⟩
    · exact h i
  | halt _ halted => exact absurd halted hm

/-- What a shard may write, it may write after every step. -/
theorem Footprint.writeRegions_mono (hf : Footprint s ev s') (hd : ∀ i, DescOk (s.desc i))
    (hm : s'.mode ≠ .halted) (i : Nat) {a b : Nat} (h : writeRegions (s.desc i) a b) :
    writeRegions (s'.desc i) a b := by
  cases hf with
  | quiet _ shards => rwa [writeRegions_congr (shards i).space]
  | write _ _ _ _ shards => rwa [writeRegions_congr (shards i).space]
  | block _ _ _ current others =>
    by_cases hi : i = s.currentShard
    · subst hi
      rwa [writeRegions_congr current.1]
    · rwa [writeRegions_congr (others i hi).space]
  | @mmap ram frames mapped vaStart numPages lt _ _ accepted _ after =>
    subst after
    rw [desc_mmapped lt]
    split
    · rename_i hi
      subst hi
      cases mapped with
      | false => exact h
      | true =>
        have himage := (hd s.currentShard).image
        exact writeRegions_extendData
          (Nat.lt_of_lt_of_le himage (mmapAccepts_eq_true accepted).image) h
    · exact h
  | unveil lt _ _ _ after =>
    subst after
    rw [Sys.desc_modifyShard s lt]
    split
    · rename_i hi
      subst hi
      exact h
    · exact h
  | halt _ halted => exact absurd halted hm

/-! ## What no step changes -/

theorem Effect.config {nr a0 a1 a2 : Nat} {r : Option Nat} (h : Effect s nr a0 a1 a2 s' r) :
    s'.config = s.config := by
  cases h with
  | yield =>
    unfold setReady
    split <;> rfl
  | mmap =>
    rw [mmapped_eq]
    rfl
  | _ => rfl

theorem StepEffect.config {a : Action} (h : StepEffect s a s' ev) : s'.config = s.config := by
  cases h with
  | syscall _ _ effect => exact effect.config
  | timer =>
    unfold setReady
    split <;> rfl
  | halt _ _ done =>
    have := destroyAll_induction (P := fun s' => s'.config = s.config) (fun _ _ h => h) done rfl
    exact this
  | _ => rfl

end Steps

/-! ## Runs -/

namespace Run
variable (r : Run)

theorem config_eq (t : Nat) : (r.state t).config = (r.state 0).config := by
  induction t with
  | zero => rfl
  | succ t ih =>
    rw [← ih]
    rcases r.step_cases t with ⟨a, -, heffect⟩ | ⟨hsame, -⟩
    · exact heffect.config
    · rw [hsame]

end Run
end Coconut
