import Coconut.Dma
import Coconut.Files
import Coconut.MmapPanic
import Coconut.RamdiskReads
import Coconut.Replay

/-!
# Syscalls that do not stop the supervisor

The handlers index tables with what they find in the caller's descriptor, in channels and
in partitions, they assert, and they expect frames.  In the states of a run all of this is
in range (`IndicesInRange`), and a handler can stop in two ways only: at a load or store that has no
translation, and in the page loop of `mmap`.  The second is decided by the state before the
call (`Run.syscall_panics_iff`).
-/
namespace Coconut
open Paging

/-! ## Computations that stop at page faults only -/

/-- The computation fails no assertion, no `expect` and no index. -/
def FaultOnly {α : Type} (k : Kernel α) : Prop := ∀ p, k = .error p → p = .kernelPageFault

namespace FaultOnly
variable {α β : Type} {k : Kernel α}

theorem ok (a : α) : FaultOnly (.ok a : Kernel α) := fun _ h => by cases h

theorem of_eq_ok {a : α} (h : k = .ok a) : FaultOnly k := by
  rw [h]
  exact ok a

theorem bind {f : α → Kernel β} (hk : FaultOnly k) (hf : ∀ a, k = .ok a → FaultOnly (f a)) :
    FaultOnly (k >>= f) := by
  intro p hp
  rcases Kernel.bind_eq_error hp with hp | ⟨a, ha, hp⟩
  · exact hk p hp
  · exact hf a ha p hp

theorem map {f : α → β} (hk : FaultOnly k) : FaultOnly (k.map f) :=
  fun p hp => hk p (Kernel.map_eq_error hp)

/-- A check that returns or goes on. -/
theorem ite {c : Prop} [Decidable c] {k' : Kernel α} (hk : c → FaultOnly k) (hk' : ¬ c → FaultOnly k') :
    FaultOnly (if c then k else k') := by
  by_cases hc : c
  · rw [if_pos hc]
    exact hk hc
  · rw [if_neg hc]
    exact hk' hc

/-- A check that is itself a computation. -/
theorem guardM {c : Kernel Bool} {x : α} (hc : FaultOnly c) (hk : c = .ok true → FaultOnly k) :
    FaultOnly (c >>= fun b => if (!b) = true then pure x else k) := by
  refine bind hc fun b hb => ?_
  cases b with
  | false => exact ok x
  | true => exact hk hb

end FaultOnly

theorem copyIn_faultOnly (m : Memory) (pml4 : Nat) {n : Nat} : ∀ {virt : Nat},
    FaultOnly (copyIn m pml4 virt n) := by
  induction n with
  | zero => exact FaultOnly.ok []
  | succ n ih =>
    intro virt
    refine .bind ?_ fun b _ => .bind ih fun bs _ => .ok _
    intro p hp
    unfold loadByte at hp
    split at hp <;> cases hp
    rfl

theorem copyOut_faultOnly (pml4 : Nat) {bytes : List UInt8} : ∀ {m : Memory} {virt : Nat},
    FaultOnly (copyOut m pml4 virt bytes) := by
  induction bytes with
  | nil => exact FaultOnly.ok _
  | cons b bytes ih =>
    intro m virt
    refine .bind ?_ fun m' _ => ih
    intro p hp
    unfold storeByte at hp
    split at hp
    · split at hp <;> cases hp
      rfl
    · cases hp
      rfl

theorem copyVram_faultOnly (s : Sys) {n : Nat} : ∀ {src dst : Nat} {m : Memory},
    FaultOnly (copyVram s n src dst m) := by
  have hexpect : ∀ o : Option Leaf, FaultOnly (expect o .kernelPageFault) := by
    intro o p hp
    exact (Kernel.expect_eq_error hp).2
  induction n with
  | zero => exact FaultOnly.ok _
  | succ n ih =>
    intro src dst m
    refine .bind (hexpect _) fun srcLeaf _ => .bind (hexpect _) fun dstLeaf _ => ?_
    split
    · intro p hp
      cases hp
      rfl
    · exact ih

/-! ## The handlers -/

/-- What the handlers index with is in range. -/
structure IndicesInRange (s : Sys) : Prop where
  current : s.currentShard < maxShards
  ends : ∀ ch ep, (s.channel ch).active = true → (s.channel ch).shard ep < maxShards
  owners : ∀ i, i < s.partitionCount →
    (s.partition i).ownerShard = u64Max ∨ (s.partition i).ownerShard < maxShards
  count : s.partitionCount ≤ maxGpuPartitions
  fs : s.fs.WellFormed
  files : ∀ fd, (s.file fd).active = true →
    s.fs.Listed (s.file fd).inodeNr ∧ (s.file fd).inodeNr < 2 ^ 32

section Handlers
variable {s : Sys} (h : IndicesInRange s)

theorem shard_faultOnly {id : Nat} (hid : id < maxShards) : FaultOnly (s.shard id) :=
  .of_eq_ok (Sys.shard_of_lt hid)

theorem partition_faultOnly {i : Nat} (hi : i < maxGpuPartitions) :
    FaultOnly (s.partitions.index .indexOutOfBounds i) := .of_eq_ok (Table.index_of_lt _ _ hi)

theorem scheduleYield_faultOnly (hi : s.currentShard < maxShards) (context : SavedContext) :
    FaultOnly (scheduleYield s context) := .bind (shard_faultOnly hi) fun _ _ => .ok _

theorem takeMessage_faultOnly (ch : Nat) (ep : Fin 2) (buf maxLen : Nat) :
    FaultOnly (takeMessage s ch ep buf maxLen) :=
  .ite (fun _ => .bind (copyOut_faultOnly _) fun _ _ => .ok _) fun _ => .ok _

theorem unveilAllows_faultOnly {shardId : Nat} (hid : shardId < maxShards) (offset len : Nat) :
    FaultOnly (unveilAllows s shardId offset len) := by
  refine .bind (shard_faultOnly hid) fun _ _ => .ite (fun _ => .ok _) fun _ => ?_
  split <;> exact .ok _

theorem grantCopy_faultOnly (shards : Shards) (srcShard srcHandle targetShard : Nat)
    (newRights : BitVec 16) : FaultOnly (grantCopy shards srcShard srcHandle targetShard newRights) := by
  refine .ite (fun _ => .ok _) fun hlt => .ite (fun _ => .ok _) fun _ => .ite (fun _ => .ok _) fun _ =>
    .ite (fun _ => .ok _) fun _ => .bind ?_ fun granted _ => ?_
  · refine .bind (.of_eq_ok (if_pos (decide_eq_true ?_))) fun _ _ => ?_
    · omega
    · split <;> exact .ok _
  · split <;> exact .ok _

include h

theorem IndicesInRange.validate {image : ShardDescriptor → Nat → Nat → Bool} (ptr len : Nat) :
    FaultOnly (validateUserBuf image s ptr len) :=
  fun _ hp => absurd h.current (Nat.not_lt.mpr (validateUserBuf_error hp))

theorem IndicesInRange.handleSerialWrite (bufPtr len : Nat) : FaultOnly (handleSerialWrite s bufPtr len) :=
  .guardM (h.validate _ _) fun _ => .bind (copyIn_faultOnly _ _) fun _ _ => .ok _

theorem IndicesInRange.handleChannelSend (channelId bufPtr len : Nat) :
    FaultOnly (handleChannelSend s channelId bufPtr len) := by
  refine .ite (fun _ => .ok _) fun _ => .ite (fun _ => .ok _) fun _ => .ite (fun _ => .ok _) fun _ =>
    .guardM (h.validate _ _) fun _ => .ite (fun _ => .ok _) fun _ => .ite (fun _ => .ok _) fun hactive => ?_
  split
  · exact .ok _
  · refine .bind (copyIn_faultOnly _ _) fun _ _ => .bind (shard_faultOnly ?_) fun _ _ => .ok _
    exact h.ends channelId _ (by simpa using hactive)

theorem IndicesInRange.handleChannelRecv (channelId bufPtr maxLen : Nat) :
    FaultOnly (handleChannelRecv s channelId bufPtr maxLen) := by
  refine .ite (fun _ => .ok _) fun _ => .ite (fun _ => .ok _) fun _ => .ite (fun _ => .ok _) fun _ =>
    .guardM (h.validate _ _) fun _ => .ite (fun _ => .ok _) fun _ => .ite (fun _ => .ok _) fun _ => ?_
  split
  · exact .ok _
  · refine .bind (takeMessage_faultOnly _ _ _ _) fun taken _ => ?_
    split
    · exact .ok _
    · exact .bind (shard_faultOnly h.current) fun _ _ =>
        .bind (scheduleYield_faultOnly (s := block s s.currentShard channelId) h.current _)
          fun _ _ => .ok _

theorem IndicesInRange.handleFsOpen (pathPtr pathLen : Nat) : FaultOnly (handleFsOpen s pathPtr pathLen) := by
  refine .ite (fun _ => .ok _) fun _ => .guardM (h.validate _ _) fun _ =>
    .bind (copyIn_faultOnly _ _) fun path _ => ?_
  obtain ⟨found, hfound, hlisted⟩ := Ext2Fs.lookup_returns h.fs path
  refine .bind (.of_eq_ok hfound) fun found' hfound' => ?_
  obtain rfl := Except.ok.inj (hfound.symm.trans hfound')
  split
  · exact .ok _
  · rename_i inodeNr
    obtain ⟨o, ho⟩ := Ext2Fs.readInode_returns h.fs (hlisted inodeNr rfl).2
    refine .bind (.of_eq_ok ho) fun _ _ => ?_
    split
    · exact .ok _
    · refine .ite (fun _ => .ok _) fun _ => ?_
      split <;> exact .ok _

theorem IndicesInRange.handleFsRead (fd bufPtr maxLen : Nat) : FaultOnly (handleFsRead s fd bufPtr maxLen) := by
  unfold Coconut.handleFsRead
  split
  · exact .ok _
  · rename_i file hfile
    obtain ⟨-, ⟨hactive, -⟩, rfl⟩ := callerFile_eq_some hfile
    obtain ⟨hlisted, hlt⟩ := h.files fd hactive
    refine .ite (fun _ => .ok _) fun _ => .guardM (h.validate _ _) fun _ => ?_
    obtain ⟨found, hfound⟩ := Ext2Fs.readInode_returns h.fs hlt
    refine .bind (.of_eq_ok hfound) fun found' hfound' => ?_
    split
    · exact .ok _
    · rename_i inode
      obtain ⟨bytes, hbytes⟩ := Ext2Fs.readData_returns (h.fs.files _ inode hlisted hfound')
        h.fs.blockSize (s.file fd).offset maxLen
      exact .bind (.of_eq_ok hbytes) fun _ _ => .bind (copyOut_faultOnly _) fun _ _ => .ok _

theorem IndicesInRange.handleDma (targetPart srcOffset packedDstLen : Nat) :
    FaultOnly (handleDma s targetPart srcOffset packedDstLen) := by
  have hcount := h.count
  refine .ite (fun _ => .ok _) fun _ => .ite (fun _ => .ok _) fun htarget => ?_
  split
  · exact .ok _
  · rename_i src hsrc
    have hsrclt := (firstFrom_some hsrc).2.1
    refine .ite (fun _ => .ok _) fun _ => .ite (fun _ => .ok _) fun _ =>
      .bind (partition_faultOnly (by omega)) fun srcPart _ =>
      .bind (partition_faultOnly (by omega)) fun dstPart hdst => .ite (fun _ => .ok _) fun _ =>
      .ite (fun _ => .ok _) fun _ => .guardM (unveilAllows_faultOnly h.current _ _) fun _ => ?_
    have rest : FaultOnly (if (s.vramKernPtr == 0) = true then pure (s, u64Max) else do
        let m ← copyVram s (packedDstLen % 2 ^ 32)
          (wrappingAdd s.vramKernPtr (wrappingAdd srcPart.vramOffset srcOffset))
          (wrappingAdd s.vramKernPtr (wrappingAdd dstPart.vramOffset (packedDstLen / 2 ^ 32)))
          s.ram.mem
        pure (s.setMem m, 0)) :=
      .ite (fun _ => .ok _) fun _ => .bind (copyVram_faultOnly s) fun _ _ => .ok _
    obtain ⟨-, rfl⟩ := Sys.partition_eq_ok hdst
    refine .ite (fun howner => .guardM (unveilAllows_faultOnly ?_ _ _) fun _ => rest) fun _ => rest
    exact (h.owners targetPart (by omega)).resolve_left (by simpa using howner)

theorem IndicesInRange.handleGpuUnveil (offset size : Nat) : FaultOnly (handleGpuUnveil s offset size) :=
  .bind (shard_faultOnly h.current) fun _ _ => .ite (fun _ => .ok _) fun _ => .ite (fun _ => .ok _)
    fun _ => .ite (fun _ => .ok _) fun _ => .ite (fun _ => .ok _) fun _ => .ok _

/-- **Every syscall but `mmap`** stops at page faults only. -/
theorem IndicesInRange.dispatch {nr : Nat} (hnr : nr ≠ sysMmap) (a0 a1 a2 tsc : Nat) :
    FaultOnly (dispatch s nr a0 a1 a2 tsc) := by
  have hexit : FaultOnly (handleSysExit s a0) :=
    .bind (shard_faultOnly (s := { s with openFiles := releaseShard s.openFiles s.currentShard })
      h.current) fun _ _ => .ok _
  have hyield : FaultOnly (handleSysYield s) :=
    scheduleYield_faultOnly (by rw [setReady_currentShard]; exact h.current) _
  have hpledge : FaultOnly (handleGpuPledge s a0) := .bind (shard_faultOnly h.current) fun _ _ => .ok _
  unfold Coconut.dispatch
  refine .ite (fun _ => hexit.map) fun _ => .ite (fun _ => (h.handleSerialWrite a0 a1).map) fun _ =>
    .ite (fun _ => (h.handleChannelSend a0 a1 a2).map) fun _ =>
    .ite (fun _ => h.handleChannelRecv a0 a1 a2) fun _ =>
    .ite (fun _ => .map (grantCopy_faultOnly _ _ _ _ _)) fun _ => .ite (fun _ => .ok _) fun _ =>
    .ite (fun _ => .ok _) fun _ => .ite (fun _ => .ok _) fun _ =>
    .ite (fun _ => (h.handleFsOpen a0 a1).map) fun _ =>
    .ite (fun _ => (h.handleFsRead a0 a1 a2).map) fun _ => .ite (fun _ => .ok _) fun _ =>
    .ite (fun _ => .map (.ok _)) fun _ => .ite (fun hc => absurd (beq_iff_eq.mp hc) hnr) fun _ =>
    .ite (fun _ => (h.handleDma a0 a1 a2).map) fun _ => .ite (fun _ => hpledge.map) fun _ =>
    .ite (fun _ => (h.handleGpuUnveil a0 a1).map) fun _ => .ite (fun _ => .ok _) fun _ =>
    .ite (fun _ => hyield.map) fun _ => .ok _

end Handlers

/-! ## `mmap` -/

/-- The call of `mmap` passes the checks and its page loop panics. -/
def Sys.MmapTraps (s : Sys) (vaStart numPages : Nat) : Prop :=
  mmapAccepts s.current vaStart numPages = true ∧
    Traps s.ram.mem s.current.pml4Phys s.ram.supply (pageOf vaStart) numPages

theorem mmapPages_error {root vaStart n : Nat} : ∀ {i : Nat} {r : Ram} {frames : List Nat} {p : Panic},
    mmapPages root vaStart n i r frames = .error p → p ≠ .kernelPageFault := by
  induction n with
  | zero =>
    intro i r frames p hp
    cases hp
  | succ n ih =>
    intro i r frames p hp
    unfold mmapPages at hp
    split at hp
    · cases hp
    · rcases Kernel.bind_eq_error hp with hp | ⟨_, -, hp⟩
      · unfold pushFrame at hp
        split at hp <;> cases hp
        exact Panic.noConfusion
      · rcases Kernel.bind_eq_error hp with hp | ⟨_, -, hp⟩
        · rcases map4k_eq_error hp with ⟨rfl, -⟩ | rfl | ⟨rfl, -⟩ <;> exact Panic.noConfusion
        · exact ih hp

section Mmap
variable {s : Sys} {own : Owners Nat} {isRam : Nat → Prop}

/-- `handle_sys_mmap` stops where its page loop does. -/
theorem handleSysMmap_eq_error (hi : s.currentShard < maxShards) {vaStart numPages : Nat} {p : Panic} :
    handleSysMmap s vaStart numPages = .error p ↔ mmapAccepts s.current vaStart numPages = true ∧
      mmapPages s.current.pml4Phys vaStart numPages 0 s.ram s.current.allocatedFrames = .error p := by
  unfold handleSysMmap
  simp only
  rw [Sys.shard_of_lt hi, Kernel.ok_bind,
    show s.shards.getD s.currentShard ShardDescriptor.initial = s.current from rfl]
  cases mmapAccepts s.current vaStart numPages with
  | false => exact iff_of_false nofun fun hc => Bool.false_ne_true hc.1
  | true =>
    rw [if_neg (by decide)]
    constructor
    · intro hp
      rcases Kernel.bind_eq_error hp with hp | ⟨x, -, hp⟩
      · exact ⟨rfl, hp⟩
      · split at hp <;> cases hp
    · rintro ⟨-, hp⟩
      rw [hp]
      rfl

theorem handleSysMmap_panics_iff (hi : s.currentShard < maxShards) (h : Spaces own isRam s)
    (created : s.current.state ≠ .free) (vaStart numPages : Nat) :
    (∃ p, p ≠ .kernelPageFault ∧ handleSysMmap s vaStart numPages = .error p) ↔
      s.MmapTraps vaStart numPages := by
  have hroot := (h.shard s.currentShard created).root
  -- what is accepted lies below the stack, in the tree of the caller
  have hloop : mmapAccepts s.current vaStart numPages = true →
      ((∃ p, mmapPages s.current.pml4Phys vaStart numPages 0 s.ram s.current.allocatedFrames = .error p) ↔
        Traps s.ram.mem s.current.pml4Phys s.ram.supply (pageOf vaStart) numPages) := by
    intro haccepts
    have hok := mmapAccepts_eq_true haccepts
    have hend : vaStart + numPages * 4096 ≤ 0x7FF000 := hok.stack
    exact mmapPages_panics_iff hok.aligned (Nat.le_refl _) 0 (h.ram.treeOk hroot)
      (fun l hl => h.ram.smallPath_root hroot hl) (by unfold pageOf; omega) (by omega) hok.frames
  simp only [handleSysMmap_eq_error hi]
  constructor
  · rintro ⟨p, -, haccepts, hp⟩
    exact ⟨haccepts, (hloop haccepts).mp ⟨p, hp⟩⟩
  · rintro ⟨haccepts, htraps⟩
    obtain ⟨p, hp⟩ := (hloop haccepts).mpr htraps
    exact ⟨p, mmapPages_error hp, haccepts, hp⟩

end Mmap

/-! ## Dispatch -/

section Dispatch
variable {s : Sys} {own : Owners Nat} {isRam : Nat → Prop}

theorem returns_eq_error {k : Kernel (Sys × Nat)} {p : Panic} : returns k = .error p ↔ k = .error p := by
  refine ⟨Kernel.map_eq_error, fun hp => ?_⟩
  rw [hp]
  rfl

/-- No pledge keeps a shard from `mmap`. -/
theorem syscallDispatch_mmap (hi : s.currentShard < maxShards) (a0 a1 a2 tsc : Nat) :
    syscallDispatch s sysMmap a0 a1 a2 tsc = returns (handleSysMmap s a0 a1) := by
  have hpledge : ∀ pledge, pledgeAllows pledge sysMmap = true := by
    intro pledge
    unfold pledgeAllows
    split <;> rfl
  unfold syscallDispatch
  rw [Sys.shard_of_lt hi, Kernel.ok_bind, hpledge]
  rfl

theorem syscallDispatch_panics_iff (h : IndicesInRange s) (hs : Spaces own isRam s)
    (created : s.current.state ≠ .free) (nr a0 a1 a2 tsc : Nat) :
    (∃ p, p ≠ .kernelPageFault ∧ syscallDispatch s nr a0 a1 a2 tsc = .error p) ↔
      nr = sysMmap ∧ s.MmapTraps a0 a1 := by
  by_cases hnr : nr = sysMmap
  · rw [hnr, syscallDispatch_mmap h.current]
    simp only [returns_eq_error, true_and]
    exact handleSysMmap_panics_iff h.current hs created a0 a1
  · have hfault : FaultOnly (syscallDispatch s nr a0 a1 a2 tsc) :=
      .bind (shard_faultOnly h.current) fun _ _ => .ite (fun _ => .ok _) fun _ => h.dispatch hnr a0 a1 a2 tsc
    refine iff_of_false ?_ fun hc => hnr hc.1
    rintro ⟨p, hne, hp⟩
    exact hne (hfault p hp)

/-- What follows the yield of a suspended shard stops at page faults only. -/
theorem schedule_faultOnly {id : Nat} (hlast : s.lastScheduled < maxShards)
    (hpick : pickNextReady s.shards s.lastScheduled = some id) : FaultOnly (schedule s) := by
  have hid : id < maxShards := by
    obtain ⟨prio, -, hp⟩ := List.exists_of_findSome?_eq_some hpick
    exact (nextCyclic_eq_some hlast hp).1
  unfold schedule
  rw [hpick]
  refine .bind (shard_faultOnly hid) fun d _ => ?_
  unfold resume
  split
  · exact .ok _
  · exact .ok _
  · exact .ok _
  · refine .bind (.bind (takeMessage_faultOnly _ _ _ _) fun o _ => ?_) fun _ _ => .ok _
    split <;> exact .ok _

end Dispatch

/-! ## Runs -/

namespace Control

/-- Every channel in use connects two slots of the shard table. -/
def EndsInRange (c : Control) : Prop :=
  ∀ ch ep, (c.channel ch).active = true → (c.channel ch).shard ep < maxShards

theorem EndsInRange.sameEnds {c c' : Control} (h : c.EndsInRange) (hends : SameEnds c.channel c'.channel) :
    c'.EndsInRange := by
  intro ch ep hactive
  obtain ⟨ha, hs⟩ := hends ch
  rw [hs]
  exact h ch ep (ha ▸ hactive)

/-- No step changes the endpoints of a channel. -/
theorem Step.sameEnds {c c' : Control} {l : Label} (hs : Step c l c') : SameEnds c.channel c'.channel := by
  cases hs with
  | @send i ch ep bytes =>
    have hends : SameEnds c.channel
        (c.setChannel ch ((c.channel ch).put bytes bytes.length (peerEp ep))).channel :=
      SameEnds.setChannel c rfl rfl
    unfold wake
    split <;> exact hends
  | take => exact SameEnds.setChannel c rfl rfl
  | @selectTake i ch buf maxLen ep => 
    have hends : SameEnds (c.switch i).channel
        ((c.switch i).setChannel ch (c.channel ch).clear).channel :=
      SameEnds.setChannel (c.switch i) rfl rfl
    exact hends
  | _ => exact SameEnds.refl _

theorem EndsInRange.bootStep {c c' : Control} {op : BootOp} (h : c.EndsInRange)
    (hop : ∀ ch a b, op = .channelInit ch a b → a < maxShards ∧ b < maxShards)
    (hs : BootStep c op c') : c'.EndsInRange := by
  cases hs with
  | @channelInit ch a b =>
    obtain ⟨ha, hb⟩ := hop ch a b rfl
    intro k ep hactive
    by_cases hk : k = ch
    · subst hk
      rw [setChannel_self]
      change (if ep = ep0 then a else b) < maxShards
      split
      · exact ha
      · exact hb
    · rw [setChannel_of_ne c _ hk] at hactive ⊢
      exact h k ep hactive
  | _ => exact h

end Control

theorem Booted.endsInRange {isRam : Nat → Prop} {ops : List BootOp} {s : Sys} (h : Booted isRam ops s) :
    s.control.EndsInRange := by
  induction h with
  | @initial s hi =>
    intro ch ep hactive
    have hnone : s.channel ch = Channel.initial := by
      unfold Sys.channel Table.getD
      rw [hi.channels]
      split <;> rfl
    rw [show s.control.channel ch = s.channel ch from rfl, hnone] at hactive
    cases hactive
  | op _ hadm hrun ih =>
    refine ih.bootStep ?_ (BootOp.run_control hrun)
    rintro ch a b rfl
    exact ⟨hadm.1.1, hadm.2.1⟩

/-- A partition belongs to nobody or to a slot of the shard table. -/
def Config.OwnersInRange (c : Config) : Prop :=
  ∀ i, i < c.partitionCount → (c.partitions.getD i GpuPartition.initial).ownerShard = u64Max ∨
    (c.partitions.getD i GpuPartition.initial).ownerShard < maxShards

theorem Booted.ownersInRange {isRam : Nat → Prop} {ops : List BootOp} {s : Sys} (h : Booted isRam ops s) :
    s.config.OwnersInRange := by
  induction h with
  | @initial s hi =>
    intro i hlt
    rcases hi.gpu with ⟨hcount, -⟩ | ⟨_, _, size, -, -, -, -, -, -, -, hs⟩
    · rw [show s.config.partitionCount = 0 from hcount] at hlt
      cases hlt
    · have hcount : s.partitionCount = maxGpuPartitions := congrArg Sys.partitionCount hs
      have hi' : i < maxGpuPartitions := hcount ▸ hlt
      rw [Table.getD_of_lt _ _ hi']
      exact Or.inl (congrArg GpuPartition.ownerShard (congrFun (congrArg Sys.partitions hs) ⟨i, hi'⟩))
  | op _ hadm hrun ih =>
    rcases BootOp.run_config hrun with he | ⟨part, shardId, rfl, he⟩
    · rw [he]
      exact ih
    · rw [he]
      intro i hlt
      simp only [Table.getD_modify]
      split
      · exact Or.inr hadm.1
      · exact ih i hlt

theorem Booted.fs_wellFormed {isRam : Nat → Prop} {ops : List BootOp} {s : Sys} (h : Booted isRam ops s) :
    s.config.fs.WellFormed := by
  induction h with
  | initial hi => exact hi.fs
  | op _ _ hrun ih =>
    rcases BootOp.run_config hrun with he | ⟨part, shardId, -, he⟩
    · rw [he]
      exact ih
    · rw [he]
      exact ih

/-- The inode of a file that is open has been found by a lookup. -/
def Sys.FilesListed (s : Sys) : Prop :=
  ∀ fd, (s.file fd).active = true → s.fs.Listed (s.file fd).inodeNr ∧ (s.file fd).inodeNr < 2 ^ 32

theorem Sys.FilesListed.step {s s' : Sys} {ev : Event} (h : s.FilesListed) (hwf : s.fs.WellFormed)
    (hfs : s'.fs = s.fs) (hs : FilesStep s ev s') : s'.FilesListed := by
  intro fd hactive
  rw [hfs]
  cases hs with
  | same files =>
    have hfile : s'.file fd = s.file fd := congrArg (fun t => Table.getD t fd OpenFile.closed) files
    rw [hfile] at hactive ⊢
    exact h fd hactive
  | @opened fd₀ inodeNr _ _ _ inode path fd_lt _ _ found _ _ after =>
    have hfile := (congrArg (Sys.file · fd) after).trans
      (Sys.file_modify (s := s) fd_lt (fun _ => ⟨true, s.currentShard, inodeNr, inode.size, 0⟩) fd)
    rw [hfile] at hactive ⊢
    split at hactive
    · rename_i hfd
      rw [if_pos hfd]
      obtain ⟨o, ho, hlisted⟩ := Ext2Fs.lookup_returns hwf path
      exact hlisted inodeNr (Except.ok.inj (ho.symm.trans found))
    · rename_i hfd
      rw [if_neg hfd]
      exact h fd hactive
  | @read fd₀ _ _ _ bytes _ fd_lt _ owned _ _ _ _ _ after =>
    have hfile := (congrArg (Sys.file · fd) after).trans (Sys.file_modify (s := s) fd_lt (fun file =>
      { file with offset := (file.offset + bytes.length) % 0x100000000 }) fd)
    rw [hfile] at hactive ⊢
    split at hactive
    · rename_i hfd
      rw [if_pos hfd]
      exact h fd₀ owned.1
    · rename_i hfd
      rw [if_neg hfd]
      exact h fd hactive
  | @closed fd₀ _ _ fd_lt _ _ after =>
    have hfile := (congrArg (Sys.file · fd) after).trans
      (Sys.file_modify (s := s) fd_lt (fun _ => OpenFile.closed) fd)
    rw [hfile] at hactive ⊢
    split at hactive
    · cases hactive
    · rename_i hfd
      rw [if_neg hfd]
      exact h fd hactive
  | @exit exitCode _ _ after =>
    have hfile := (congrArg (Sys.file · fd) after).trans (file_exited exitCode)
    rw [hfile] at hactive ⊢
    split at hactive
    · cases hactive
    · rename_i howned
      rw [if_neg howned]
      exact h fd hactive

namespace Run
variable (r : Run)

theorem endsInRange (n : Nat) : (r.state n).control.EndsInRange := by
  induction n with
  | zero => exact r.booted.endsInRange
  | succ n ih =>
    obtain ⟨l, hstep, -⟩ := r.control_step n
    exact ih.sameEnds hstep.sameEnds

theorem ownersInRange (n : Nat) : (r.state n).config.OwnersInRange := by
  rw [r.config_eq n]
  exact r.booted.ownersInRange

theorem fs_wellFormed (n : Nat) : (r.state n).fs.WellFormed := by
  have hfs : (r.state n).fs = (r.state 0).fs := congrArg Config.fs (r.config_eq n)
  rw [hfs]
  exact r.booted.fs_wellFormed

theorem filesListed (n : Nat) : (r.state n).FilesListed := by
  induction n with
  | zero =>
    intro fd hactive
    rw [r.booted.openFiles] at hactive
    cases hactive
  | succ n ih => exact ih.step (r.fs_wellFormed n) (r.fs_eq n) (r.filesStep n)

/-- **In user mode everything is in range.** -/
theorem indicesInRange {n : Nat} (hmode : (r.state n).mode = .user) : IndicesInRange (r.state n) where
  current := ((r.control_inv n).user hmode).1
  ends := r.endsInRange n
  owners := r.ownersInRange n
  count := by
    by_contra hcount
    have hlt := ((r.vramOk n).layout maxGpuPartitions (Nat.lt_of_not_le hcount)).1
    exact absurd hlt (Nat.lt_irrefl _)
  fs := r.fs_wellFormed n
  files := r.filesListed n

/-- **When a syscall panics the supervisor.**  A syscall of the running shard fails an
assertion, an `expect` or an index exactly if it is an `mmap` that passes the checks and
reaches a page that is mapped or for whose tables there are no frames; and the rest of a
receive, when the shard is resumed, does not. -/
theorem syscall_panics_iff (n : Nat) :
    ((r.state n).mode = .user → ∀ nr a0 a1 a2 tsc : UInt64,
      ((∃ p, p ≠ .kernelPageFault ∧ step (r.state n) (.syscall nr a0 a1 a2 tsc) = .error p) ↔
        nr.toNat = sysMmap ∧ (r.state n).MmapTraps a0.toNat a1.toNat)) ∧
    ∀ id, pickNextReady (r.state n).shards (r.state n).lastScheduled = some id →
      ∀ p, step (r.state n) .schedule = .error p → p = .kernelPageFault := by
  refine ⟨fun hmode nr a0 a1 a2 tsc => ?_, fun id hpick => ?_⟩
  · have hlive := r.currentLive n ((r.control_inv n).user hmode).1
    obtain ⟨own, hspaces⟩ := r.spaces n (by rw [hmode]; exact Mode.noConfusion)
    rw [← syscallDispatch_panics_iff (r.indicesInRange hmode) hspaces (Sys.hasSpace_of_isLive hlive).1
      nr.toNat a0.toNat a1.toNat a2.toNat tsc.toNat]
    constructor
    · rintro ⟨p, hne, hp⟩
      exact ⟨p, hne, Kernel.map_eq_error hp⟩
    · rintro ⟨p, hne, hp⟩
      exact ⟨p, hne, congrArg (Except.map _) hp⟩
  · exact schedule_faultOnly (r.control_inv n).last_lt hpick

end Run

/-- A shard that owns a partition and has its config page. -/
def halOps : List BootOp :=
  [.create emptyImage .high, .setOwner 0 0, .gpuConfigPage 0 0 0x10000000 0x20000000]

theorem halBar_lt : 0x2000 < 2 ^ 51 := by decide

set_option maxRecDepth 100000 in
theorem halOps_isSome : (bootAll (gpuSys 0x2000) halOps).isSome = true := by
  decide +kernel

/-- The shard has just been scheduled. -/
def halRun : Run := gpuRun 0x2000 halBar_lt halOps halOps_isSome [.schedule]

set_option maxRecDepth 100000 in
/-- **`mmap` of the page at which the config page lies** passes the checks and stops at
"virt already mapped". -/
theorem config_page_mmap_panics : (halRun.state 1).mode = .user ∧
    mmapAccepts (halRun.state 1).current gpuConfigVaddr 1 = true ∧
    step (halRun.state 1) (.syscall 43 0x4000 1 0 0) = .error .alreadyMapped :=
  ⟨by decide +kernel, by decide +kernel, Kernel.eq_error_of_panic (by decide +kernel)⟩

end Coconut
