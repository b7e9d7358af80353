import Coconut.System

/-!
# Replays

Runs made from a list of actions: each is taken if the mode allows it and it does not
panic, and after the last one nothing happens any more.  Everything here evaluates, so
that what a replay does can be decided.  `plainSys` is a machine with one free 2 MiB
region and no GPU, to boot such runs from, and `gpuSys` the same machine with a GPU.
-/
namespace Coconut
open Paging

/-! ## Boot -/

/-- The call maps no device pages, and its shard ids are those of created shards. -/
def BootOp.plain (s : Sys) : BootOp → Bool
  | .create _ _ => true
  | .gpuConfigPage shardId _ _ _ => created shardId
  | .pipelineConfig shardId _ _ _ _ _ => created shardId
  | .mapBar _ _ _ _ _ => false
  | .mapVram _ _ _ => false
  | .setOwner _ shardId => created shardId
  | .channelInit _ shardA shardB => created shardA && created shardB
  | .grant _ _ _ _ => true
where
  created (id : Nat) : Bool :=
    id < maxShards && (s.shards.getD id ShardDescriptor.initial).state != .free

theorem BootOp.created_of_plain {s : Sys} {id : Nat} (h : BootOp.plain.created s id = true) :
    s.Created id := by
  unfold BootOp.plain.created at h
  simp only [Bool.and_eq_true, bne_iff_ne] at h
  exact ⟨of_decide_eq_true h.1, h.2⟩

theorem BootOp.admissible_of_plain {s : Sys} {op : BootOp} (isRam : Nat → Prop)
    (h : op.plain s = true) : op.Admissible isRam s := by
  cases op with
  | create => trivial
  | gpuConfigPage => exact created_of_plain h
  | pipelineConfig => exact created_of_plain h
  | mapBar => cases h
  | mapVram => cases h
  | setOwner => exact created_of_plain h
  | channelInit =>
    simp only [BootOp.plain, Bool.and_eq_true] at h
    exact ⟨created_of_plain h.1, created_of_plain h.2⟩
  | grant => trivial

/-- Perform calls one after the other. -/
def bootAll (s : Sys) : List BootOp → Option Sys
  | [] => some s
  | op :: ops =>
    if op.plain s then
      match op.run s with
      | .ok s' => bootAll s' ops
      | .error _ => none
    else none

theorem Booted.bootAll {isRam : Nat → Prop} : ∀ {ops : List BootOp} {done : List BootOp} {s s' : Sys},
    Booted isRam done s → bootAll s ops = some s' → Booted isRam (done ++ ops) s'
  | [], done, s, s', h, hb => by
    obtain rfl := Option.some.inj hb
    rwa [List.append_nil]
  | call :: ops, done, s, s', h, hb => by
    unfold Coconut.bootAll at hb
    split at hb
    · rename_i hplain
      split at hb
      · rename_i s₁ hrun
        have := (h.op (BootOp.admissible_of_plain isRam hplain) hrun).bootAll hb
        rwa [List.append_assoc] at this
      · cases hb
    · cases hb

/-! ## Actions -/

/-- Take an action if that is possible. -/
def Sys.attempt (s : Sys) (a : Action) : Sys × Option Action × Event :=
  if a.mode = s.mode then
    match step s a with
    | .ok (s', ev) => (s', some a, ev)
    | .error _ => (s, none, Event.none)
  else (s, none, Event.none)

theorem Sys.attempt_follows (s : Sys) (a : Action) :
    Follows s (s.attempt a).2.1 (s.attempt a).1 (s.attempt a).2.2 := by
  unfold Sys.attempt
  split
  · split
    · exact ⟨‹_›, ‹_›⟩
    · exact ⟨rfl, rfl⟩
  · exact ⟨rfl, rfl⟩

/-- The state after the first `t` actions. -/
def replayState (s : Sys) (as : List Action) (t : Nat) : Sys :=
  (as.take t).foldl (fun s a => (s.attempt a).1) s

/-- What happens at time `t`. -/
def replayAt (s : Sys) (as : List Action) (t : Nat) : Sys × Option Action × Event :=
  match as[t]? with
  | some a => (replayState s as t).attempt a
  | none => (replayState s as t, none, Event.none)

theorem replayState_succ (s : Sys) (as : List Action) (t : Nat) :
    replayState s as (t + 1) = (replayAt s as t).1 := by
  unfold replayState replayAt
  rw [List.take_add_one, List.foldl_append]
  cases as[t]? <;> rfl

/-- The run that takes the actions `as`. -/
def Run.replay {isRam : Nat → Prop} {ops : List BootOp} {s : Sys} (booted : Booted isRam ops s)
    (as : List Action) : Run where
  isRam := isRam
  ops := ops
  state := replayState s as
  action t := (replayAt s as t).2.1
  event t := (replayAt s as t).2.2
  booted := booted
  next t := by
    rw [replayState_succ]
    unfold replayAt
    cases as[t]? with
    | none => exact ⟨rfl, rfl⟩
    | some a => exact Sys.attempt_follows _ a

/-! ## A machine to start from -/

/-- Frames below 4 GiB are memory. -/
def lowRam (f : Nat) : Prop := f < 2 ^ 32

/-- An ELF header without segments whose entry point is `SHARD_CODE_VADDR`. -/
def emptyImage : Slice where
  len := 64
  bytes i :=
    match i with
    | 0 => 0x7F | 1 => 0x45 | 2 => 0x4C | 3 => 0x46
    | 4 => 2 | 5 => 1 | 16 => 2 | 18 => 0x3E | 25 => 0x10 | 32 => 64 | 54 => 56
    | _ => 0

/-- No GPU, no files, and one free region of 2 MiB at 6 MiB.  All bytes are zero but the
first one above memory. -/
def plainSys : Sys where
  ram := ⟨fun x => if x = 0x100000000 then 0x2A else 0, fun w => if w = 0 then 0x8#64 else 0#64, []⟩
  supervisorPml4 := 0x400000
  shards := fun _ => ShardDescriptor.initial
  currentShard := u64Max
  lastScheduled := 0
  channels := fun _ => Channel.initial
  openFiles := fun _ => OpenFile.closed
  fs := ⟨⟨fun _ => 0, 0⟩, 1024, 0, 128, 0⟩
  partitions := fun _ => GpuPartition.initial
  partitionCount := 0
  vramKernPtr := 0
  vramPhysBase := 0x100000000
  vramTotalSize := 0
  mmioNext := mmioVirtBase
  mode := .choosing

theorem plainSys_entryAt {i : Nat} (hi : i < 512) : entryAt plainSys.ram.mem 0x400000 i = 0 :=
  Memory.readLE_eq_zero fun x _ hx => if_neg (by omega)

/-- The supervisor's PML4 is the only table yet. -/
def plainOwners : Owners Nat := fun f => if f = 0x400000 then some (.shared 4) else none

theorem plainOwners_eq_some {f : Nat} {o : Owner Nat} (h : plainOwners f = some o) :
    f = 0x400000 ∧ o = .shared 4 := by
  unfold plainOwners at h
  split at h
  · exact ⟨‹_›, (Option.some.inj h).symm⟩
  · cases h

theorem plainSys_managed {f : Nat} (h : plainSys.ram.Managed f) : f / 0x200000 = 3 := by
  rcases h with ⟨sr, hsr, -⟩ | ⟨-, hlt, hbit⟩
  · cases hsr
  · generalize f / 0x200000 = k at hlt hbit
    have h64 : k < 64 := by
      by_contra hk
      have hw : k / 64 ≠ 0 := by omega
      simp [plainSys, Bitmap.bit, hw] at hbit
    revert hbit
    have : ∀ k : Fin 64, plainSys.ram.bitmap.bit k = true → (k : Nat) = 3 := by decide
    exact this ⟨k, h64⟩

theorem plainSys_ramOk : RamOk plainOwners lowRam plainSys.ram where
  wellFormed := ⟨nofun, nofun, List.nodup_nil⟩
  managed f hf := by
    have := plainSys_managed hf
    unfold lowRam
    omega
  owned_live f o hf hm := by
    obtain ⟨rfl, -⟩ := plainOwners_eq_some hf
    exact absurd (plainSys_managed hm) (by decide)
  tables := by
    refine ⟨fun f o hf => ?_, fun f t k p hf => ?_, fun f k hf hk i hi hp => ?_⟩
    · obtain ⟨rfl, -⟩ := plainOwners_eq_some hf
      exact ⟨by unfold lowRam; decide, by decide, by decide⟩
    · cases (plainOwners_eq_some hf).2
    · obtain ⟨rfl, -⟩ := plainOwners_eq_some hf
      rw [plainSys_entryAt hi] at hp
      cases hp

theorem plainSys_noRoot : plainSys.fs.readInode rootInode = .ok none := by decide

theorem plainSys_fs : plainSys.fs.WellFormed where
  blockSize := by decide
  inodeSize := by decide
  inodeTable := by decide
  rootBlocks b hb := by
    obtain ⟨root, hroot, -⟩ := hb
    rw [plainSys_noRoot] at hroot
    cases hroot
  records b pos hb := by
    obtain ⟨root, hroot, -⟩ := hb
    rw [plainSys_noRoot] at hroot
    cases hroot
  files n inode hn hinode := by
    rcases hn with rfl | ⟨b, pos, ⟨root, hroot, -⟩, -⟩
    · rw [plainSys_noRoot] at hinode
      cases hinode
    · rw [plainSys_noRoot] at hroot
      cases hroot

theorem plainSys_kernel : KernelTables lowRam plainSys := by
  refine ⟨plainOwners, plainSys_ramOk, rfl, fun f o hf => ⟨4, (plainOwners_eq_some hf).2⟩, ?_⟩
  intro i _ hi
  rw [show entryAt plainSys.ram.mem plainSys.supervisorPml4 i = 0 from plainSys_entryAt hi]
  exact ⟨by decide, by decide⟩

theorem plainSys_initial : Initial lowRam plainSys :=
  ⟨rfl, rfl, rfl, rfl, rfl, rfl, plainSys_kernel, Or.inl ⟨rfl, rfl⟩, nofun, plainSys_fs⟩

/-- A replay on the plain machine. -/
def plainRun (ops : List BootOp) (h : (bootAll plainSys ops).isSome = true) (as : List Action) : Run :=
  Run.replay ((Booted.initial plainSys_initial).bootAll (Option.some_get h).symm) as

set_option maxRecDepth 100000 in
theorem oneShard_isSome : (bootAll plainSys [.create emptyImage .normal]).isSome = true := by
  decide +kernel

/-- The plain machine with a VRAM BAR of `size` bytes at 4 GiB. -/
def gpuSys (size : Nat) : Sys :=
  createPartitions
    { plainSys with vramKernPtr := mmioVirtBase, vramPhysBase := 0x100000000, vramTotalSize := size } size

theorem gpuSys_initial {size : Nat} (h : size < 2 ^ 51) : Initial lowRam (gpuSys size) where
  shards := rfl
  currentShard := rfl
  lastScheduled := rfl
  channels := rfl
  openFiles := rfl
  mode := rfl
  kernel := plainSys_kernel
  gpu := Or.inr ⟨mmioVirtBase, 0x100000000, size, Nat.le_refl _, by decide, by decide, by omega, rfl,
    rfl, rfl, rfl⟩
  vram o _ := by
    change ¬ (0x100000000 + o) / 4096 * 4096 < 2 ^ 32
    omega
  fs := plainSys_fs

/-- A replay on the machine with a GPU. -/
def gpuRun (size : Nat) (hsize : size < 2 ^ 51) (ops : List BootOp)
    (h : (bootAll (gpuSys size) ops).isSome = true) (as : List Action) : Run :=
  Run.replay ((Booted.initial (gpuSys_initial hsize)).bootAll (Option.some_get h).symm) as

end Coconut
