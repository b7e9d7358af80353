import Coconut.System

/-!
# What a step can do

One inversion lemma for each handler, gathered in `Effect`: a syscall that returned or
switched to the run loop left the state as it was, or did what one of the constructors
says, with every check on the way recorded.  The rest of the development reasons about
steps through `syscallDispatch_effect` and `schedule_effect`, and never unfolds a
handler again.
-/
namespace Coconut
open Paging

/-! ## States after a handler -/

/-- A message of `len` bytes has been sent by endpoint `ep` of channel `ch`. -/
def sent (s : Sys) (ch len : Nat) (ep : Fin 2) (bytes : List UInt8) : Sys :=
  wake { s with channels := s.channels.modify ch (·.put bytes len (peerEp ep)) }
    ((s.channel ch).shard (peerEp ep)) ch

/-- The message of channel `ch` has been taken, and memory is `m`. -/
def received (s : Sys) (ch : Nat) (m : Memory) : Sys :=
  { s.setMem m with channels := s.channels.modify ch (·.clear) }

/-- The current shard has switched to `run_loop`, to continue at `context`. -/
def suspended (s : Sys) (context : SavedContext) : Sys :=
  { s.modifyShard s.currentShard fun d => { d with savedContext := context } with mode := .choosing }

/-- The current shard has exited. -/
def exited (s : Sys) (exitCode : Nat) : Sys :=
  { { s with openFiles := releaseShard s.openFiles s.currentShard }.modifyShard s.currentShard
      fun d => { d with exitCode, state := .exited } with
    currentShard := u64Max, mode := .choosing }

/-- Pages have been added to the current shard; `mapped` if all of them. -/
def mmapped (s : Sys) (ram : Ram) (allocatedFrames : List Nat) (mapped : Bool)
    (vaStart numPages : Nat) : Sys :=
  let s := { s with ram }.modifyShard s.currentShard fun d => { d with allocatedFrames }
  if mapped then
    s.modifyShard s.currentShard fun d => extendData d vaStart (vaStart + numPages * 4096)
  else s

/-! ## The checks on the way -/

/-- The descriptor of the current shard. -/
def Sys.current (s : Sys) : ShardDescriptor :=
  s.shards.getD s.currentShard ShardDescriptor.initial

/-- The checks a send has passed. -/
structure SendOk (s : Sys) (ch buf len : Nat) (ep : Fin 2) (bytes : List UInt8) : Prop where
  cap : check s.shards s.currentShard capChannel (ch % 2 ^ 32) rightChannelSend = true
  lt : ch < maxChannels
  pos : 0 < len
  le : len ≤ maxMsgSize
  valid : InRegion (readRegions s.current) buf len
  active : (s.channel ch).active = true
  endpoint : endpointOf (s.channel ch) s.currentShard = some ep
  copied : copyIn s.ram.mem s.cr3 buf len = .ok bytes
  peer : (s.channel ch).shard (peerEp ep) < maxShards

/-- The checks a receive has passed before it looks for a message. -/
structure RecvOk (s : Sys) (ch buf maxLen : Nat) (ep : Fin 2) : Prop where
  cap : check s.shards s.currentShard capChannel (ch % 2 ^ 32) rightChannelRecv = true
  lt : ch < maxChannels
  pos : 0 < maxLen
  le : maxLen ≤ maxMsgSize
  valid : InRegion (writeRegions s.current) buf maxLen
  active : (s.channel ch).active = true
  endpoint : endpointOf (s.channel ch) s.currentShard = some ep

/-- A message waits for endpoint `ep`. -/
def Channel.Pending (ch : Channel) (ep : Fin 2) : Prop := 0 < ch.msgLen ∧ ch.msgFor = ep

instance (ch : Channel) (ep : Fin 2) : Decidable (ch.Pending ep) :=
  inferInstanceAs (Decidable (_ ∧ _))

/-- The checks a grant has passed. -/
structure GrantOk (s : Sys) (handle target slot : Nat) : Prop where
  source_lt : s.currentShard < maxShards
  target_lt : target < maxShards
  handle_lt : handle < maxCapsPerShard
  live : (s.shards.getD target ShardDescriptor.initial).state.isLive = true
  valid : (s.shards.cap s.currentShard handle).valid = true
  grant : (s.shards.cap s.currentShard handle).capType = capChannel →
    (s.shards.cap s.currentShard handle).rights &&& rightChannelGrant ≠ 0#16
  slot_lt : slot < maxCapsPerShard
  unused : (s.shards.cap target slot).valid = false

/-- The checks a DMA transfer has passed; `src` is the caller's partition. -/
structure DmaOk (s : Sys) (target srcOffset dstOffset len src : Nat) : Prop where
  pos : 0 < len
  target_lt : target < s.partitionCount
  owned : ownedPartition s s.currentShard = some src
  ne : src ≠ target
  cap : check s.shards s.currentShard capGpuDma (target % 2 ^ 32) rightGpuDmaWrite = true
  src_lt : src < maxGpuPartitions
  dst_lt : target < maxGpuPartitions
  src_fits : srcOffset + len ≤ (s.partition src).vramSize
  dst_fits : dstOffset + len ≤ (s.partition target).vramSize
  src_lt64 : srcOffset + len < 2 ^ 64
  dst_lt64 : dstOffset + len < 2 ^ 64
  unveilSrc : unveilAllows s s.currentShard srcOffset len = .ok true
  unveilDst : (s.partition target).ownerShard ≠ u64Max →
    unveilAllows s (s.partition target).ownerShard dstOffset len = .ok true
  mapped : s.vramKernPtr ≠ 0

/-- The syscalls that only read. -/
def ReadOnly (nr : Nat) : Prop :=
  nr = sysSerialWrite ∨ nr = sysCapInspect ∨ nr = sysFsStat ∨ nr = sysPerfCounter

/-- What a syscall can do. -/
inductive Effect (s : Sys) (nr a0 a1 a2 : Nat) : Sys → Option Nat → Prop
  | unchanged (result : Nat) (failed : ReadOnly nr ∨ result = u64Max) :
      Effect s nr a0 a1 a2 s (some result)
  | exit (hnr : nr = sysExit) : Effect s nr a0 a1 a2 (exited s a0) none
  | yield (hnr : nr = sysYield) : Effect s nr a0 a1 a2 (suspended (setReady s) .sysYield) none
  | send {ep : Fin 2} {bytes : List UInt8} (hnr : nr = sysChannelSend)
      (ok : SendOk s a0 a1 a2 ep bytes) : Effect s nr a0 a1 a2 (sent s a0 a2 ep bytes) (some 0)
  | recv {ep : Fin 2} {m : Memory} (hnr : nr = sysChannelRecv) (ok : RecvOk s a0 a1 a2 ep)
      (pending : (s.channel a0).Pending ep)
      (copied : copyOut s.ram.mem s.cr3 a1
        ((s.channel a0).buffer.readBytes 0 (min (s.channel a0).msgLen a2)) = .ok m) :
      Effect s nr a0 a1 a2 (received s a0 m) (some (min (s.channel a0).msgLen a2))
  | block {ep : Fin 2} (hnr : nr = sysChannelRecv) (ok : RecvOk s a0 a1 a2 ep)
      (empty : ¬ (s.channel a0).Pending ep) :
      Effect s nr a0 a1 a2
        (suspended (Coconut.block s s.currentShard a0) (.channelRecv a0 ep a1 a2)) none
  | grant {slot : Nat} (hnr : nr = sysCapGrant) (ok : GrantOk s a0 a1 slot) :
      Effect s nr a0 a1 a2
        { s with shards := s.shards.modifyCap a1 slot fun _ =>
          ⟨true, (s.shards.cap s.currentShard a0).capType,
            (s.shards.cap s.currentShard a0).resourceId,
            (s.shards.cap s.currentShard a0).rights &&& BitVec.ofNat 16 a2⟩ } (some slot)
  | revoke (hnr : nr = sysCapRevoke) (hh : a0 < maxCapsPerShard) :
      Effect s nr a0 a1 a2
        { s with shards := s.shards.modifyCap s.currentShard a0 fun _ => CapEntry.empty } (some 0)
  | restrict (hnr : nr = sysCapRestrict) (hh : a0 < maxCapsPerShard) :
      Effect s nr a0 a1 a2
        { s with shards := s.shards.modifyCap s.currentShard a0 fun c =>
          { c with rights := c.rights &&& BitVec.ofNat 16 a1 } } (some 0)
  | fsOpen {fd : Nat} {path : List UInt8} {inodeNr : Nat} {inode : Inode} (hnr : nr = sysFsOpen)
      (hfd : fd < maxOpenFiles) (unused : (s.openFiles.getD fd OpenFile.closed).active = false)
      (found : s.fs.lookup path = .ok (some inodeNr))
      (read : s.fs.readInode inodeNr = .ok (some inode)) :
      Effect s nr a0 a1 a2 { s with openFiles := s.openFiles.modify fd fun _ =>
        ⟨true, s.currentShard, inodeNr, inode.size, 0⟩ } (some fd)
  | fsRead {file : OpenFile} {inode : Inode} {bytes : List UInt8} {m : Memory}
      (hnr : nr = sysFsRead) (opened : callerFile s a0 = some file)
      (valid : InRegion (writeRegions s.current) a1 a2)
      (read : s.fs.readInode file.inodeNr = .ok (some inode))
      (data : s.fs.readData inode file.offset a2 = .ok bytes)
      (copied : copyOut s.ram.mem s.cr3 a1 bytes = .ok m) :
      Effect s nr a0 a1 a2 { s.setMem m with openFiles := s.openFiles.modify a0 fun file =>
        { file with offset := (file.offset + bytes.length) % 0x100000000 } } (some bytes.length)
  | fsClose {file : OpenFile} (hnr : nr = sysFsClose) (opened : callerFile s a0 = some file) :
      Effect s nr a0 a1 a2
        { s with openFiles := s.openFiles.modify a0 fun _ => OpenFile.closed } (some 0)
  | mmap {ram : Ram} {frames : List Nat} {mapped : Bool} (hnr : nr = sysMmap)
      (hi : s.currentShard < maxShards) (accepted : mmapAccepts s.current a0 a1 = true)
      (pages : mmapPages s.current.pml4Phys a0 a1 0 s.ram s.current.allocatedFrames =
        .ok (ram, frames, mapped)) :
      Effect s nr a0 a1 a2 (mmapped s ram frames mapped a0 a1) (some (if mapped then 0 else u64Max))
  | dma {src : Nat} {m : Memory} (hnr : nr = sysGpuDma)
      (ok : DmaOk s a0 a1 (a2 / 2 ^ 32) (a2 % 2 ^ 32) src)
      (copied : copyVram s (a2 % 2 ^ 32)
        (wrappingAdd s.vramKernPtr (wrappingAdd (s.partition src).vramOffset a1))
        (wrappingAdd s.vramKernPtr (wrappingAdd (s.partition a0).vramOffset (a2 / 2 ^ 32)))
        s.ram.mem = .ok m) : Effect s nr a0 a1 a2 (s.setMem m) (some 0)
  | pledge (hnr : nr = sysGpuPledge) : Effect s nr a0 a1 a2
      (s.modifyShard s.currentShard fun d => { d with gpuPledge := d.gpuPledge &&& a0 }) (some 0)
  | unveil {part : Nat} (hnr : nr = sysGpuUnveil) (once : s.current.vramUnveilSize = 0)
      (pos : 0 < a1) (owned : ownedPartition s s.currentShard = some part)
      (fits : a0 + a1 ≤ (s.partition part).vramSize) (lt : a0 + a1 < 2 ^ 64) :
      Effect s nr a0 a1 a2 (s.modifyShard s.currentShard fun d =>
        { d with vramUnveilOffset := a0, vramUnveilSize := a1 }) (some 0)

/-! ## Inversion of the handlers -/

section Inversion
variable {s s' : Sys} {a0 a1 a2 result : Nat}

theorem Sys.current_eq (h : s.currentShard < maxShards) :
    s.current = s.shards ⟨s.currentShard, h⟩ := Table.getD_of_lt _ _ h

theorem Sys.shard_of_lt {id : Nat} (h : id < maxShards) :
    s.shard id = .ok (s.shards.getD id ShardDescriptor.initial) := by
  rw [Sys.shard, Table.index_of_lt _ _ h, Table.getD_of_lt _ _ h]

theorem Sys.shard_eq_ok {id : Nat} {d : ShardDescriptor} (h : s.shard id = .ok d) :
    id < maxShards ∧ d = s.shards.getD id ShardDescriptor.initial := by
  obtain ⟨hi, rfl⟩ := Table.index_eq_ok h
  exact ⟨hi, (Table.getD_of_lt _ _ hi).symm⟩

theorem Sys.shard_current {d : ShardDescriptor} (h : s.shard s.currentShard = .ok d) :
    s.currentShard < maxShards ∧ d = s.current := Sys.shard_eq_ok h

theorem Sys.partition_eq_ok {i : Nat} {p : GpuPartition}
    (h : s.partitions.index Panic.indexOutOfBounds i = .ok p) :
    i < maxGpuPartitions ∧ p = s.partition i := by
  obtain ⟨hi, rfl⟩ := Table.index_eq_ok h
  exact ⟨hi, (Table.getD_of_lt _ _ hi).symm⟩

@[simp] theorem setReady_currentShard (s : Sys) : (setReady s).currentShard = s.currentShard := by
  unfold setReady
  split <;> rfl

theorem validRead (h1 : a1 < 2 ^ 64) (h : validateUserReadBuf s a1 a2 = .ok true) :
    InRegion (readRegions s.current) a1 a2 := by
  obtain ⟨hi, hr⟩ := validateUserReadBuf_true h1 h
  rwa [Sys.current_eq hi]

theorem validWrite (h1 : a1 < 2 ^ 64) (h : validateUserWriteBuf s a1 a2 = .ok true) :
    InRegion (writeRegions s.current) a1 a2 := by
  obtain ⟨hi, hr⟩ := validateUserWriteBuf_true h1 h
  rwa [Sys.current_eq hi]

/-- A check that returns `MAX` or goes on. -/
theorem guard_eq_ok {α : Type} {c : Bool} {x y : α} {k : Kernel α}
    (h : (if c = true then pure x else k) = .ok y) : (c = true ∧ y = x) ∨ (c = false ∧ k = .ok y) := by
  cases c with
  | true => exact Or.inl ⟨rfl, (Except.ok.inj h).symm⟩
  | false => exact Or.inr ⟨rfl, h⟩

/-- A check that is itself a computation. -/
theorem guardM_eq_ok {α : Type} {c : Kernel Bool} {x y : α} {k : Kernel α}
    (h : (c >>= fun b => if (!b) = true then pure x else k) = .ok y) :
    (c = .ok false ∧ y = x) ∨ (c = .ok true ∧ k = .ok y) := by
  obtain ⟨b, hb, h⟩ := Kernel.bind_eq_ok h
  cases b with
  | false => exact Or.inl ⟨hb, (Except.ok.inj h).symm⟩
  | true => exact Or.inr ⟨hb, h⟩

/-- A bounds check on a sum that may leave the 64-bit range. -/
theorem checkedAdd_all {a b n : Nat} (h : (checkedAdd a b).all (n < ·) = false) :
    a + b ≤ n ∧ a + b < 2 ^ 64 := by
  cases hc : checkedAdd a b with
  | none => rw [hc] at h; cases h
  | some c =>
    obtain ⟨rfl, hlt⟩ := checkedAdd_eq_some hc
    rw [hc, Option.all_some, decide_eq_false_iff_not] at h
    exact ⟨by omega, hlt⟩

theorem handleSerialWrite_unchanged (h : handleSerialWrite s a0 a1 = .ok (s', result)) : s' = s := by
  unfold handleSerialWrite at h
  rcases guardM_eq_ok h with ⟨-, h⟩ | ⟨-, h⟩
  · exact (Prod.mk.inj h).1
  · obtain ⟨_, -, h⟩ := Kernel.bind_eq_ok h
    exact (Prod.mk.inj (Except.ok.inj h)).1.symm

/-- The handler failed. -/
theorem Effect.of_max {nr : Nat} (h : (s', result) = (s, u64Max)) :
    Effect s nr a0 a1 a2 s' (some result) := by
  obtain ⟨rfl, rfl⟩ := Prod.mk.inj h
  exact Effect.unchanged _ (Or.inr rfl)

theorem send_effect {sender : Nat} (h : send s a0 sender a1 a2 = .ok (s', result)) :
    (s', result) = (s, u64Max) ∨ ∃ ep bytes, result = 0 ∧ s' = sent s a0 a2 ep bytes ∧
      (s.channel a0).active = true ∧
      endpointOf (s.channel a0) sender = some ep ∧ copyIn s.ram.mem s.cr3 a1 a2 = .ok bytes ∧
      (s.channel a0).shard (peerEp ep) < maxShards := by
  unfold send at h
  split at h
  · exact Or.inl (Except.ok.inj h).symm
  · simp only at h
    rcases guard_eq_ok h with ⟨-, h⟩ | ⟨hact, h⟩
    · exact Or.inl h
    · split at h
      · exact Or.inl (Except.ok.inj h).symm
      · rename_i ep hep
        obtain ⟨bytes, hbytes, h⟩ := Kernel.bind_eq_ok h
        obtain ⟨d, hd, h⟩ := Kernel.bind_eq_ok h
        obtain ⟨hs, hr⟩ := Prod.mk.inj (Except.ok.inj h)
        exact Or.inr ⟨ep, bytes, hr.symm, hs.symm, by simpa using hact, hep, hbytes,
          (Sys.shard_eq_ok hd).1⟩

theorem handleChannelSend_effect (h1 : a1 < 2 ^ 64)
    (h : handleChannelSend s a0 a1 a2 = .ok (s', result)) :
    Effect s sysChannelSend a0 a1 a2 s' (some result) := by
  unfold handleChannelSend at h
  simp only at h
  rcases guard_eq_ok h with ⟨-, h⟩ | ⟨hcap, h⟩
  · exact .of_max h
  split at h
  · exact .of_max (Except.ok.inj h).symm
  rename_i hch
  rcases guard_eq_ok h with ⟨-, h⟩ | ⟨hlen, h⟩
  · exact .of_max h
  rcases guardM_eq_ok h with ⟨-, h⟩ | ⟨hb, h⟩
  · exact .of_max h
  rcases send_effect h with h | ⟨ep, bytes, rfl, rfl, hact, hep, hbytes, hpeer⟩
  · exact .of_max h
  · simp only [Bool.or_eq_false_iff, decide_eq_false_iff_not, beq_eq_false_iff_ne, not_lt] at hlen
    exact .send rfl ⟨by simpa using hcap, by omega, by omega, hlen.1, validRead h1 hb, hact, hep,
      hbytes, hpeer⟩

theorem takeMessage_effect {ch : Nat} {ep : Fin 2} {buf maxLen : Nat} {o : Option (Sys × Nat)}
    (h : takeMessage s ch ep buf maxLen = .ok o) :
    (o = none ∧ ¬ (s.channel ch).Pending ep) ∨ ∃ m, (s.channel ch).Pending ep ∧
      copyOut s.ram.mem s.cr3 buf
        ((s.channel ch).buffer.readBytes 0 (min (s.channel ch).msgLen maxLen)) = .ok m ∧
      o = some (received s ch m, min (s.channel ch).msgLen maxLen) := by
  unfold takeMessage at h
  simp only at h
  split at h
  · rename_i hp
    obtain ⟨m, hm, h⟩ := Kernel.bind_eq_ok h
    simp only [Bool.and_eq_true, decide_eq_true_eq, beq_iff_eq] at hp
    exact Or.inr ⟨m, hp, hm, (Except.ok.inj h).symm⟩
  · rename_i hp
    simp only [Bool.and_eq_true, decide_eq_true_eq, beq_iff_eq] at hp
    exact Or.inl ⟨(Except.ok.inj h).symm, hp⟩

theorem scheduleYield_eq_ok {ctx : SavedContext} (h : scheduleYield s ctx = .ok s') :
    s.currentShard < maxShards ∧ s' = suspended s ctx := by
  unfold scheduleYield at h
  obtain ⟨d, hd, h⟩ := Kernel.bind_eq_ok h
  exact ⟨(Sys.shard_eq_ok hd).1, (Except.ok.inj h).symm⟩

theorem handleChannelRecv_effect {r : Option Nat} (h1 : a1 < 2 ^ 64)
    (h : handleChannelRecv s a0 a1 a2 = .ok (s', r)) :
    Effect s sysChannelRecv a0 a1 a2 s' r := by
  have failed : (s', r) = (s, some u64Max) → Effect s sysChannelRecv a0 a1 a2 s' r := by
    intro h
    obtain ⟨rfl, rfl⟩ := Prod.mk.inj h
    exact .unchanged _ (Or.inr rfl)
  unfold handleChannelRecv at h
  simp only at h
  rcases guard_eq_ok h with ⟨-, h⟩ | ⟨hcap, h⟩
  · exact failed h
  split at h
  · exact failed (Except.ok.inj h).symm
  rename_i hch
  rcases guard_eq_ok h with ⟨-, h⟩ | ⟨hlen, h⟩
  · exact failed h
  rcases guardM_eq_ok h with ⟨-, h⟩ | ⟨hb, h⟩
  · exact failed h
  simp only [Bool.or_eq_false_iff, decide_eq_false_iff_not, beq_eq_false_iff_ne, not_lt] at hlen
  -- the checks of `recv` itself
  unfold recv at h
  rw [if_neg (show ¬ (maxChannels ≤ a0 ∨ a2 = 0) by omega)] at h
  simp only at h
  rcases guard_eq_ok h with ⟨-, h⟩ | ⟨hact, h⟩
  · exact failed h
  split at h
  · exact failed (Except.ok.inj h).symm
  rename_i ep hep
  have ok : RecvOk s a0 a1 a2 ep := ⟨by simpa using hcap, by omega, by omega, by omega,
    validWrite h1 hb, by simpa using hact, hep⟩
  obtain ⟨o, ho, h⟩ := Kernel.bind_eq_ok h
  rcases takeMessage_effect ho with ⟨rfl, hempty⟩ | ⟨m, hp, hm, rfl⟩
  · obtain ⟨d, -, h⟩ := Kernel.bind_eq_ok h
    obtain ⟨s₁, hs₁, h⟩ := Kernel.bind_eq_ok h
    obtain ⟨hs, hr⟩ := Prod.mk.inj (Except.ok.inj h)
    obtain ⟨-, rfl⟩ := scheduleYield_eq_ok hs₁
    exact hs ▸ hr ▸ Effect.block rfl ok hempty
  · obtain ⟨hs, hr⟩ := Prod.mk.inj (Except.ok.inj h)
    exact hs ▸ hr ▸ Effect.recv rfl ok hp hm

theorem grantToShard_effect {shards shards' : Shards} {target capType resourceId : Nat}
    {rights : BitVec 16} {o : Option Nat}
    (h : grantToShard shards target capType resourceId rights = .ok (shards', o)) :
    target < maxShards ∧ ((o = none ∧ shards' = shards) ∨ ∃ slot, slot < maxCapsPerShard ∧
      (shards.cap target slot).valid = false ∧ o = some slot ∧
      shards' = shards.modifyCap target slot fun _ => ⟨true, capType, resourceId, rights⟩) := by
  unfold grantToShard at h
  obtain ⟨_, hlt, h⟩ := Kernel.bind_eq_ok h
  refine ⟨of_decide_eq_true (Kernel.assert_eq_ok hlt), ?_⟩
  split at h
  · rename_i slot hslot
    obtain ⟨-, hlt', hfree⟩ := firstFrom_some hslot
    obtain ⟨h1, h2⟩ := Prod.mk.inj (Except.ok.inj h)
    exact Or.inr ⟨slot, by omega, by simpa using hfree, h2.symm, h1.symm⟩
  · obtain ⟨h1, h2⟩ := Prod.mk.inj (Except.ok.inj h)
    exact Or.inl ⟨h2.symm, h1.symm⟩

theorem grantCopy_effect {shards' : Shards}
    (h : grantCopy s.shards s.currentShard a0 a1 (BitVec.ofNat 16 a2) = .ok (shards', result)) :
    Effect s sysCapGrant a0 a1 a2 { s with shards := shards' } (some result) := by
  have failed : (shards', result) = (s.shards, u64Max) →
      Effect s sysCapGrant a0 a1 a2 { s with shards := shards' } (some result) := by
    intro h
    obtain ⟨rfl, rfl⟩ := Prod.mk.inj h
    exact .unchanged _ (Or.inr rfl)
  unfold grantCopy at h
  split at h
  · exact failed (Except.ok.inj h).symm
  rename_i hlt
  rcases guard_eq_ok h with ⟨-, h⟩ | ⟨hlive, h⟩
  · exact failed h
  simp only at h
  rcases guard_eq_ok h with ⟨-, h⟩ | ⟨hvalid, h⟩
  · exact failed h
  rcases guard_eq_ok h with ⟨-, h⟩ | ⟨hgrant, h⟩
  · exact failed h
  obtain ⟨⟨sh, o⟩, hg, h⟩ := Kernel.bind_eq_ok h
  obtain ⟨htarget, ⟨rfl, rfl⟩ | ⟨slot, hslot, hfree, rfl, rfl⟩⟩ := grantToShard_effect hg
  · exact failed (Except.ok.inj h).symm
  · obtain ⟨h1, h2⟩ := Prod.mk.inj (Except.ok.inj h)
    subst h1 h2
    refine Effect.grant rfl ⟨by omega, htarget, by omega, by simpa using hlive, by simpa using hvalid,
      fun hc => ?_, hslot, hfree⟩
    simp only [hc, beq_self_eq_true, Bool.true_and, beq_eq_false_iff_ne] at hgrant
    exact hgrant


theorem handleFsOpen_effect (h : handleFsOpen s a0 a1 = .ok (s', result)) :
    Effect s sysFsOpen a0 a1 a2 s' (some result) := by
  unfold handleFsOpen at h
  rcases guard_eq_ok h with ⟨-, h⟩ | ⟨-, h⟩
  · exact Effect.of_max h
  rcases guardM_eq_ok h with ⟨-, h⟩ | ⟨-, h⟩
  · exact Effect.of_max h
  obtain ⟨path, -, h⟩ := Kernel.bind_eq_ok h
  obtain ⟨_ | inodeNr, hfound, h⟩ := Kernel.bind_eq_ok h
  · exact Effect.of_max (Except.ok.inj h).symm
  obtain ⟨_ | inode, hread, h⟩ := Kernel.bind_eq_ok h
  · exact Effect.of_max (Except.ok.inj h).symm
  rcases guard_eq_ok h with ⟨-, h⟩ | ⟨-, h⟩
  · exact Effect.of_max h
  split at h
  · exact Effect.of_max (Except.ok.inj h).symm
  · rename_i fd hfd
    obtain ⟨-, hlt, hfree⟩ := firstFrom_some hfd
    obtain ⟨rfl, rfl⟩ := Prod.mk.inj (Except.ok.inj h)
    exact Effect.fsOpen rfl (by omega) (by simpa using hfree) hfound hread

theorem handleFsRead_effect (h1 : a1 < 2 ^ 64) (h : handleFsRead s a0 a1 a2 = .ok (s', result)) :
    Effect s sysFsRead a0 a1 a2 s' (some result) := by
  unfold handleFsRead at h
  split at h
  · exact Effect.of_max (Except.ok.inj h).symm
  rename_i file hfile
  rcases guard_eq_ok h with ⟨-, h⟩ | ⟨-, h⟩
  · exact Effect.of_max h
  rcases guardM_eq_ok h with ⟨-, h⟩ | ⟨hvalid, h⟩
  · exact Effect.of_max h
  obtain ⟨_ | inode, hread, h⟩ := Kernel.bind_eq_ok h
  · exact Effect.of_max (Except.ok.inj h).symm
  obtain ⟨bytes, hdata, h⟩ := Kernel.bind_eq_ok h
  obtain ⟨m, hm, h⟩ := Kernel.bind_eq_ok h
  obtain ⟨rfl, rfl⟩ := Prod.mk.inj (Except.ok.inj h)
  exact Effect.fsRead rfl hfile (validWrite h1 hvalid) hread hdata hm

theorem handleFsClose_effect (h : handleFsClose s a0 = (s', result)) :
    Effect s sysFsClose a0 a1 a2 s' (some result) := by
  unfold handleFsClose at h
  split at h
  · exact Effect.of_max h.symm
  · rename_i file hfile
    obtain ⟨rfl, rfl⟩ := Prod.mk.inj h
    exact Effect.fsClose rfl hfile

theorem handleSysMmap_effect (h : handleSysMmap s a0 a1 = .ok (s', result)) :
    Effect s sysMmap a0 a1 a2 s' (some result) := by
  unfold handleSysMmap at h
  simp only at h
  obtain ⟨d, hd, h⟩ := Kernel.bind_eq_ok h
  obtain ⟨hi, rfl⟩ := Sys.shard_current hd
  rcases guard_eq_ok h with ⟨-, h⟩ | ⟨hacc, h⟩
  · exact Effect.of_max h
  obtain ⟨⟨ram, frames, mapped⟩, hpages, h⟩ := Kernel.bind_eq_ok h
  have hacc : mmapAccepts s.current a0 a1 = true := by simpa using hacc
  have key : Effect s sysMmap a0 a1 a2 _ _ := .mmap rfl hi hacc hpages
  cases mapped with
  | false =>
    obtain ⟨rfl, rfl⟩ := Prod.mk.inj (Except.ok.inj h)
    exact key
  | true =>
    obtain ⟨rfl, rfl⟩ := Prod.mk.inj (Except.ok.inj h)
    exact key

theorem handleGpuUnveil_effect (h : handleGpuUnveil s a0 a1 = .ok (s', result)) :
    Effect s sysGpuUnveil a0 a1 a2 s' (some result) := by
  unfold handleGpuUnveil at h
  simp only at h
  obtain ⟨d, hd, h⟩ := Kernel.bind_eq_ok h
  obtain ⟨hi, rfl⟩ := Sys.shard_current hd
  rcases guard_eq_ok h with ⟨-, h⟩ | ⟨honce, h⟩
  · exact Effect.of_max h
  rcases guard_eq_ok h with ⟨-, h⟩ | ⟨hpos, h⟩
  · exact Effect.of_max h
  rcases guard_eq_ok h with ⟨-, h⟩ | ⟨hpart, h⟩
  · exact Effect.of_max h
  rcases guard_eq_ok h with ⟨-, h⟩ | ⟨hfits, h⟩
  · exact Effect.of_max h
  obtain ⟨rfl, rfl⟩ := Prod.mk.inj (Except.ok.inj h)
  cases hown : ownedPartition s s.currentShard with
  | none => simp [hown] at hpart
  | some part =>
    rw [hown, Option.map_some, Option.getD_some] at hfits
    obtain ⟨hle, hlt⟩ := checkedAdd_all hfits
    refine Effect.unveil rfl (by simpa using honce) ?_ hown hle hlt
    have : a1 ≠ 0 := by simpa using hpos
    omega

theorem handleDma_effect (h : handleDma s a0 a1 a2 = .ok (s', result)) :
    Effect s sysGpuDma a0 a1 a2 s' (some result) := by
  unfold handleDma at h
  simp only at h
  rcases guard_eq_ok h with ⟨-, h⟩ | ⟨hlen, h⟩
  · exact Effect.of_max h
  split at h
  · exact Effect.of_max (Except.ok.inj h).symm
  rename_i htarget
  split at h
  · exact Effect.of_max (Except.ok.inj h).symm
  rename_i src hown
  rcases guard_eq_ok h with ⟨-, h⟩ | ⟨hne, h⟩
  · exact Effect.of_max h
  rcases guard_eq_ok h with ⟨-, h⟩ | ⟨hcap, h⟩
  · exact Effect.of_max h
  obtain ⟨srcPart, hsrc, h⟩ := Kernel.bind_eq_ok h
  obtain ⟨dstPart, hdst, h⟩ := Kernel.bind_eq_ok h
  obtain ⟨hsrclt, hsrceq⟩ := Sys.partition_eq_ok hsrc
  obtain ⟨hdstlt, hdsteq⟩ := Sys.partition_eq_ok hdst
  subst hsrceq hdsteq
  rcases guard_eq_ok h with ⟨-, h⟩ | ⟨hsf, h⟩
  · exact Effect.of_max h
  rcases guard_eq_ok h with ⟨-, h⟩ | ⟨hdf, h⟩
  · exact Effect.of_max h
  rcases guardM_eq_ok h with ⟨-, h⟩ | ⟨hus, h⟩
  · exact Effect.of_max h
  obtain ⟨hsle, hslt⟩ := checkedAdd_all hsf
  obtain ⟨hdle, hdlt⟩ := checkedAdd_all hdf
  have hpos : 0 < a2 % 2 ^ 32 := by
    have : a2 % 2 ^ 32 ≠ 0 := by simpa using hlen
    omega
  -- the rest after the two unveil checks
  have rest : ∀ {k : Kernel (Sys × Nat)}, k = .ok (s', result) →
      ((s.partition a0).ownerShard ≠ u64Max →
        unveilAllows s (s.partition a0).ownerShard (a2 / 2 ^ 32) (a2 % 2 ^ 32) = .ok true) →
      (k = if (s.vramKernPtr == 0) = true then pure (s, u64Max) else do
        let m ← copyVram s (a2 % 2 ^ 32)
          (wrappingAdd s.vramKernPtr (wrappingAdd (s.partition src).vramOffset a1))
          (wrappingAdd s.vramKernPtr (wrappingAdd (s.partition a0).vramOffset (a2 / 2 ^ 32)))
          s.ram.mem
        pure (s.setMem m, 0)) →
      Effect s sysGpuDma a0 a1 a2 s' (some result) := by
    rintro k hk hud rfl
    rcases guard_eq_ok hk with ⟨-, h⟩ | ⟨hptr, h⟩
    · exact Effect.of_max h
    obtain ⟨m, hm, h⟩ := Kernel.bind_eq_ok h
    obtain ⟨rfl, rfl⟩ := Prod.mk.inj (Except.ok.inj h)
    exact Effect.dma rfl ⟨hpos, by omega, hown, by simpa using hne, by simpa using hcap, hsrclt,
      hdstlt, hsle, hdle, hslt, hdlt, hus, hud, by simpa using hptr⟩ hm
  split at h
  · rcases guardM_eq_ok h with ⟨-, h⟩ | ⟨hud, h⟩
    · exact Effect.of_max h
    · exact rest h (fun _ => hud) rfl
  · rename_i howner
    exact rest h (fun hc => absurd (by simpa using hc) howner) rfl

theorem handleSysExit_eq_ok (h : handleSysExit s a0 = .ok s') :
    s.currentShard < maxShards ∧ s' = exited s a0 := by
  unfold handleSysExit at h
  simp only at h
  obtain ⟨d, hd, h⟩ := Kernel.bind_eq_ok h
  obtain ⟨hi, -⟩ := Table.index_eq_ok hd
  exact ⟨hi, (Except.ok.inj h).symm⟩

theorem handleGpuPledge_effect (h : handleGpuPledge s a0 = .ok (s', result)) :
    Effect s sysGpuPledge a0 a1 a2 s' (some result) := by
  unfold handleGpuPledge at h
  obtain ⟨d, -, h⟩ := Kernel.bind_eq_ok h
  obtain ⟨rfl, rfl⟩ := Prod.mk.inj (Except.ok.inj h)
  exact Effect.pledge rfl

theorem returns_eq_ok {k : Kernel (Sys × Nat)} {r : Option Nat} (h : returns k = .ok (s', r)) :
    ∃ result, r = some result ∧ k = .ok (s', result) := by
  obtain ⟨⟨s₁, n⟩, hk, h⟩ := Kernel.map_eq_ok h
  obtain ⟨rfl, rfl⟩ := Prod.mk.inj h
  exact ⟨n, rfl, hk⟩

theorem revoke_effect :
    Effect s sysCapRevoke a0 a1 a2 (onShards s (revoke s.shards s.currentShard a0)).1
      (onShards s (revoke s.shards s.currentShard a0)).2 := by
  unfold revoke
  split
  · exact Effect.unchanged _ (Or.inr rfl)
  · rename_i hlt
    split
    · exact Effect.unchanged _ (Or.inr rfl)
    · exact Effect.revoke rfl (by omega)

theorem restrict_effect :
    Effect s sysCapRestrict a0 a1 a2
      (onShards s (restrict s.shards s.currentShard a0 (BitVec.ofNat 16 a1))).1
      (onShards s (restrict s.shards s.currentShard a0 (BitVec.ofNat 16 a1))).2 := by
  unfold restrict
  split
  · exact Effect.unchanged _ (Or.inr rfl)
  · rename_i hlt
    split
    · exact Effect.unchanged _ (Or.inr rfl)
    · exact Effect.restrict rfl (by omega)

/-- One arm of the `match` on the syscall number. -/
theorem select_eq {α : Type} {nr k : Nat} {x y z : α}
    (h : (if (nr == k) = true then x else y) = z) : (nr = k ∧ x = z) ∨ y = z := by
  by_cases hk : nr = k
  · rw [if_pos (beq_iff_eq.mpr hk)] at h
    exact Or.inl ⟨hk, h⟩
  · rw [if_neg fun hc => hk (beq_iff_eq.mp hc)] at h
    exact Or.inr h

theorem dispatch_effect {nr tsc : Nat} {r : Option Nat} (h1 : a1 < 2 ^ 64)
    (h : dispatch s nr a0 a1 a2 tsc = .ok (s', r)) : Effect s nr a0 a1 a2 s' r := by
  unfold dispatch at h
  rcases select_eq h with ⟨rfl, h⟩ | h
  · obtain ⟨s₁, hs₁, h⟩ := Kernel.map_eq_ok h
    obtain ⟨rfl, rfl⟩ := Prod.mk.inj h
    obtain ⟨-, rfl⟩ := handleSysExit_eq_ok hs₁
    exact Effect.exit rfl
  rcases select_eq h with ⟨rfl, h⟩ | h
  · obtain ⟨n, rfl, hk⟩ := returns_eq_ok h
    rw [handleSerialWrite_unchanged hk]
    exact Effect.unchanged _ (Or.inl (Or.inl rfl))
  rcases select_eq h with ⟨rfl, h⟩ | h
  · obtain ⟨n, rfl, hk⟩ := returns_eq_ok h
    exact handleChannelSend_effect h1 hk
  rcases select_eq h with ⟨rfl, h⟩ | h
  · exact handleChannelRecv_effect h1 h
  rcases select_eq h with ⟨rfl, h⟩ | h
  · obtain ⟨⟨sh, n⟩, hk, h⟩ := Kernel.map_eq_ok h
    obtain ⟨rfl, rfl⟩ := Prod.mk.inj h
    exact grantCopy_effect hk
  rcases select_eq h with ⟨rfl, h⟩ | h
  · obtain ⟨rfl, rfl⟩ := Prod.mk.inj (Except.ok.inj h)
    exact revoke_effect
  rcases select_eq h with ⟨rfl, h⟩ | h
  · obtain ⟨rfl, rfl⟩ := Prod.mk.inj (Except.ok.inj h)
    exact restrict_effect
  rcases select_eq h with ⟨rfl, h⟩ | h
  · obtain ⟨rfl, rfl⟩ := Prod.mk.inj (Except.ok.inj h)
    exact Effect.unchanged _ (Or.inl (Or.inr (Or.inl rfl)))
  rcases select_eq h with ⟨rfl, h⟩ | h
  · obtain ⟨n, rfl, hk⟩ := returns_eq_ok h
    exact handleFsOpen_effect hk
  rcases select_eq h with ⟨rfl, h⟩ | h
  · obtain ⟨n, rfl, hk⟩ := returns_eq_ok h
    exact handleFsRead_effect h1 hk
  rcases select_eq h with ⟨rfl, h⟩ | h
  · obtain ⟨rfl, rfl⟩ := Prod.mk.inj (Except.ok.inj h)
    exact Effect.unchanged _ (Or.inl (Or.inr (Or.inr (Or.inl rfl))))
  rcases select_eq h with ⟨rfl, h⟩ | h
  · obtain ⟨n, rfl, hk⟩ := returns_eq_ok h
    exact handleFsClose_effect (Except.ok.inj hk)
  rcases select_eq h with ⟨rfl, h⟩ | h
  · obtain ⟨n, rfl, hk⟩ := returns_eq_ok h
    exact handleSysMmap_effect hk
  rcases select_eq h with ⟨rfl, h⟩ | h
  · obtain ⟨n, rfl, hk⟩ := returns_eq_ok h
    exact handleDma_effect hk
  rcases select_eq h with ⟨rfl, h⟩ | h
  · obtain ⟨n, rfl, hk⟩ := returns_eq_ok h
    exact handleGpuPledge_effect hk
  rcases select_eq h with ⟨rfl, h⟩ | h
  · obtain ⟨n, rfl, hk⟩ := returns_eq_ok h
    exact handleGpuUnveil_effect hk
  rcases select_eq h with ⟨rfl, h⟩ | h
  · obtain ⟨rfl, rfl⟩ := Prod.mk.inj (Except.ok.inj h)
    exact Effect.unchanged _ (Or.inl (Or.inr (Or.inr (Or.inr rfl))))
  rcases select_eq h with ⟨rfl, h⟩ | h
  · obtain ⟨s₁, hs₁, h⟩ := Kernel.map_eq_ok h
    obtain ⟨rfl, rfl⟩ := Prod.mk.inj h
    obtain ⟨-, rfl⟩ := scheduleYield_eq_ok hs₁
    exact Effect.yield rfl
  · obtain ⟨rfl, rfl⟩ := Prod.mk.inj (Except.ok.inj h)
    exact Effect.unchanged _ (Or.inr rfl)

/-- **What a syscall can do.**  Either the pledge refused it and nothing happened, or
the pledge allows it and a handler had its effect. -/
theorem syscallDispatch_effect {nr tsc : Nat} {r : Option Nat} (h1 : a1 < 2 ^ 64)
    (h : syscallDispatch s nr a0 a1 a2 tsc = .ok (s', r)) :
    s.currentShard < maxShards ∧
      ((pledgeAllows s.current.gpuPledge nr = false ∧ s' = s ∧ r = some u64Max) ∨
        (pledgeAllows s.current.gpuPledge nr = true ∧ Effect s nr a0 a1 a2 s' r)) := by
  unfold syscallDispatch at h
  obtain ⟨d, hd, h⟩ := Kernel.bind_eq_ok h
  obtain ⟨hi, rfl⟩ := Sys.shard_current hd
  refine ⟨hi, ?_⟩
  rcases guard_eq_ok h with ⟨hp, h⟩ | ⟨hp, h⟩
  · exact Or.inl ⟨by simpa using hp, Prod.mk.inj h⟩
  · exact Or.inr ⟨by simpa using hp, dispatch_effect h1 h⟩

end Inversion

/-- A DMA syscall failed and changed nothing, or has passed the checks and copied. -/
theorem Effect.dma_cases {s s' : Sys} {a0 a1 a2 : Nat} {r : Option Nat}
    (h : Effect s sysGpuDma a0 a1 a2 s' r) : (s' = s ∧ r = some u64Max) ∨
      ∃ src m, DmaOk s a0 a1 (a2 / 2 ^ 32) (a2 % 2 ^ 32) src ∧
        copyVram s (a2 % 2 ^ 32)
          (wrappingAdd s.vramKernPtr (wrappingAdd (s.partition src).vramOffset a1))
          (wrappingAdd s.vramKernPtr (wrappingAdd (s.partition a0).vramOffset (a2 / 2 ^ 32)))
          s.ram.mem = .ok m ∧ s' = s.setMem m ∧ r = some 0 := by
  cases h with
  | unchanged _ failed =>
    rcases failed with (hc | hc | hc | hc) | rfl
    · cases hc
    · cases hc
    · cases hc
    · cases hc
    · exact Or.inl ⟨rfl, rfl⟩
  | dma _ ok copied => exact Or.inr ⟨_, _, ok, copied, rfl, rfl⟩
  | exit hnr | yield hnr | send hnr | recv hnr | block hnr | grant hnr | revoke hnr | restrict hnr
  | fsOpen hnr | fsRead hnr | fsClose hnr | mmap hnr | pledge hnr | unveil hnr => cases hnr

/-- A send failed and changed nothing, or has passed the checks. -/
theorem Effect.send_cases {s s' : Sys} {a0 a1 a2 : Nat} {r : Option Nat}
    (h : Effect s sysChannelSend a0 a1 a2 s' r) : (s' = s ∧ r = some u64Max) ∨
      ∃ ep bytes, SendOk s a0 a1 a2 ep bytes ∧ s' = sent s a0 a2 ep bytes ∧ r = some 0 := by
  cases h with
  | unchanged _ failed =>
    rcases failed with (hc | hc | hc | hc) | rfl
    · cases hc
    · cases hc
    · cases hc
    · cases hc
    · exact Or.inl ⟨rfl, rfl⟩
  | send _ ok => exact Or.inr ⟨_, _, ok, rfl, rfl⟩
  | exit hnr | yield hnr | recv hnr | block hnr | grant hnr | revoke hnr | restrict hnr
  | fsOpen hnr | fsRead hnr | fsClose hnr | mmap hnr | dma hnr | pledge hnr | unveil hnr => cases hnr

/-- A receive failed and changed nothing, has blocked, or has taken a message. -/
theorem Effect.recv_cases {s s' : Sys} {a0 a1 a2 : Nat} {r : Option Nat}
    (h : Effect s sysChannelRecv a0 a1 a2 s' r) : (s' = s ∧ r = some u64Max) ∨ r = none ∨
      ∃ ep m, RecvOk s a0 a1 a2 ep ∧ (s.channel a0).Pending ep ∧
        copyOut s.ram.mem s.cr3 a1
          ((s.channel a0).buffer.readBytes 0 (min (s.channel a0).msgLen a2)) = .ok m ∧
        s' = received s a0 m ∧ r = some (min (s.channel a0).msgLen a2) := by
  cases h with
  | unchanged _ failed =>
    rcases failed with (hc | hc | hc | hc) | rfl
    · cases hc
    · cases hc
    · cases hc
    · cases hc
    · exact Or.inl ⟨rfl, rfl⟩
  | block => exact Or.inr (Or.inl rfl)
  | recv _ ok pending copied => exact Or.inr (Or.inr ⟨_, _, ok, pending, copied, rfl, rfl⟩)
  | exit hnr | yield hnr | send hnr | grant hnr | revoke hnr | restrict hnr
  | fsOpen hnr | fsRead hnr | fsClose hnr | mmap hnr | dma hnr | pledge hnr | unveil hnr => cases hnr

/-! ## Steps -/

/-- `run_loop` has switched to shard `id`. -/
def switched (s : Sys) (id : Nat) : Sys :=
  { s.modifyShard id fun d => { d with state := .running } with
    lastScheduled := id, currentShard := id, mode := .user }

/-- The context in which shard `id` is suspended. -/
def Sys.contextOf (s : Sys) (id : Nat) : SavedContext :=
  (s.shards.getD id ShardDescriptor.initial).savedContext

/-- Shard `i` has been destroyed: its frames, page tables and capabilities are gone. -/
def destroyed (s : Sys) (i : Nat) : Sys :=
  let d := s.shards.getD i ShardDescriptor.initial
  let r := freeLowerHalfTables d.pml4Phys (freeFrames s.ram (d.allocatedFrames.drop 1))
  { s with ram := zeroAndFree r d.pml4Phys }.modifyShard i fun d => { d with
    caps := fun _ => CapEntry.empty, state := .destroyed, pml4Phys := 0, allocatedFrames := [] }

theorem destroy_of_exited {s : Sys} {i : Nat} (hi : i < maxShards)
    (h : (s.shards.getD i ShardDescriptor.initial).state = .exited) :
    destroy s i = .ok (destroyed s i) := by
  have hclear : clearShard s.shards i =
      s.shards.modify i fun d => { d with caps := fun _ => CapEntry.empty } :=
    if_neg (by omega)
  unfold destroy
  rw [Sys.shard_of_lt hi, Kernel.ok_bind, h, hclear]
  -- the two writes to the descriptor are one
  exact congrArg (fun shards => (Except.ok { s with ram := _, shards } : Kernel Sys))
    (Table.modify_modify s.shards i (fun d => { d with caps := fun _ => CapEntry.empty })
      fun d => { d with state := .destroyed, pml4Phys := 0, allocatedFrames := [] })

theorem destroy_eq_ok {s s' : Sys} {i : Nat} (h : destroy s i = .ok s') :
    i < maxShards ∧ (s.shards.getD i ShardDescriptor.initial).state = .exited ∧
      s' = destroyed s i := by
  have heq := h
  unfold destroy at h
  obtain ⟨d, hd, h⟩ := Kernel.bind_eq_ok h
  obtain ⟨hi, rfl⟩ := Sys.shard_eq_ok hd
  obtain ⟨_, hexited, -⟩ := Kernel.bind_eq_ok h
  have hexited := beq_iff_eq.mp (Kernel.assert_eq_ok hexited)
  rw [destroy_of_exited hi hexited] at heq
  exact ⟨hi, hexited, (Except.ok.inj heq).symm⟩

/-- What holds before the loop that ends `run_loop`, and is kept by each destruction of an
exited shard, holds after it. -/
theorem destroyAll_induction {P : Sys → Prop}
    (hstep : ∀ {s i}, i < maxShards → (s.shards.getD i ShardDescriptor.initial).state = .exited →
      P s → P (destroyed s i)) {n : Nat} : ∀ {i : Nat} {s s' : Sys},
    destroyAll n i s = .ok s' → P s → P s' := by
  induction n with
  | zero =>
    intro i s s' h hs
    rwa [← Except.ok.inj h]
  | succ n ih =>
    intro i s s' h hs
    obtain ⟨d, -, h⟩ := Kernel.bind_eq_ok h
    simp only at h
    split at h
    · obtain ⟨s₁, hs₁, h⟩ := Kernel.bind_eq_ok h
      obtain ⟨hi, hexited, rfl⟩ := destroy_eq_ok hs₁
      exact ih h (hstep hi hexited hs)
    · exact ih h hs

/-- What a step can do. -/
inductive StepEffect (s : Sys) : Action → Sys → Event → Prop
  | refused {nr a0 a1 a2 tsc : UInt64} (hi : s.currentShard < maxShards)
      (pledge : pledgeAllows s.current.gpuPledge nr.toNat = false) :
      StepEffect s (.syscall nr a0 a1 a2 tsc) s
        ⟨none, some ⟨s.currentShard, nr.toNat, a0.toNat, a1.toNat, a2.toNat, u64Max⟩⟩
  | syscall {nr a0 a1 a2 tsc : UInt64} {s' : Sys} {r : Option Nat} (hi : s.currentShard < maxShards)
      (pledge : pledgeAllows s.current.gpuPledge nr.toNat = true)
      (effect : Effect s nr.toNat a0.toNat a1.toNat a2.toNat s' r) :
      StepEffect s (.syscall nr a0 a1 a2 tsc) s' ⟨none, r.map fun result =>
        ⟨s.currentShard, nr.toNat, a0.toNat, a1.toNat, a2.toNat, result⟩⟩
  | timer (hi : s.currentShard < maxShards) :
      StepEffect s .timer (suspended (setReady s) .timerPreempt) Event.none
  | kill {a : Action} (hi : s.currentShard < maxShards) (user : a.mode = .user)
      (fault : ∀ nr a0 a1 a2 tsc, a ≠ .syscall nr a0 a1 a2 tsc) :
      StepEffect s a (exited s u64Max) Event.none
  | store {virt : UInt64} {b : UInt8} {leaf : Leaf}
      (mapped : walk s.ram.mem s.cr3 virt.toNat = some leaf) (user : leaf.user = true)
      (writable : leaf.writable = true) :
      StepEffect s (.store virt b) (s.setMem fun x => if x = leaf.phys then b else s.ram.mem x)
        Event.none
  | select {id : Nat} {returned : Option Returned}
      (picked : pickNextReady s.shards s.lastScheduled = some id) (hi : id < maxShards)
      (context : ∀ ch ep buf maxLen, s.contextOf id ≠ .channelRecv ch ep buf maxLen)
      (none_recv : ∀ x, returned = some x → x.nr = sysYield) :
      StepEffect s .schedule (switched s id) ⟨some id, returned⟩
  | selectRecv {id ch buf maxLen : Nat} {ep : Fin 2} {m : Memory}
      (picked : pickNextReady s.shards s.lastScheduled = some id) (hi : id < maxShards)
      (context : s.contextOf id = .channelRecv ch ep buf maxLen)
      (pending : (s.channel ch).Pending ep)
      (copied : copyOut s.ram.mem (switched s id).cr3 buf
        ((s.channel ch).buffer.readBytes 0 (min (s.channel ch).msgLen maxLen)) = .ok m) :
      StepEffect s .schedule (received (switched s id) ch m)
        ⟨some id, some ⟨id, sysChannelRecv, ch, buf, maxLen, min (s.channel ch).msgLen maxLen⟩⟩
  | selectRecvEmpty {id ch buf maxLen : Nat} {ep : Fin 2}
      (picked : pickNextReady s.shards s.lastScheduled = some id) (hi : id < maxShards)
      (context : s.contextOf id = .channelRecv ch ep buf maxLen)
      (empty : ¬ (s.channel ch).Pending ep) :
      StepEffect s .schedule (switched s id)
        ⟨some id, some ⟨id, sysChannelRecv, ch, buf, maxLen, u64Max⟩⟩
  | halt {s' : Sys} (none_ready : pickNextReady s.shards s.lastScheduled = none)
      (done : allDone s.shards = true) (destroyed : destroyAll maxShards 0 s = .ok s') :
      StepEffect s .schedule { s' with mode := .halted } Event.none

theorem schedule_effect {s s' : Sys} {ev : Event} (h : schedule s = .ok (s', ev)) :
    StepEffect s .schedule s' ev := by
  unfold schedule at h
  split at h
  · rename_i id hpick
    obtain ⟨d, hd, h⟩ := Kernel.bind_eq_ok h
    obtain ⟨hi, rfl⟩ := Sys.shard_eq_ok hd
    change resume (switched s id) id (s.contextOf id) = _ at h
    cases hctx : s.contextOf id with
    | firstEntry =>
      rw [hctx] at h
      obtain ⟨rfl, rfl⟩ := Prod.mk.inj (Except.ok.inj h)
      exact .select hpick hi (fun _ _ _ _ he => by rw [hctx] at he; cases he) (fun x hx => by cases hx)
    | timerPreempt =>
      rw [hctx] at h
      obtain ⟨rfl, rfl⟩ := Prod.mk.inj (Except.ok.inj h)
      exact .select hpick hi (fun _ _ _ _ he => by rw [hctx] at he; cases he) (fun x hx => by cases hx)
    | sysYield =>
      rw [hctx] at h
      obtain ⟨rfl, rfl⟩ := Prod.mk.inj (Except.ok.inj h)
      exact .select hpick hi (fun _ _ _ _ he => by rw [hctx] at he; cases he)
        (fun x hx => by cases hx; rfl)
    | channelRecv ch ep buf maxLen =>
      rw [hctx] at h
      obtain ⟨⟨s₁, n⟩, hres, h⟩ := Kernel.bind_eq_ok h
      obtain ⟨rfl, rfl⟩ := Prod.mk.inj (Except.ok.inj h)
      unfold resumeRecv at hres
      obtain ⟨o, ho, hres⟩ := Kernel.bind_eq_ok hres
      rcases takeMessage_effect ho with ⟨rfl, hempty⟩ | ⟨m, hp, hm, rfl⟩
      · obtain ⟨rfl, rfl⟩ := Prod.mk.inj (Except.ok.inj hres)
        exact .selectRecvEmpty hpick hi hctx hempty
      · obtain ⟨rfl, rfl⟩ := Prod.mk.inj (Except.ok.inj hres)
        exact .selectRecv hpick hi hctx hp hm
  · rename_i hpick
    split at h
    · rename_i hdone
      obtain ⟨s₁, hs₁, h⟩ := Kernel.bind_eq_ok h
      obtain ⟨rfl, rfl⟩ := Prod.mk.inj (Except.ok.inj h)
      exact .halt hpick hdone hs₁
    · cases h

theorem takeMessage_of_pending {s : Sys} {ch buf maxLen : Nat} {ep : Fin 2} {m : Memory}
    (pending : (s.channel ch).Pending ep)
    (copied : copyOut s.ram.mem s.cr3 buf
      ((s.channel ch).buffer.readBytes 0 (min (s.channel ch).msgLen maxLen)) = .ok m) :
    takeMessage s ch ep buf maxLen = .ok (some (received s ch m, min (s.channel ch).msgLen maxLen)) := by
  have hp : (decide (0 < (s.channel ch).msgLen) && (s.channel ch).msgFor == ep) = true := by
    rw [decide_eq_true pending.1, pending.2, beq_self_eq_true, Bool.and_self]
  unfold takeMessage
  simp only
  rw [if_pos hp, copied]
  rfl

/-- A suspended receive for which a message waits is resumed with it. -/
theorem schedule_of_pending {s : Sys} {id ch buf maxLen : Nat} {ep : Fin 2} {m : Memory}
    (picked : pickNextReady s.shards s.lastScheduled = some id) (hi : id < maxShards)
    (context : s.contextOf id = .channelRecv ch ep buf maxLen)
    (pending : (s.channel ch).Pending ep)
    (copied : copyOut s.ram.mem (switched s id).cr3 buf
      ((s.channel ch).buffer.readBytes 0 (min (s.channel ch).msgLen maxLen)) = .ok m) :
    schedule s = .ok (received (switched s id) ch m,
      ⟨some id, some ⟨id, sysChannelRecv, ch, buf, maxLen, min (s.channel ch).msgLen maxLen⟩⟩) := by
  have htake : takeMessage (switched s id) ch ep buf maxLen = _ :=
    takeMessage_of_pending (s := switched s id) pending copied
  unfold schedule
  rw [picked]
  simp only
  rw [Sys.shard_of_lt hi, Kernel.ok_bind]
  change resume (switched s id) id (s.contextOf id) = _
  rw [context]
  unfold resume resumeRecv
  simp only
  rw [htake]
  rfl

theorem userFault_eq_ok {s s' : Sys} {vector : Nat} (h : userFault s vector = .ok s') :
    s.currentShard < maxShards ∧ s' = exited s u64Max := by
  unfold userFault at h
  split at h
  · exact handleSysExit_eq_ok h
  · cases h

/-- **What a step can do.** -/
theorem step_effect {s s' : Sys} {a : Action} {ev : Event} (h : step s a = .ok (s', ev)) :
    StepEffect s a s' ev := by
  cases a with
  | syscall nr a0 a1 a2 tsc =>
    obtain ⟨⟨s₁, r⟩, hd, h⟩ := Kernel.map_eq_ok h
    obtain ⟨rfl, rfl⟩ := Prod.mk.inj h
    obtain ⟨hi, ⟨hp, rfl, rfl⟩ | ⟨hp, he⟩⟩ := syscallDispatch_effect a1.toNat_lt hd
    · exact .refused hi hp
    · exact .syscall hi hp he
  | timer =>
    obtain ⟨s₁, hs, h⟩ := Kernel.map_eq_ok h
    obtain ⟨rfl, rfl⟩ := Prod.mk.inj h
    obtain ⟨hi, rfl⟩ := scheduleYield_eq_ok hs
    exact .timer (by rw [setReady_currentShard] at hi; exact hi)
  | fault vector =>
    obtain ⟨s₁, hs, h⟩ := Kernel.map_eq_ok h
    obtain ⟨rfl, rfl⟩ := Prod.mk.inj h
    obtain ⟨hi, rfl⟩ := userFault_eq_ok hs
    exact .kill hi rfl (fun _ _ _ _ _ => nofun)
  | store virt b =>
    obtain ⟨s₁, hs, h⟩ := Kernel.map_eq_ok h
    obtain ⟨rfl, rfl⟩ := Prod.mk.inj h
    unfold userStore at hs
    split at hs
    · rename_i leaf hleaf
      split at hs
      · rename_i hperm
        obtain rfl := Except.ok.inj hs
        simp only [Bool.and_eq_true] at hperm
        exact .store hleaf hperm.1 hperm.2
      · obtain ⟨hi, rfl⟩ := userFault_eq_ok hs
        exact .kill hi rfl (fun _ _ _ _ _ => nofun)
    · obtain ⟨hi, rfl⟩ := userFault_eq_ok hs
      exact .kill hi rfl (fun _ _ _ _ _ => nofun)
  | schedule => exact schedule_effect h

/-- At every time of a run something happens that an action can do, or nothing. -/
theorem Run.step_cases (r : Run) (t : Nat) :
    (∃ a : Action, a.mode = (r.state t).mode ∧ StepEffect (r.state t) a (r.state (t + 1)) (r.event t)) ∨
      (r.state (t + 1) = r.state t ∧ r.event t = Event.none) := by
  have hnext := r.next t
  unfold Follows at hnext
  split at hnext
  · exact Or.inl ⟨_, hnext.1, step_effect hnext.2⟩
  · exact Or.inr hnext

/-! ## Syscalls that return -/

/-- How a syscall comes to return: it is refused, it is handled at once, or the shard had
been suspended in it. -/
inductive Answer (s s' : Sys) (x : Returned) : Prop
  | refused (result : x.result = u64Max)
  | syscall (lt : s.currentShard < maxShards) (shard : x.shard = s.currentShard)
      (effect : Effect s x.nr x.a0 x.a1 x.a2 s' (some x.result))
  | yield (nr : x.nr = sysYield)
  | recv {ep : Fin 2} {m : Memory} (nr : x.nr = sysChannelRecv) (lt : x.shard < maxShards)
      (picked : pickNextReady s.shards s.lastScheduled = some x.shard)
      (context : s.contextOf x.shard = .channelRecv x.a0 ep x.a1 x.a2)
      (pending : (s.channel x.a0).Pending ep)
      (copied : copyOut s.ram.mem (switched s x.shard).cr3 x.a1
        ((s.channel x.a0).buffer.readBytes 0 (min (s.channel x.a0).msgLen x.a2)) = .ok m)
      (after : s' = received (switched s x.shard) x.a0 m)
      (result : x.result = min (s.channel x.a0).msgLen x.a2)

theorem StepEffect.answer {s s' : Sys} {a : Action} {ev : Event} {x : Returned}
    (h : StepEffect s a s' ev) (hx : ev.returned = some x) : Answer s s' x := by
  cases h with
  | refused =>
    obtain rfl := Option.some.inj hx
    exact .refused rfl
  | syscall lt _ effect =>
    obtain ⟨res, rfl, rfl⟩ := Option.map_eq_some_iff.mp hx
    exact .syscall lt rfl effect
  | select _ _ _ none_recv => exact .yield (none_recv x hx)
  | selectRecv picked lt context pending copied =>
    obtain rfl := Option.some.inj hx
    exact .recv rfl lt picked context pending copied rfl rfl
  | selectRecvEmpty =>
    obtain rfl := Option.some.inj hx
    exact .refused rfl
  | timer => cases hx
  | kill => cases hx
  | store => cases hx
  | halt => cases hx

theorem Run.answer (r : Run) {n : Nat} {x : Returned} (hx : (r.event n).returned = some x) :
    (r.state n).mode ≠ .halted ∧ Answer (r.state n) (r.state (n + 1)) x := by
  rcases r.step_cases n with ⟨a, hmode, heffect⟩ | ⟨-, hev⟩
  · refine ⟨fun hm => ?_, heffect.answer hx⟩
    rw [hm] at hmode
    cases a <;> cases hmode
  · rw [hev] at hx
    cases hx

end Coconut
