import Coconut.Delivery

/-!
# Open files

The table of open files that all shards share.  `FilesStep` says what a step can do to it:
open an unused descriptor, read from or close a descriptor of the acting shard, or release
the descriptors of a shard that exits.

Over a run, `readLog` collects what the reads on a descriptor have put into the buffers of
its owner since it was opened.  It is always the beginning of the file, as far as the
offset of the descriptor.
-/
namespace Coconut
open Paging

/-- `OPEN_FILES[fd]`. -/
def Sys.file (s : Sys) (fd : Nat) : OpenFile := s.openFiles.getD fd OpenFile.closed

/-- Descriptor `fd` is open and belongs to shard `i`. -/
def Sys.Owns (s : Sys) (i fd : Nat) : Prop := (s.file fd).active = true ∧ (s.file fd).shardId = i

instance (s : Sys) (i fd : Nat) : Decidable (s.Owns i fd) := inferInstanceAs (Decidable (_ ∧ _))

section Table
variable {s : Sys} {fd : Nat}

theorem Sys.file_modify (hfd : fd < maxOpenFiles) (f : OpenFile → OpenFile) (k : Nat) :
    (s.openFiles.modify fd f).getD k OpenFile.closed = if k = fd then f (s.file fd) else s.file k := by
  rw [Table.getD_modify]
  simp only [hfd, and_true]
  rfl

theorem callerFile_eq_some {file : OpenFile} (h : callerFile s fd = some file) :
    fd < maxOpenFiles ∧ s.Owns s.currentShard fd ∧ file = s.file fd := by
  unfold callerFile at h
  split at h
  · rename_i hfd
    simp only at h
    split at h
    · rename_i howns
      rw [Bool.and_eq_true, beq_iff_eq] at howns
      exact ⟨hfd, howns, (Option.some.inj h).symm⟩
    · cases h
  · cases h

theorem callerFile_eq_none (h : ¬ s.Owns s.currentShard fd) : callerFile s fd = none := by
  cases hc : callerFile s fd with
  | none => rfl
  | some file => exact absurd (callerFile_eq_some hc).2.1 h

/-- What an exit leaves of the table. -/
theorem file_exited (exitCode : Nat) : (exited s exitCode).file fd =
    if s.Owns s.currentShard fd then OpenFile.closed else s.file fd := by
  change Table.getD (releaseShard s.openFiles s.currentShard) fd OpenFile.closed = _
  unfold Sys.Owns Sys.file Table.getD
  by_cases hfd : fd < maxOpenFiles
  · simp only [dif_pos hfd, releaseShard, Bool.and_eq_true, beq_iff_eq]
  · simp only [dif_neg hfd, ite_self]

end Table

/-! ## Steps -/

/-- The syscall has opened descriptor `fd`. -/
def Returned.opens (x : Returned) (fd : Nat) : Bool :=
  x.nr == sysFsOpen && x.result == fd && x.result != u64Max

/-- The syscall has read from descriptor `fd`. -/
def Returned.reads (x : Returned) (fd : Nat) : Bool :=
  x.nr == sysFsRead && x.a0 == fd && x.result != u64Max

theorem Returned.opens_iff {x : Returned} {fd : Nat} :
    x.opens fd = true ↔ x.nr = sysFsOpen ∧ x.result = fd ∧ x.result ≠ u64Max := by
  simp [Returned.opens, and_assoc]

theorem Returned.reads_iff {x : Returned} {fd : Nat} :
    x.reads fd = true ↔ x.nr = sysFsRead ∧ x.a0 = fd ∧ x.result ≠ u64Max := by
  simp [Returned.reads, and_assoc]

/-- No descriptor has been opened or read. -/
def Event.NoFile (ev : Event) : Prop :=
  ∀ x, ev.returned = some x → ∀ fd, x.opens fd = false ∧ x.reads fd = false

/-- What a step can do to the table of open files. -/
inductive FilesStep (s : Sys) (ev : Event) (s' : Sys) : Prop
  | same (files : s'.openFiles = s.openFiles) (quiet : ev.NoFile)
      (live : ∀ i, (s.desc i).state.isLive = true → (s'.desc i).state.isLive = true)
  | opened {fd inodeNr a0 a1 a2 : Nat} {inode : Inode} {path : List UInt8} (fd_lt : fd < maxOpenFiles)
      (lt : s.currentShard < maxShards) (unused : (s.file fd).active = false)
      (found : s.fs.lookup path = .ok (some inodeNr)) (inodeRead : s.fs.readInode inodeNr = .ok (some inode))
      (shown : ev.returned = some ⟨s.currentShard, sysFsOpen, a0, a1, a2, fd⟩)
      (after : s' = { s with openFiles := s.openFiles.modify fd fun _ =>
        ⟨true, s.currentShard, inodeNr, inode.size, 0⟩ })
  | read {fd buf len : Nat} {inode : Inode} {bytes : List UInt8} {m : Memory}
      (fd_lt : fd < maxOpenFiles) (lt : s.currentShard < maxShards) (owned : s.Owns s.currentShard fd)
      (valid : InRegion (writeRegions s.current) buf len)
      (inodeRead : s.fs.readInode (s.file fd).inodeNr = .ok (some inode))
      (data : s.fs.readData inode (s.file fd).offset len = .ok bytes)
      (copied : copyOut s.ram.mem s.cr3 buf bytes = .ok m)
      (shown : ev.returned = some ⟨s.currentShard, sysFsRead, fd, buf, len, bytes.length⟩)
      (after : s' = { s.setMem m with openFiles := s.openFiles.modify fd fun file =>
        { file with offset := (file.offset + bytes.length) % 0x100000000 } })
  | closed {fd a1 a2 : Nat} (fd_lt : fd < maxOpenFiles) (owned : s.Owns s.currentShard fd)
      (shown : ev.returned = some ⟨s.currentShard, sysFsClose, fd, a1, a2, 0⟩)
      (after : s' = { s with openFiles := s.openFiles.modify fd fun _ => OpenFile.closed })
  | exit {exitCode : Nat} (lt : s.currentShard < maxShards) (shown : ev.returned = none)
      (after : s' = exited s exitCode)

section Steps
variable {s s' : Sys} {ev : Event}

theorem Event.noFile_none (sel : Option Nat) : Event.NoFile ⟨sel, .none⟩ := fun _ hx => by cases hx

theorem Event.noFile_of_nr {x : Returned} {k : Nat} (hnr : x.nr = k) (hopen : k ≠ sysFsOpen)
    (hread : k ≠ sysFsRead) (sel : Option Nat) : Event.NoFile ⟨sel, some x⟩ := by
  intro y hy fd
  obtain rfl := Option.some.inj hy
  unfold Returned.opens Returned.reads
  rw [hnr, beq_false_of_ne hopen, beq_false_of_ne hread]
  exact ⟨rfl, rfl⟩

theorem Event.noFile_of_max {x : Returned} (hres : x.result = u64Max) (sel : Option Nat) :
    Event.NoFile ⟨sel, some x⟩ := by
  intro y hy fd
  obtain rfl := Option.some.inj hy
  unfold Returned.opens Returned.reads
  rw [hres, bne_self_eq_false, Bool.and_false, Bool.and_false]
  exact ⟨rfl, rfl⟩

theorem live_modifyShard (s : Sys) (j : Nat) (f : ShardDescriptor → ShardDescriptor)
    (hf : ∀ d, d.state.isLive = true → (f d).state.isLive = true) (i : Nat) :
    (s.desc i).state.isLive = true → ((s.modifyShard j f).desc i).state.isLive = true :=
  s.modifyShard_rel (P := fun d d' => d.state.isLive = true → d'.state.isLive = true) j f
    (fun _ h => h) hf i

theorem live_setReady (s : Sys) (i : Nat) (h : (s.desc i).state.isLive = true) :
    ((setReady s).desc i).state.isLive = true := by
  unfold setReady
  split
  · refine live_modifyShard s _ _ (fun d hd => ?_) i h
    split
    · rfl
    · exact hd
  · exact h

theorem live_suspended (s : Sys) (context : SavedContext) (i : Nat)
    (h : (s.desc i).state.isLive = true) : ((suspended s context).desc i).state.isLive = true :=
  live_modifyShard s _ (fun d => { d with savedContext := context }) (fun _ hd => hd) i h

/-- The current shard gives up the processor and stays live. -/
theorem filesStep_suspended {context : SavedContext} (quiet : ev.NoFile) :
    FilesStep s ev (suspended (setReady s) context) := by
  refine .same ?_ quiet fun i hi => ?_
  · change (setReady s).openFiles = s.openFiles
    unfold setReady
    split <;> rfl
  · exact live_suspended _ context i (live_setReady s i hi)

theorem Effect.filesStep {nr a0 a1 a2 : Nat} {result : Option Nat} (hi : s.currentShard < maxShards)
    (h : Effect s nr a0 a1 a2 s' result) :
    FilesStep s ⟨none, result.map fun r => ⟨s.currentShard, nr, a0, a1, a2, r⟩⟩ s' := by
  cases h with
  | unchanged r failed =>
    refine .same rfl ?_ fun _ h => h
    rcases failed with (hc | hc | hc | hc) | hc
    · exact Event.noFile_of_nr hc (by decide) (by decide) none
    · exact Event.noFile_of_nr hc (by decide) (by decide) none
    · exact Event.noFile_of_nr hc (by decide) (by decide) none
    · exact Event.noFile_of_nr hc (by decide) (by decide) none
    · exact Event.noFile_of_max hc none
  | exit => exact .exit hi rfl rfl
  | yield => exact filesStep_suspended (Event.noFile_none none)
  | send hnr =>
    refine .same rfl (Event.noFile_of_nr hnr (by decide) (by decide) none) fun i h => ?_
    refine live_modifyShard s _ _ (fun d hd => ?_) i h
    split
    · rfl
    · exact hd
  | block =>
    refine .same rfl (Event.noFile_none none) fun i h => live_suspended _ _ i ?_
    exact live_modifyShard s _ (fun d => { d with state := .blocked, blockedOnChannel := a0 })
      (fun _ _ => rfl) i h
  | grant hnr | revoke hnr | restrict hnr =>
    exact .same rfl (Event.noFile_of_nr hnr (by decide) (by decide) none)
      (live_modifyShard s _ _ fun _ hd => hd)
  | recv hnr | dma hnr =>
    exact .same rfl (Event.noFile_of_nr hnr (by decide) (by decide) none) fun _ h => h
  | pledge hnr | unveil hnr =>
    exact .same rfl (Event.noFile_of_nr hnr (by decide) (by decide) none)
      (live_modifyShard s _ _ fun _ hd => hd)
  | mmap hnr =>
    refine .same ?_ (Event.noFile_of_nr hnr (by decide) (by decide) none)
      (mmapped_rel (P := fun d d' => d.state.isLive = true → d'.state.isLive = true)
        (fun _ h => h) fun _ _ _ h => h)
    rw [mmapped_eq]
    rfl
  | fsOpen hnr hfd unused found read =>
    subst hnr
    exact .opened hfd hi unused found read rfl rfl
  | fsRead hnr opened valid read data copied =>
    subst hnr
    obtain ⟨hfd, howned, rfl⟩ := callerFile_eq_some opened
    exact .read hfd hi howned valid read data copied rfl rfl
  | fsClose hnr opened =>
    subst hnr
    obtain ⟨hfd, howned, -⟩ := callerFile_eq_some opened
    exact .closed hfd howned rfl rfl

/-- **What a step does to open files.** -/
theorem StepEffect.filesStep {a : Action} (h : StepEffect s a s' ev) : FilesStep s ev s' := by
  have hswitch : ∀ id i, (s.desc i).state.isLive = true →
      ((switched s id).desc i).state.isLive = true := fun id =>
    live_modifyShard s id (fun d => { d with state := .running }) fun _ _ => rfl
  cases h with
  | refused => exact .same rfl (Event.noFile_of_max rfl none) fun _ h => h
  | syscall hi _ effect => exact effect.filesStep hi
  | timer => exact filesStep_suspended (Event.noFile_none none)
  | kill hi => exact .exit hi rfl rfl
  | store => exact .same rfl (Event.noFile_none none) fun _ h => h
  | @select id returned _ _ _ none_recv =>
    refine .same rfl ?_ (hswitch id)
    cases returned with
    | none => exact Event.noFile_none _
    | some x => exact Event.noFile_of_nr (none_recv x rfl) (by decide) (by decide) _
  | selectRecv =>
    exact .same rfl (Event.noFile_of_nr (k := sysChannelRecv) rfl (by decide) (by decide) _) (hswitch _)
  | selectRecvEmpty => exact .same rfl (Event.noFile_of_max rfl _) (hswitch _)
  | halt _ done destroyed =>
    refine .same ?_ (Event.noFile_none none) fun i hi => ?_
    · have := destroyAll_induction (P := fun s' => s'.openFiles = s.openFiles)
        (fun _ _ h => h) destroyed rfl
      exact this
    · rw [show (s.desc i).state.isLive = false from allDone_eq_true done i] at hi
      cases hi

/-- A call on a descriptor that is not the caller's fails and changes nothing. -/
theorem step_foreign {nr fd a1 a2 tsc : UInt64} (hi : s.currentShard < maxShards)
    (hnr : nr.toNat = sysFsRead ∨ nr.toNat = sysFsStat ∨ nr.toNat = sysFsClose)
    (hforeign : ¬ s.Owns s.currentShard fd.toNat) : step s (.syscall nr fd a1 a2 tsc) =
      .ok (s, ⟨none, some ⟨s.currentShard, nr.toNat, fd.toNat, a1.toNat, a2.toNat, u64Max⟩⟩) := by
  have hcaller := callerFile_eq_none hforeign
  have hdispatch : dispatch s nr.toNat fd.toNat a1.toNat a2.toNat tsc.toNat = .ok (s, some u64Max) := by
    rcases hnr with hnr | hnr | hnr
    · rw [hnr]
      change returns (handleFsRead s fd.toNat a1.toNat a2.toNat) = _
      unfold handleFsRead
      rw [hcaller]
      rfl
    · rw [hnr]
      change Except.ok (s, some (handleFsStat s fd.toNat)) = _
      unfold handleFsStat
      rw [hcaller]
    · rw [hnr]
      change returns (.ok (handleFsClose s fd.toNat)) = _
      unfold handleFsClose
      rw [hcaller]
      rfl
  have hsyscall : syscallDispatch s nr.toNat fd.toNat a1.toNat a2.toNat tsc.toNat =
      .ok (s, some u64Max) := by
    unfold syscallDispatch
    rw [Sys.shard_of_lt hi, Kernel.ok_bind, hdispatch]
    split <;> rfl
  change (syscallDispatch s _ _ _ _ _).map _ = _
  rw [hsyscall]
  rfl

theorem BootOp.run_openFiles {op : BootOp} (h : op.run s = .ok s') : s'.openFiles = s.openFiles := by
  cases op with
  | create image priority =>
    obtain ⟨⟨s₁, id⟩, hc, rfl⟩ := Kernel.map_eq_ok h
    obtain ⟨ok⟩ := create_eq_ok hc
    rw [ok.result]
    rfl
  | gpuConfigPage | pipelineConfig =>
    obtain ⟨phys, r₀, r₁, -, -, -, -, rfl⟩ := mapConfigPage_eq_ok h
    rfl
  | mapBar | mapVram | channelInit | grant =>
    obtain ⟨_, -, rfl⟩ := Kernel.map_eq_ok h
    rfl
  | setOwner =>
    obtain rfl := Except.ok.inj h
    rfl

theorem Booted.openFiles {isRam : Nat → Prop} {ops : List BootOp} (h : Booted isRam ops s) (fd : Nat) :
    s.file fd = OpenFile.closed := by
  have hall : s.openFiles = fun _ => OpenFile.closed := by
    induction h with
    | initial hs => exact hs.openFiles
    | op _ _ hrun ih => rw [BootOp.run_openFiles hrun, ih]
  unfold Sys.file Table.getD
  rw [hall]
  split <;> rfl

end Steps

/-! ## What has been read -/

/-- What user code of shard `i` finds in a buffer. -/
def Sys.userBytes (s : Sys) (i buf n : Nat) : List (Option UInt8) :=
  (List.range' buf n).map (s.userByte i)

/-- The log of descriptor `fd` after a step that leads to `s` and shows a syscall. -/
def extendLog (s : Sys) (fd : Nat) (log : List (Option UInt8)) :
    Option Returned → List (Option UInt8)
  | none => log
  | some x =>
    if x.opens fd then []
    else if x.reads fd then log ++ s.userBytes x.shard x.a1 x.result
    else log

/-- The file behind a descriptor has been read up to its offset, and `log` is what has
been read. -/
def ReadUpTo (fs : Ext2Fs) (file : OpenFile) (log : List (Option UInt8)) : Prop :=
  ∃ inode, fs.readInode file.inodeNr = .ok (some inode) ∧ file.size = inode.size ∧
    file.offset ≤ inode.size ∧ log = (fs.fileBytes inode 0 file.offset).map some

theorem extendLog_of_noFile {ev : Event} (h : ev.NoFile) (s : Sys) (fd : Nat)
    (log : List (Option UInt8)) : extendLog s fd log ev.returned = log := by
  cases hx : ev.returned with
  | none => rfl
  | some x =>
    obtain ⟨hopen, hread⟩ := h x hx fd
    unfold extendLog
    simp only [hopen, hread, Bool.false_eq_true, if_false]

theorem extendLog_read {x : Returned} {fd : Nat} (h : x.reads fd = true) (s : Sys)
    (log : List (Option UInt8)) :
    extendLog s fd log (some x) = log ++ s.userBytes x.shard x.a1 x.result := by
  have hopen : ¬ x.opens fd = true := fun ho => by
    cases (Returned.opens_iff.mp ho).1.symm.trans (Returned.reads_iff.mp h).1
  exact (if_neg hopen).trans (if_pos h)

/-- What a step can do to descriptor `fd`. -/
inductive FileStep (s : Sys) (ev : Event) (s' : Sys) (fd : Nat) : Prop
  | same (after : s'.file fd = s.file fd) (log : ∀ l, extendLog s' fd l ev.returned = l)
      (live : (s.file fd).active = true → (s.desc (s.file fd).shardId).state.isLive = true →
        (s'.desc (s.file fd).shardId).state.isLive = true)
  | opened {inodeNr : Nat} {inode : Inode} (lt : s.currentShard < maxShards) (unused : (s.file fd).active = false)
      (inodeRead : s.fs.readInode inodeNr = .ok (some inode))
      (log : ∀ l, extendLog s' fd l ev.returned = []) (shards : s'.shards = s.shards)
      (after : s'.file fd = ⟨true, s.currentShard, inodeNr, inode.size, 0⟩)
  | read {buf len : Nat} {inode : Inode} {bytes : List UInt8} (lt : s.currentShard < maxShards)
      (owned : s.Owns s.currentShard fd) (valid : InRegion (writeRegions s.current) buf len)
      (inodeRead : s.fs.readInode (s.file fd).inodeNr = .ok (some inode))
      (data : s.fs.readData inode (s.file fd).offset len = .ok bytes)
      (copied : copyOut s.ram.mem s.current.pml4Phys buf bytes = .ok s'.ram.mem)
      (shown : ev.returned = some ⟨s.currentShard, sysFsRead, fd, buf, len, bytes.length⟩)
      (shards : s'.shards = s.shards)
      (after : s'.file fd =
        { s.file fd with offset := ((s.file fd).offset + bytes.length) % 0x100000000 })
  | closed {a1 a2 : Nat} (owned : s.Owns s.currentShard fd)
      (shown : ev.returned = some ⟨s.currentShard, sysFsClose, fd, a1, a2, 0⟩)
      (after : s'.file fd = OpenFile.closed)
  | released (owned : s.Owns s.currentShard fd) (after : s'.file fd = OpenFile.closed)
      (exited : (s'.desc s.currentShard).state = .exited)

/-- A step on another descriptor. -/
theorem FileStep.other {s s' : Sys} {ev : Event} {x : Returned} {fd : Nat}
    (after : s'.file fd = s.file fd) (shards : s'.shards = s.shards) (shown : ev.returned = some x)
    (hopen : x.opens fd = false) (hread : x.reads fd = false) : FileStep s ev s' fd := by
  have hdesc : ∀ i, s'.desc i = s.desc i := fun i =>
    congrArg (fun t => Table.getD t i ShardDescriptor.initial) shards
  refine .same after (fun l => ?_) fun _ h => ?_
  · rw [shown]
    unfold extendLog
    simp only [hopen, hread, Bool.false_eq_true, if_false]
  · rw [hdesc]
    exact h

theorem FilesStep.file {s s' : Sys} {ev : Event} (h : FilesStep s ev s') (fd : Nat) :
    FileStep s ev s' fd := by
  cases h with
  | same files quiet live =>
    refine .same ?_ (extendLog_of_noFile quiet s' fd) fun _ => live _
    exact congrArg (fun t => Table.getD t fd OpenFile.closed) files
  | @opened fd₀ inodeNr a0 a1 a2 inode _ fd_lt lt unused _ inodeRead shown after =>
    have hfile := Sys.file_modify (s := s) fd_lt (fun _ => ⟨true, s.currentShard, inodeNr, inode.size, 0⟩) fd
    have hshards : s'.shards = s.shards := by rw [after]
    have hafter := (congrArg (Sys.file · fd) after).trans hfile
    by_cases hfd : fd = fd₀
    · subst hfd
      rw [if_pos rfl] at hafter
      refine .opened lt unused inodeRead (fun l => ?_) hshards hafter
      have hne : fd ≠ u64Max := by
        rintro rfl
        exact absurd fd_lt (by decide)
      rw [shown]
      exact if_pos (Returned.opens_iff.mpr ⟨rfl, rfl, hne⟩)
    · rw [if_neg hfd] at hafter
      refine .other hafter hshards shown ?_ ?_
      · unfold Returned.opens
        rw [beq_false_of_ne (Ne.symm hfd), Bool.and_false, Bool.false_and]
      · rfl
  | @read fd₀ buf len inode bytes m fd_lt lt owned valid inodeRead data copied shown after =>
    have hfile := Sys.file_modify (s := s) fd_lt (fun file =>
      { file with offset := (file.offset + bytes.length) % 0x100000000 }) fd
    have hshards : s'.shards = s.shards := by rw [after]; rfl
    have hafter := (congrArg (Sys.file · fd) after).trans hfile
    by_cases hfd : fd = fd₀
    · subst hfd
      rw [if_pos rfl] at hafter
      have hmem : s'.ram.mem = m := by rw [after]; rfl
      exact .read lt owned valid inodeRead data (hmem ▸ copied) shown hshards hafter
    · rw [if_neg hfd] at hafter
      refine .other hafter hshards shown rfl ?_
      unfold Returned.reads
      rw [beq_false_of_ne (Ne.symm hfd), Bool.and_false, Bool.false_and]
  | @closed fd₀ a1 a2 fd_lt owned shown after =>
    have hfile := Sys.file_modify (s := s) fd_lt (fun _ => OpenFile.closed) fd
    have hshards : s'.shards = s.shards := by rw [after]
    have hafter := (congrArg (Sys.file · fd) after).trans hfile
    by_cases hfd : fd = fd₀
    · subst hfd
      rw [if_pos rfl] at hafter
      exact .closed owned shown hafter
    · rw [if_neg hfd] at hafter
      exact .other hafter hshards shown rfl rfl
  | @exit exitCode lt shown after =>
    have hdesc := fun i => (congrArg (Sys.desc · i) after).trans
      (Sys.desc_modifyShard s lt (fun d => { d with exitCode, state := .exited }) i)
    have hafter := (congrArg (Sys.file · fd) after).trans (file_exited exitCode)
    by_cases howned : s.Owns s.currentShard fd
    · rw [if_pos howned] at hafter
      refine .released howned hafter ?_
      rw [hdesc, if_pos rfl]
    · rw [if_neg howned] at hafter
      refine .same hafter (fun l => by rw [shown]; rfl) fun hactive hlive => ?_
      rw [hdesc, if_neg fun he => howned ⟨hactive, he⟩]
      exact hlive

namespace Run
variable (r : Run)

theorem filesStep (t : Nat) : FilesStep (r.state t) (r.event t) (r.state (t + 1)) := by
  rcases r.step_cases t with ⟨a, -, heffect⟩ | ⟨hsame, hev⟩
  · exact heffect.filesStep
  · rw [hsame, hev]
    exact .same rfl (Event.noFile_none none) fun _ h => h

theorem fileStep (t fd : Nat) : FileStep (r.state t) (r.event t) (r.state (t + 1)) fd :=
  (r.filesStep t).file fd

/-- What the reads on descriptor `fd` have returned since it was opened last. -/
def readLog (fd : Nat) : Nat → List (Option UInt8)
  | 0 => []
  | n + 1 => extendLog (r.state (n + 1)) fd (readLog fd n) (r.event n).returned

/-- An open file belongs to a shard that has not ended. -/
theorem owner_live (n fd : Nat) (h : ((r.state n).file fd).active = true) :
    ((r.state n).desc ((r.state n).file fd).shardId).state.isLive = true := by
  induction n with
  | zero =>
    rw [r.booted.openFiles] at h
    cases h
  | succ n ih =>
    cases r.fileStep n fd with
    | same after _ live =>
      rw [after] at h ⊢
      exact live h (ih h)
    | opened lt _ _ _ shards after =>
      rw [after]
      unfold Sys.desc
      rw [shards]
      exact r.currentLive n lt
    | read _ owned _ _ _ _ _ shards after =>
      rw [after]
      unfold Sys.desc
      rw [shards]
      exact ih owned.1
    | closed _ _ after =>
      rw [after] at h
      cases h
    | released _ after =>
      rw [after] at h
      cases h

theorem fs_eq (n : Nat) : (r.state (n + 1)).fs = (r.state n).fs :=
  congrArg Config.fs ((r.config_eq (n + 1)).trans (r.config_eq n).symm)

/-- The bytes of a read are in the buffer of its caller. -/
theorem userBytes_of_read {n buf len : Nat} {bytes : List UInt8} {x : Returned}
    (hx : (r.event n).returned = some x) (lt : (r.state n).currentShard < maxShards)
    (valid : InRegion (writeRegions (r.state n).current) buf len) (hle : bytes.length ≤ len)
    (copied : copyOut (r.state n).ram.mem (r.state n).current.pml4Phys buf bytes =
      .ok (r.state (n + 1)).ram.mem) (shards : (r.state (n + 1)).shards = (r.state n).shards) :
    (r.state (n + 1)).userBytes (r.state n).currentShard buf bytes.length = bytes.map some := by
  obtain ⟨own, hok⟩ := r.spaces n (r.answer hx).1
  have hcreated := (Sys.hasSpace_of_isLive (r.currentLive n lt)).1
  refine List.ext_getElem? fun k => ?_
  unfold Sys.userBytes
  by_cases hk : k < bytes.length
  · have hbyte := hok.byteAt_copyOut hcreated valid hle copied hk
    rw [List.getElem?_map, List.getElem?_range' hk, List.getElem?_map, Nat.one_mul, Option.map_some,
      List.getElem?_eq_getElem hk, Option.map_some]
    rw [List.getElem?_eq_getElem hk] at hbyte
    unfold Sys.userByte Sys.desc
    rw [shards]
    exact congrArg some hbyte
  · rw [List.getElem?_eq_none (by rw [List.length_map, List.length_range']; omega),
      List.getElem?_eq_none (by rw [List.length_map]; omega)]

/-- What has been read from an open file is its beginning, up to the offset. -/
theorem readUpTo (n fd : Nat) (h : ((r.state n).file fd).active = true) :
    ReadUpTo (r.state n).fs ((r.state n).file fd) (r.readLog fd n) := by
  induction n with
  | zero =>
    rw [r.booted.openFiles] at h
    cases h
  | succ n ih =>
    have hlog : r.readLog fd (n + 1) =
      extendLog (r.state (n + 1)) fd (r.readLog fd n) (r.event n).returned := rfl
    rw [hlog, fs_eq]
    cases r.fileStep n fd with
    | same after log =>
      rw [after] at h ⊢
      rw [log]
      exact ih h
    | @opened inodeNr inode _ _ inodeRead log _ after =>
      rw [after, log]
      exact ⟨inode, inodeRead, rfl, Nat.zero_le _, rfl⟩
    | @read buf len inode bytes lt owned valid inodeRead data copied shown shards after =>
      obtain ⟨inode', hinode, hsize, hoff, hread⟩ := ih owned.1
      obtain rfl := Option.some.inj (Except.ok.inj (hinode.symm.trans inodeRead))
      obtain ⟨hbytes, hfits⟩ := Ext2Fs.readData_eq_ok data hoff
      have hlt := Ext2Fs.readInode_size_lt inodeRead
      have hle := Ext2Fs.readData_length data
      have hne : bytes.length ≠ u64Max := by
        simp only [u64Max]
        omega
      have hoffset : (((r.state n).file fd).offset + bytes.length) % 0x100000000 =
          ((r.state n).file fd).offset + bytes.length := Nat.mod_eq_of_lt (by omega)
      rw [after, hoffset, shown]
      refine ⟨inode', inodeRead, hsize, hfits, ?_⟩
      refine (extendLog_read (Returned.reads_iff.mpr ⟨rfl, rfl, hne⟩) _ _).trans ?_
      rw [r.userBytes_of_read shown lt valid hle copied shards, hread, ← List.map_append]
      simp only
      rw [Ext2Fs.fileBytes_add, Nat.zero_add, ← hbytes]
    | closed _ _ after =>
      rw [after] at h
      cases h
    | released _ after =>
      rw [after] at h
      cases h

end Run

/-! ## Isolation -/

/-- What a run guarantees of open files. -/
structure FilesIsolated (r : Run) : Prop where
  /-- An open file is changed by its owner only, which reads, closes or exits. -/
  changes : ∀ n fd, ((r.state n).file fd).active = true →
    (r.state (n + 1)).file fd ≠ (r.state n).file fd →
    ((r.state n).file fd).shardId = (r.state n).currentShard ∧
      ((∃ x, (r.event n).returned = some x ∧ x.shard = (r.state n).currentShard ∧ x.a0 = fd ∧
        (x.nr = sysFsRead ∨ x.nr = sysFsClose)) ∨
      ((r.state (n + 1)).desc (r.state n).currentShard).state = .exited)
  /-- Its owner is ready, running or blocked. -/
  live : ∀ n fd, ((r.state n).file fd).active = true →
    ((r.state n).desc ((r.state n).file fd).shardId).state.isLive = true
  /-- Calls on a descriptor that is not the caller's fail without effect. -/
  foreign : ∀ n (nr fd a1 a2 tsc : UInt64), (r.state n).mode = .user →
    nr.toNat = sysFsRead ∨ nr.toNat = sysFsStat ∨ nr.toNat = sysFsClose →
    ¬ (r.state n).Owns (r.state n).currentShard fd.toNat →
    step (r.state n) (.syscall nr fd a1 a2 tsc) = .ok (r.state n, ⟨none, some
      ⟨(r.state n).currentShard, nr.toNat, fd.toNat, a1.toNat, a2.toNat, u64Max⟩⟩)
  /-- The reads since the open have returned the file up to the offset. -/
  sequential : ∀ n fd, ((r.state n).file fd).active = true →
    ReadUpTo (r.state n).fs ((r.state n).file fd) (r.readLog fd n)

/-- **Open files are isolated and read sequentially.** -/
theorem Run.files_isolated (r : Run) : FilesIsolated r where
  changes n fd hactive hne := by
    cases r.fileStep n fd with
    | same after => exact absurd after hne
    | opened _ unused =>
      rw [hactive] at unused
      cases unused
    | read _ owned _ _ _ _ shown =>
      exact ⟨owned.2, Or.inl ⟨_, shown, rfl, rfl, Or.inl rfl⟩⟩
    | closed owned shown => exact ⟨owned.2, Or.inl ⟨_, shown, rfl, rfl, Or.inr rfl⟩⟩
    | released owned _ exited => exact ⟨owned.2, Or.inr exited⟩
  live := r.owner_live
  foreign n nr fd a1 a2 tsc hm hnr hforeign :=
    step_foreign ((r.control_inv n).user hm).1 hnr hforeign
  sequential := r.readUpTo

end Coconut
