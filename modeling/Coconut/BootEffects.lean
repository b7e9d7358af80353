import Coconut.Refinement

/-!
# What boot can do

Inversion of the calls that set up shards, and their projection to the control machine:
a boot fills free slots, initializes channels and inserts capabilities, and nothing
else of it decides.
-/
namespace Coconut
open Paging

/-! ## Inversion -/

/-- The stages of a creation that did not panic. -/
structure CreateOk (s : Sys) (image : Slice) (priority : Priority) (s' : Sys) (id : Nat) where
  pml4Phys : Nat
  ram₀ : Ram
  elf : Image
  loaded : Loading
  stackPhys : Nat
  ram₁ : Ram
  frames₁ : List Nat
  ram₂ : Ram
  kstackPhys : Nat
  ram₃ : Ram
  frames₂ : List Nat
  id_lt : id < maxShards
  first : firstFrom (fun i => (s.desc i).state == .free) maxShards 0 = some id
  free : (s.desc id).state = .free
  pml4 : s.ram.allocFrameZeroed = some (pml4Phys, ram₀)
  parsed : parse image = .ok elf
  segments : loadSegments image pml4Phys elf.segments
    ⟨{ ram₀ with mem := copyUpperHalf ram₀.mem s.supervisorPml4 pml4Phys }, [pml4Phys],
      shardCodeVaddr, (s.desc id).imageDataStart, (s.desc id).imageDataEnd⟩ = .ok loaded
  stack : loaded.ram.allocFrameZeroed = some (stackPhys, ram₁)
  pushStack : pushFrame loaded.frames stackPhys = .ok frames₁
  mapStack : map4k ram₁ pml4Phys shardStackVaddr stackPhys
    (pteUser ||| pteWritable ||| pteNoExecute) = .ok ram₂
  kstack : ram₂.allocFrameZeroed = some (kstackPhys, ram₃)
  pushKstack : pushFrame frames₁ kstackPhys = .ok frames₂
  result : s' = Sys.modifyShard
    { s with ram := { ram₃ with mem := setupInitialKernelStack ram₃.mem kstackPhys shardFirstEntry } }
    id fun d => { d with
      state := .ready
      priority
      pml4Phys
      allocatedFrames := frames₂
      kernelStackPhys := kstackPhys
      savedContext := .firstEntry
      blockedOnChannel := u64Max
      imageEnd := loaded.imageEnd
      imageDataStart := loaded.imageDataStart
      imageDataEnd := loaded.imageDataEnd }

theorem create_eq_ok {s s' : Sys} {image : Slice} {priority : Priority} {id : Nat}
    (h : create s image priority = .ok (s', id)) : Nonempty (CreateOk s image priority s' id) := by
  unfold create at h
  obtain ⟨i, hid, h⟩ := Kernel.bind_eq_ok h
  obtain ⟨d, hd, h⟩ := Kernel.bind_eq_ok h
  obtain ⟨hi, rfl⟩ := Sys.shard_eq_ok hd
  obtain ⟨⟨pml4Phys, r₀⟩, hpml4, h⟩ := Kernel.bind_eq_ok h
  obtain ⟨elf, helf, h⟩ := Kernel.bind_eq_ok h
  obtain ⟨_, -, h⟩ := Kernel.bind_eq_ok h
  obtain ⟨l, hl, h⟩ := Kernel.bind_eq_ok h
  obtain ⟨⟨stackPhys, r₁⟩, hstack, h⟩ := Kernel.bind_eq_ok h
  obtain ⟨frames₁, hf₁, h⟩ := Kernel.bind_eq_ok h
  obtain ⟨r₂, hr₂, h⟩ := Kernel.bind_eq_ok h
  obtain ⟨⟨kstackPhys, r₃⟩, hkstack, h⟩ := Kernel.bind_eq_ok h
  obtain ⟨frames₂, hf₂, h⟩ := Kernel.bind_eq_ok h
  obtain ⟨hs, rfl⟩ := Prod.mk.inj (Except.ok.inj h)
  obtain ⟨-, -, hfree⟩ := firstFrom_some (Kernel.expect_eq_ok hid)
  exact ⟨⟨pml4Phys, r₀, elf, l, stackPhys, r₁, frames₁, r₂, kstackPhys, r₃, frames₂, hi,
    Kernel.expect_eq_ok hid, beq_iff_eq.mp hfree, Kernel.expect_eq_ok hpml4, helf, hl, Kernel.expect_eq_ok hstack, hf₁, hr₂,
    Kernel.expect_eq_ok hkstack, hf₂, hs.symm⟩⟩

theorem CreateOk.desc_of_ne {s s' : Sys} {image : Slice} {priority : Priority} {id i : Nat}
    (ok : CreateOk s image priority s' id) (hi : i ≠ id) : s'.desc i = s.desc i := by
  refine (congrArg (Sys.desc · i) ok.result).trans ?_
  rw [Sys.desc_modifyShard _ ok.id_lt, if_neg hi]
  rfl

theorem CreateOk.desc_self {s s' : Sys} {image : Slice} {priority : Priority} {id : Nat}
    (ok : CreateOk s image priority s' id) : s'.desc id = { s.desc id with
      state := .ready
      priority
      pml4Phys := ok.pml4Phys
      allocatedFrames := ok.frames₂
      kernelStackPhys := ok.kstackPhys
      savedContext := .firstEntry
      blockedOnChannel := u64Max
      imageEnd := ok.loaded.imageEnd
      imageDataStart := ok.loaded.imageDataStart
      imageDataEnd := ok.loaded.imageDataEnd } := by
  refine (congrArg (Sys.desc · id) ok.result).trans ?_
  rw [Sys.desc_modifyShard _ ok.id_lt, if_pos rfl]
  rfl

/-- A config page is found mapped by `map_4k`. -/
theorem mapConfigPage_taken {s : Sys} {shardId pml4Phys vaddr : Nat} {p : Panic}
    {fields : List (Nat × Nat × Nat)}
    (h : mapConfigPage s shardId pml4Phys vaddr p fields = .error .alreadyMapped)
    (hp : p ≠ .alreadyMapped) :
    ∃ phys r₀, s.ram.allocFrameZeroed = some (phys, r₀) ∧
      map4k { r₀ with mem := writeFields r₀.mem phys fields } pml4Phys vaddr phys
        (pteUser ||| pteNoExecute) = .error .alreadyMapped := by
  unfold mapConfigPage at h
  rcases Kernel.bind_eq_error h with h | ⟨⟨phys, r₀⟩, hphys, h⟩
  · exact absurd (Kernel.expect_eq_error h).2.symm hp
  · refine ⟨phys, r₀, Kernel.expect_eq_ok hphys, ?_⟩
    rcases Kernel.bind_eq_error h with h | ⟨r₁, -, h⟩
    · exact h
    · rcases Kernel.bind_eq_error h with h | ⟨d, -, h⟩
      · cases (Table.index_eq_error h).2
      · rcases Kernel.bind_eq_error h with h | ⟨-, -, h⟩
        · cases (Kernel.assert_eq_error h).2
        · cases h

/-- The stages of a config page. -/
theorem mapConfigPage_eq_ok {s s' : Sys} {shardId pml4Phys vaddr : Nat} {p : Panic}
    {fields : List (Nat × Nat × Nat)} (h : mapConfigPage s shardId pml4Phys vaddr p fields = .ok s') :
    ∃ phys r₀ r₁, shardId < maxShards ∧ s.ram.allocFrameZeroed = some (phys, r₀) ∧
      map4k { r₀ with mem := writeFields r₀.mem phys fields } pml4Phys vaddr phys
        (pteUser ||| pteNoExecute) = .ok r₁ ∧
      (s.desc shardId).allocatedFrames.length < maxShardFrames ∧
      s' = Sys.modifyShard { s with ram := r₁ } shardId fun d =>
        { d with allocatedFrames := d.allocatedFrames ++ [phys] } := by
  unfold mapConfigPage at h
  obtain ⟨⟨phys, r₀⟩, hphys, h⟩ := Kernel.bind_eq_ok h
  obtain ⟨r₁, hr₁, h⟩ := Kernel.bind_eq_ok h
  obtain ⟨d, hd, h⟩ := Kernel.bind_eq_ok h
  obtain ⟨hi, rfl⟩ := Sys.shard_eq_ok hd
  obtain ⟨_, hlen, h⟩ := Kernel.bind_eq_ok h
  exact ⟨phys, r₀, r₁, hi, Kernel.expect_eq_ok hphys, hr₁, of_decide_eq_true (Kernel.assert_eq_ok hlen),
    (Except.ok.inj h).symm⟩

/-! ## Projection -/

namespace Control

/-- The channel after `channelInit`. -/
def connect (ch : Channel) (shardA shardB : Nat) : Channel :=
  { ch with active := true, shard := fun ep => if ep = ep0 then shardA else shardB, msgLen := 0 }

/-- What boot does to the control state. -/
inductive BootStep (c : Control) : BootOp → Control → Prop
  | silent (op : BootOp) : BootStep c op c
  | create {image : Slice} {priority : Priority} {i : Nat} (lt : i < maxShards)
      (free : (c.shard i).state = .free) : BootStep c (.create image priority)
        (c.setShard i { c.shard i with
          state := .ready, priority, savedContext := .firstEntry, blockedOnChannel := u64Max })
  | channelInit {ch a b : Nat} (lt : ch < maxChannels) :
      BootStep c (.channelInit ch a b) (c.setChannel ch (connect (c.channel ch) a b))
  | grant {i slot : Nat} {capType : UInt8} {resource : UInt32} {rights : BitVec 16}
      (lt : i < maxShards) (slot_lt : slot < maxCapsPerShard)
      (unused : (c.cap i slot).valid = false) : BootStep c (.grant i capType resource rights)
        (c.setCap i slot fun _ => ⟨true, capType.toNat, resource.toNat, rights⟩)

end Control

theorem control_mapConfigPage {s s' : Sys} {shardId pml4Phys vaddr : Nat} {p : Panic}
    {fields : List (Nat × Nat × Nat)} (h : mapConfigPage s shardId pml4Phys vaddr p fields = .ok s') :
    s'.control = s.control := by
  obtain ⟨phys, r₀, r₁, hi, -, -, -, rfl⟩ := mapConfigPage_eq_ok h
  exact Sys.control_modifyShard_silent { s with ram := r₁ } hi fun d => rfl

theorem BootOp.run_control {s s' : Sys} {op : BootOp} (h : op.run s = .ok s') :
    Control.BootStep s.control op s'.control := by
  cases op with
  | create image priority =>
    obtain ⟨⟨s₁, id⟩, hc, rfl⟩ := Kernel.map_eq_ok h
    obtain ⟨ok⟩ := create_eq_ok hc
    rw [ok.result, Sys.control_modifyShard _ ok.id_lt]
    exact .create (c := s.control) ok.id_lt ok.free
  | gpuConfigPage shardId =>
    rw [control_mapConfigPage h]
    exact .silent _
  | pipelineConfig shardId =>
    rw [control_mapConfigPage h]
    exact .silent _
  | mapBar =>
    obtain ⟨r, -, rfl⟩ := Kernel.map_eq_ok h
    exact .silent _
  | mapVram =>
    obtain ⟨r, -, rfl⟩ := Kernel.map_eq_ok h
    exact .silent _
  | setOwner =>
    obtain rfl := Except.ok.inj h
    exact .silent _
  | channelInit channelId a b =>
    obtain ⟨channels, hc, rfl⟩ := Kernel.map_eq_ok h
    obtain ⟨_, hlt, hc⟩ := Kernel.bind_eq_ok hc
    have hlt : channelId < maxChannels := of_decide_eq_true (Kernel.assert_eq_ok hlt)
    obtain rfl := Except.ok.inj hc
    rw [Sys.control_channels _ hlt]
    exact .channelInit hlt
  | grant i capType resource rights =>
    obtain ⟨⟨shards, o⟩, hg, rfl⟩ := Kernel.map_eq_ok h
    obtain ⟨hi, ⟨-, rfl⟩ | ⟨slot, hslot, hunused, -, rfl⟩⟩ := grantToShard_effect hg
    · exact .silent _
    · rw [control_modifyCap _ hi]
      exact .grant hi hslot hunused

end Coconut
