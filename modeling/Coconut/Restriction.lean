import Coconut.Dma

/-!
# Pledge and unveil

A shard restricts itself in three fields of its descriptor: the mask of syscall categories
it has pledged, and the range of VRAM it has unveiled.  `Restricts` says what a step can do
to the three fields of one shard, and which step an observer sees doing it.

Two results follow.  Restrictions are never lifted (`restriction_monotone`).  And the mask
is the AND of all masks pledged (`gpuPledge_eq`), so that a pledge means what it says
unless that AND is all ones: this value also stands for "no pledge yet", and a shard that
has pledged all ones is not restricted at all (`pledge_exact_iff`).
-/
namespace Coconut

/-- The fields in which the restrictions of a shard are kept. -/
structure Restrictions where
  gpuPledge : Nat
  vramUnveilOffset : Nat
  vramUnveilSize : Nat

def ShardDescriptor.restrictions (d : ShardDescriptor) : Restrictions :=
  ⟨d.gpuPledge, d.vramUnveilOffset, d.vramUnveilSize⟩

/-- The mask of a successful SYS_GPU_PLEDGE of shard `i`. -/
def Event.pledged (ev : Event) (i : Nat) : Option Nat :=
  ev.returned.bind fun x =>
    if x.shard = i ∧ x.nr = sysGpuPledge ∧ x.result = 0 then some x.a0 else .none

/-! ## Steps -/

/-- What a step that shows `ev` can do to the restrictions of shard `i`. -/
inductive Restricts (ev : Event) (i : Nat) (x x' : Restrictions) : Prop
  | same (quiet : ev.pledged i = none) (after : x' = x)
  | pledge {mask : Nat} (shown : ev.pledged i = some mask)
      (after : x' = { x with gpuPledge := x.gpuPledge &&& mask })
  | unveil {offset size : Nat} (quiet : ev.pledged i = none) (once : x.vramUnveilSize = 0)
      (after : x' = { x with vramUnveilOffset := offset, vramUnveilSize := size })

section Steps
variable {s s' : Sys} {ev : Event}

/-- Restrictions that `f` leaves alone are unchanged in every descriptor. -/
theorem restrictions_modifyShard (s : Sys) (j : Nat) (f : ShardDescriptor → ShardDescriptor)
    (hf : ∀ d, (f d).restrictions = d.restrictions) (i : Nat) :
    ((s.modifyShard j f).desc i).restrictions = (s.desc i).restrictions :=
  s.modifyShard_rel (P := fun d d' => d'.restrictions = d.restrictions) j f (fun _ => rfl) hf i

theorem restrictions_setReady (s : Sys) (i : Nat) :
    ((setReady s).desc i).restrictions = (s.desc i).restrictions := by
  unfold setReady
  split
  · refine restrictions_modifyShard s _ _ (fun d => ?_) i
    split <;> rfl
  · rfl

theorem restrictions_suspended (s : Sys) (context : SavedContext) (i : Nat) :
    ((suspended s context).desc i).restrictions = (s.desc i).restrictions :=
  restrictions_modifyShard s _ (fun d => { d with savedContext := context }) (fun _ => rfl) i

theorem restrictions_exited (s : Sys) (exitCode i : Nat) :
    ((exited s exitCode).desc i).restrictions = (s.desc i).restrictions :=
  restrictions_modifyShard s _ (fun d => { d with exitCode, state := .exited }) (fun _ => rfl) i

theorem restrictions_switched (s : Sys) (id i : Nat) :
    ((switched s id).desc i).restrictions = (s.desc i).restrictions :=
  restrictions_modifyShard s _ (fun d => { d with state := .running }) (fun _ => rfl) i

theorem restrictions_destroyed (s : Sys) (k i : Nat) :
    ((destroyed s k).desc i).restrictions = (s.desc i).restrictions :=
  restrictions_modifyShard { s with ram := _ } k (fun d => { d with
    caps := fun _ => CapEntry.empty, state := .destroyed, pml4Phys := 0, allocatedFrames := [] })
    (fun _ => rfl) i

theorem restrictions_modifyCap (s : Sys) (j slot : Nat) (f : CapEntry → CapEntry) (i : Nat) :
    (Sys.desc { s with shards := s.shards.modifyCap j slot f } i).restrictions =
      (s.desc i).restrictions :=
  restrictions_modifyShard s j (fun d => { d with caps := d.caps.modify slot f }) (fun _ => rfl) i

/-- A syscall other than SYS_GPU_PLEDGE is not seen as a pledge. -/
theorem Event.pledged_of_nr {x : Returned} {k : Nat} (hnr : x.nr = k) (hk : k ≠ sysGpuPledge)
    (sel : Option Nat) (i : Nat) : (Event.mk sel (some x)).pledged i = .none :=
  if_neg fun h => hk (hnr.symm.trans h.2.1)

theorem Effect.restricts {nr a0 a1 a2 : Nat} {result : Option Nat} (hi : s.currentShard < maxShards)
    (h : Effect s nr a0 a1 a2 s' result) (i : Nat) :
    Restricts ⟨none, result.map fun r => ⟨s.currentShard, nr, a0, a1, a2, r⟩⟩ i
      (s.desc i).restrictions (s'.desc i).restrictions := by
  cases h with
  | unchanged r failed =>
    refine .same (if_neg fun h => ?_) rfl
    rcases failed with (hc | hc | hc | hc) | hc
    · cases hc.symm.trans h.2.1
    · cases hc.symm.trans h.2.1
    · cases hc.symm.trans h.2.1
    · cases hc.symm.trans h.2.1
    · cases hc.symm.trans h.2.2
  | exit => exact .same rfl (restrictions_exited s _ i)
  | yield => exact .same rfl ((restrictions_suspended _ _ i).trans (restrictions_setReady s i))
  | send hnr =>
    refine .same (Event.pledged_of_nr hnr (by decide) none i) ?_
    refine restrictions_modifyShard s _ _ (fun d => ?_) i
    split <;> rfl
  | block =>
    exact .same rfl ((restrictions_suspended _ _ i).trans
      (restrictions_modifyShard s _ (fun d => { d with state := .blocked, blockedOnChannel := a0 })
        (fun _ => rfl) i))
  | grant hnr | revoke hnr | restrict hnr =>
    exact .same (Event.pledged_of_nr hnr (by decide) none i) (restrictions_modifyCap s _ _ _ i)
  | recv hnr | fsOpen hnr | fsRead hnr | fsClose hnr | dma hnr =>
    exact .same (Event.pledged_of_nr hnr (by decide) none i) rfl
  | mmap hnr =>
    exact .same (Event.pledged_of_nr hnr (by decide) none i) (mmapped_rel
      (P := fun d d' => d'.restrictions = d.restrictions) (fun _ => rfl) (fun _ _ _ => rfl) i)
  | pledge hnr =>
    rw [Sys.desc_modifyShard s hi]
    by_cases hc : i = s.currentShard
    · rw [if_pos hc, hc]
      exact .pledge (if_pos ⟨rfl, hnr, rfl⟩) rfl
    · rw [if_neg hc]
      exact .same (if_neg fun h => hc h.1.symm) rfl
  | unveil hnr once =>
    rw [Sys.desc_modifyShard s hi]
    by_cases hc : i = s.currentShard
    · rw [if_pos hc, hc]
      exact .unveil (Event.pledged_of_nr hnr (by decide) none _) once rfl
    · rw [if_neg hc]
      exact .same (Event.pledged_of_nr hnr (by decide) none i) rfl

/-- **What a step does to restrictions.** -/
theorem StepEffect.restricts {a : Action} (h : StepEffect s a s' ev) (i : Nat) :
    Restricts ev i (s.desc i).restrictions (s'.desc i).restrictions := by
  cases h with
  | refused => exact .same (if_neg fun h => by cases h.2.2) rfl
  | syscall hi _ effect => exact effect.restricts hi i
  | timer => exact .same rfl ((restrictions_suspended _ _ i).trans (restrictions_setReady s i))
  | kill => exact .same rfl (restrictions_exited s _ i)
  | store => exact .same rfl rfl
  | @select id returned _ _ _ none_recv =>
    refine .same ?_ (restrictions_switched s _ i)
    cases returned with
    | none => rfl
    | some x => exact if_neg fun h => by cases (none_recv x rfl).symm.trans h.2.1
  | selectRecv => exact .same (if_neg fun h => by cases h.2.1) (restrictions_switched s _ i)
  | selectRecvEmpty => exact .same (if_neg fun h => by cases h.2.1) (restrictions_switched s _ i)
  | @halt s₁ _ _ done =>
    have := destroyAll_induction (P := fun s' => (s'.desc i).restrictions = (s.desc i).restrictions)
      (fun _ _ hs => (restrictions_destroyed _ _ i).trans hs) done rfl
    exact .same rfl this

/-- Boot restricts no shard. -/
theorem BootOp.run_restrictions {op : BootOp} (h : op.run s = .ok s') (i : Nat) :
    (s'.desc i).restrictions = (s.desc i).restrictions := by
  cases op with
  | create image priority =>
    obtain ⟨⟨s₁, id⟩, hc, rfl⟩ := Kernel.map_eq_ok h
    obtain ⟨ok⟩ := create_eq_ok hc
    by_cases hi : i = id
    · rw [hi, ok.desc_self]
      rfl
    · rw [ok.desc_of_ne hi]
  | gpuConfigPage | pipelineConfig =>
    obtain ⟨phys, r₀, r₁, -, -, -, -, rfl⟩ := mapConfigPage_eq_ok h
    exact restrictions_modifyShard { s with ram := r₁ } _ (fun d =>
      { d with allocatedFrames := d.allocatedFrames ++ [phys] }) (fun _ => rfl) i
  | mapBar | mapVram =>
    obtain ⟨r, -, rfl⟩ := Kernel.map_eq_ok h
    rfl
  | setOwner =>
    obtain rfl := Except.ok.inj h
    rfl
  | channelInit =>
    obtain ⟨channels, -, rfl⟩ := Kernel.map_eq_ok h
    rfl
  | grant =>
    obtain ⟨⟨shards, o⟩, hg, rfl⟩ := Kernel.map_eq_ok h
    obtain ⟨-, ⟨-, rfl⟩ | ⟨slot, -, -, -, rfl⟩⟩ := grantToShard_effect hg
    · rfl
    · exact restrictions_modifyCap s _ _ _ i

theorem Booted.restrictions {isRam : Nat → Prop} {ops : List BootOp} (h : Booted isRam ops s)
    (i : Nat) : (s.desc i).restrictions = ⟨u64Max, 0, 0⟩ := by
  induction h with
  | @initial s hs =>
    unfold Sys.desc Table.getD
    rw [hs.shards]
    split <;> rfl
  | op _ _ hrun ih => rw [BootOp.run_restrictions hrun, ih]

end Steps

/-! ## What a pledge means -/

/-- The syscalls that no pledge takes away. -/
def alwaysAllowed : List Nat := [sysExit, sysYield, sysGpuPledge, sysGpuUnveil, sysMmap]

/-- The bit of a syscall's category, if it has one. -/
def categoryBit (nr : Nat) : Option Nat :=
  if nr = sysSerialWrite then some pledgeSerial
  else if nr = sysChannelSend ∨ nr = sysChannelRecv then some pledgeChannel
  else if nr = sysGpuDma then some pledgeGpuDma
  else if nr = sysPerfCounter then some pledgePerf
  else none

/-- A shard that has pledged `mask` may call `nr`. -/
def Promised (mask nr : Nat) : Prop :=
  nr ∈ alwaysAllowed ∨ ∃ bit, categoryBit nr = some bit ∧ mask &&& bit ≠ 0

/-- A mask that is not all ones is checked as it is meant. -/
theorem pledgeAllows_iff {mask : Nat} (h : mask ≠ u64Max) (nr : Nat) :
    pledgeAllows mask nr = true ↔ Promised mask nr := by
  have halways : (nr == sysExit || nr == sysYield || nr == sysGpuPledge || nr == sysGpuUnveil ||
      nr == sysMmap) = true ↔ nr ∈ alwaysAllowed := by
    simp [alwaysAllowed, or_assoc]
  unfold pledgeAllows
  rw [if_neg (by simpa using h)]
  by_cases hmem : nr ∈ alwaysAllowed
  · rw [if_pos (halways.mpr hmem)]
    exact iff_of_true rfl (Or.inl hmem)
  · rw [if_neg (mt halways.mp hmem), Promised, or_iff_right hmem]
    unfold categoryBit
    simp only [Bool.or_eq_true, beq_iff_eq]
    split_ifs <;> simp

theorem pledgeAllows_u64Max (nr : Nat) : pledgeAllows u64Max nr = true := if_pos rfl

theorem Promised.of_and {mask mask' nr : Nat} (h : Promised (mask &&& mask') nr) : Promised mask nr := by
  rcases h with h | ⟨bit, hbit, hne⟩
  · exact Or.inl h
  · refine Or.inr ⟨bit, hbit, fun hz => hne ?_⟩
    rw [Nat.and_right_comm, hz, Nat.zero_and]

/-- Taking bits away allows nothing new. -/
theorem pledgeAllows_and {mask mask' nr : Nat} (hle : mask ≤ u64Max)
    (h : pledgeAllows mask nr = false) : pledgeAllows (mask &&& mask') nr = false := by
  have hne : mask ≠ u64Max := by
    rintro rfl
    rw [pledgeAllows_u64Max] at h
    cases h
  have hne' : mask &&& mask' ≠ u64Max := by
    have hand : mask &&& mask' ≤ mask := Nat.and_le_left
    omega
  rw [Bool.eq_false_iff, ne_eq, pledgeAllows_iff hne] at h
  rw [Bool.eq_false_iff, ne_eq, pledgeAllows_iff hne']
  exact fun hp => h hp.of_and

/-- The range `[offset, offset + len)` is unveiled, or nothing has been unveiled yet. -/
def Restrictions.covers (x : Restrictions) (offset len : Nat) : Bool :=
  x.vramUnveilSize == 0 || (checkedAdd offset len).any fun fin =>
    x.vramUnveilOffset ≤ offset && fin ≤ wrappingAdd x.vramUnveilOffset x.vramUnveilSize

theorem unveilAllows_eq {s : Sys} {i : Nat} (hi : i < maxShards) (offset len : Nat) :
    unveilAllows s i offset len = .ok ((s.desc i).restrictions.covers offset len) := by
  unfold unveilAllows Restrictions.covers
  rw [Sys.shard_of_lt hi, Kernel.ok_bind]
  change (if ((s.desc i).vramUnveilSize == 0) = true then _ else _) = _
  by_cases hz : (s.desc i).vramUnveilSize == 0
  · rw [if_pos hz, show (s.desc i).restrictions.vramUnveilSize == 0 from hz]
    rfl
  · rw [if_neg hz, show ((s.desc i).restrictions.vramUnveilSize == 0) = false from Bool.eq_false_iff.mpr hz]
    cases checkedAdd offset len <;> rfl

namespace Restricts
variable {ev : Event} {i : Nat} {x x' : Restrictions}

theorem denied (h : Restricts ev i x x') (hle : x.gpuPledge ≤ u64Max) {nr : Nat}
    (hd : pledgeAllows x.gpuPledge nr = false) : pledgeAllows x'.gpuPledge nr = false := by
  cases h with
  | same _ after =>
    rw [after]
    exact hd
  | pledge _ after =>
    rw [after]
    exact pledgeAllows_and hle hd
  | unveil _ _ after =>
    rw [after]
    exact hd

theorem refused (h : Restricts ev i x x') {offset len : Nat} (hc : x.covers offset len = false) :
    x'.covers offset len = false := by
  cases h with
  | same _ after =>
    rw [after]
    exact hc
  | pledge _ after =>
    rw [after]
    exact hc
  | unveil _ once =>
    unfold Restrictions.covers at hc
    rw [once] at hc
    cases hc

end Restricts

/-! ## Runs -/

namespace Run
variable (r : Run)

theorem restricts (t i : Nat) : Restricts (r.event t) i ((r.state t).desc i).restrictions
    ((r.state (t + 1)).desc i).restrictions := by
  rcases r.step_cases t with ⟨a, -, heffect⟩ | ⟨hsame, hev⟩
  · exact heffect.restricts i
  · rw [hsame, hev]
    exact .same rfl rfl

/-- The masks shard `i` has pledged in the first `n` steps. -/
def masks (i : Nat) : Nat → List Nat
  | 0 => []
  | n + 1 => masks i n ++ ((r.event n).pledged i).toList

/-- The AND of these masks. -/
def pledgeMask (i n : Nat) : Nat := (r.masks i n).foldl (· &&& ·) u64Max

theorem pledgeMask_succ (i n : Nat) : r.pledgeMask i (n + 1) =
    ((r.event n).pledged i).elim (r.pledgeMask i n) (r.pledgeMask i n &&& ·) := by
  have hmasks : r.masks i (n + 1) = r.masks i n ++ ((r.event n).pledged i).toList := rfl
  unfold pledgeMask
  rw [hmasks, List.foldl_append]
  cases (r.event n).pledged i <;> rfl

theorem gpuPledge_eq (i n : Nat) : ((r.state n).desc i).gpuPledge = r.pledgeMask i n := by
  induction n with
  | zero => exact congrArg Restrictions.gpuPledge (r.booted.restrictions i)
  | succ n ih =>
    rw [pledgeMask_succ, ← ih]
    cases r.restricts n i with
    | same quiet after =>
      rw [quiet]
      exact congrArg Restrictions.gpuPledge after
    | pledge shown after =>
      rw [shown]
      exact congrArg Restrictions.gpuPledge after
    | unveil quiet _ after =>
      rw [quiet]
      exact congrArg Restrictions.gpuPledge after

theorem pledgeMask_le (i n : Nat) : r.pledgeMask i n ≤ u64Max := by
  induction n with
  | zero => exact Nat.le_refl _
  | succ n ih =>
    rw [pledgeMask_succ]
    cases (r.event n).pledged i with
    | none => exact ih
    | some mask => exact Nat.and_le_left.trans ih

end Run

/-- What `s` forbids to shard `i`, `s'` forbids too. -/
structure StaysRestricted (s s' : Sys) (i : Nat) : Prop where
  pledge : ∀ nr, pledgeAllows (s.desc i).gpuPledge nr = false →
    pledgeAllows (s'.desc i).gpuPledge nr = false
  unveil : ∀ offset len, unveilAllows s i offset len = .ok false →
    unveilAllows s' i offset len = .ok false

theorem StaysRestricted.refl (s : Sys) (i : Nat) : StaysRestricted s s i :=
  ⟨fun _ h => h, fun _ _ h => h⟩

theorem StaysRestricted.trans {s s' s'' : Sys} {i : Nat} (h : StaysRestricted s s' i)
    (h' : StaysRestricted s' s'' i) : StaysRestricted s s'' i :=
  ⟨fun nr hd => h'.pledge nr (h.pledge nr hd), fun o l hr => h'.unveil o l (h.unveil o l hr)⟩

theorem unveilAllows_lt {s : Sys} {i offset len : Nat} {b : Bool}
    (h : unveilAllows s i offset len = .ok b) : i < maxShards := by
  unfold unveilAllows at h
  obtain ⟨d, hd, -⟩ := Kernel.bind_eq_ok h
  exact (Sys.shard_eq_ok hd).1

namespace Run
variable (r : Run)

theorem staysRestricted_succ (i t : Nat) : StaysRestricted (r.state t) (r.state (t + 1)) i := by
  refine ⟨fun nr hd => (r.restricts t i).denied ?_ hd, fun offset len hr => ?_⟩
  · change ((r.state t).desc i).gpuPledge ≤ u64Max
    rw [gpuPledge_eq]
    exact r.pledgeMask_le i t
  · have hi := unveilAllows_lt hr
    rw [unveilAllows_eq hi] at hr
    rw [unveilAllows_eq hi, (r.restricts t i).refused (Except.ok.inj hr)]

theorem staysRestricted (i t k : Nat) : StaysRestricted (r.state t) (r.state (t + k)) i := by
  induction k with
  | zero => exact .refl _ i
  | succ k ih => exact ih.trans (r.staysRestricted_succ i (t + k))

theorem partition_eq (t k p : Nat) : (r.state (t + k)).partition p = (r.state t).partition p :=
  congrArg (fun c : Config => c.partitions.getD p GpuPartition.initial)
    ((r.config_eq (t + k)).trans (r.config_eq t).symm)

/-- **Restrictions are never lifted.**  A syscall number once denied stays denied, a range
once refused stays refused, and no DMA succeeds any more that reads a range refused to the
caller or writes one refused to the owner of its target. -/
theorem restriction_monotone (t k : Nat) :
    (∀ i, StaysRestricted (r.state t) (r.state (t + k)) i) ∧
    ∀ x, (r.event (t + k)).returned = some x → x.nr = sysGpuDma → x.result = 0 →
      unveilAllows (r.state t) x.shard x.a1 (x.a2 % 2 ^ 32) ≠ .ok false ∧
      unveilAllows (r.state t) ((r.state t).partition x.a0).ownerShard (x.a2 / 2 ^ 32)
        (x.a2 % 2 ^ 32) ≠ .ok false := by
  refine ⟨fun i => r.staysRestricted i t k, fun x hx hnr hres => ?_⟩
  obtain ⟨-, hanswer⟩ := r.answer hx
  obtain ⟨hshard, src, m, ok, -, -⟩ := hanswer.dma_ok hnr hres
  constructor
  · intro hr
    have hlater := (r.staysRestricted x.shard t k).unveil _ _ hr
    rw [hshard, ok.unveilSrc] at hlater
    cases hlater
  · intro hr
    have howner := unveilAllows_lt hr
    have hlater := (r.staysRestricted _ t k).unveil _ _ hr
    rw [← r.partition_eq t k] at hlater howner
    rw [ok.unveilDst fun hc => by rw [hc] at howner; exact absurd howner (by decide)] at hlater
    cases hlater

end Run
end Coconut
