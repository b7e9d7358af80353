import Coconut.Messages

/-!
# Complete mediation

No step changes a channel, and no DMA changes memory, without the checks: the acting
shard is an endpoint, its pledge allows the syscall, and it holds a capability for this
very channel with the right the operation needs; for DMA it owns a partition other than
the target and holds a capability for the target.

Syscalls truncate ids to 32 bits before they look for a capability and use all 64 bits
afterwards.  The range checks in between make the two agree.
-/
namespace Coconut

/-- Shard `i` holds a valid capability for the resource, with the rights. -/
def HoldsCap (s : Sys) (i capType resource : Nat) (right : BitVec 16) : Prop :=
  ∃ handle, handle < maxCapsPerShard ∧ (s.shards.cap i handle).valid = true ∧
    (s.shards.cap i handle).capType = capType ∧ (s.shards.cap i handle).resourceId = resource ∧
    (s.shards.cap i handle).rights &&& right = right

theorem holdsCap_of_capsGive {s : Sys} {i capType resource : Nat} {right : BitVec 16}
    (h : capsGive (s.desc i).caps capType resource right = true) :
    HoldsCap s i capType resource right := by
  obtain ⟨handle, hlt, hg⟩ := capsGive_eq_true.mp h
  unfold CapEntry.gives at hg
  simp only [Bool.and_eq_true, beq_iff_eq, and_assoc] at hg
  exact ⟨handle, hlt, hg⟩

/-- Shard `i` may do syscall `nr` on channel `ch`. -/
structure MayUse (s : Sys) (i nr ch : Nat) (right : BitVec 16) : Prop where
  channel_lt : ch < maxChannels
  active : (s.channel ch).active = true
  endpoint : ∃ ep, endpointOf (s.channel ch) i = some ep
  pledge : pledgeAllows (s.desc i).gpuPledge nr = true
  cap : HoldsCap s i capChannel ch right

/-- The current shard may transfer from its own partition to partition `target`. -/
structure MayDma (s : Sys) (target : Nat) : Prop where
  target_lt : target < s.partitionCount
  source : ∃ src, src < s.partitionCount ∧ (s.partition src).ownerShard = s.currentShard ∧
    src ≠ target
  cap : HoldsCap s s.currentShard capGpuDma target rightGpuDmaWrite

theorem DmaOk.mayDma {s : Sys} {target srcOffset dstOffset len src : Nat}
    (h : DmaOk s target srcOffset dstOffset len src) : MayDma s target where
  target_lt := h.target_lt
  source := by
    obtain ⟨-, hlt, howner⟩ := firstFrom_some h.owned
    exact ⟨src, by omega, beq_iff_eq.mp howner, h.ne⟩
  cap := by
    have hcap := check_eq_true h.cap
    rw [Nat.mod_eq_of_lt (show target < 2 ^ 32 by
      have := h.dst_lt
      simp only [maxGpuPartitions] at this
      omega)] at hcap
    exact holdsCap_of_capsGive hcap

/-- A DMA syscall that changes memory has passed the checks. -/
theorem Effect.mayDma {s s' : Sys} {nr a0 a1 a2 : Nat} {res : Option Nat}
    (h : Effect s nr a0 a1 a2 s' res) (hnr : nr = sysGpuDma) (hmem : s'.ram.mem ≠ s.ram.mem) :
    MayDma s a0 := by
  subst hnr
  rcases h.dma_cases with ⟨rfl, -⟩ | ⟨src, m, ok, -⟩
  · exact absurd rfl hmem
  · exact ok.mayDma

theorem StepEffect.mayDma {s s' : Sys} {nr target a1 a2 tsc : UInt64} {ev : Event}
    (h : StepEffect s (.syscall nr target a1 a2 tsc) s' ev) (hnr : nr.toNat = sysGpuDma)
    (hmem : s'.ram.mem ≠ s.ram.mem) : MayDma s target.toNat := by
  cases h with
  | refused => exact absurd rfl hmem
  | syscall _ _ effect => exact effect.mayDma hnr hmem
  | kill _ _ fault => exact absurd rfl (fault _ _ _ _ _)

/-- **Complete mediation.**  A channel changes only when a send or a receive returns to a
shard that may use the channel at that moment, the receive perhaps after having been
blocked; and SYS_GPU_DMA changes memory only for a caller that may transfer to the
target. -/
theorem Run.complete_mediation (r : Run) :
    (∀ t ch, (r.state (t + 1)).channel ch ≠ (r.state t).channel ch →
      ∃ x, (r.event t).returned = some x ∧ x.a0 = ch ∧
        ((x.nr = sysChannelSend ∧ x.result = 0 ∧
            MayUse (r.state t) x.shard sysChannelSend ch rightChannelSend) ∨
          (x.nr = sysChannelRecv ∧ x.result ≠ u64Max ∧
            MayUse (r.state t) x.shard sysChannelRecv ch rightChannelRecv))) ∧
    (∀ t nr target a1 a2 tsc, r.action t = some (.syscall nr target a1 a2 tsc) →
      nr.toNat = sysGpuDma → (r.state (t + 1)).ram.mem ≠ (r.state t).ram.mem →
      MayDma (r.state t) target.toNat) := by
  refine ⟨fun t ch hne => ?_, fun t nr target a1 a2 tsc ha hnr hmem => ?_⟩
  · cases r.traffic t ch with
    | quiet after => exact absurd after hne
    | send sends uses =>
      obtain ⟨buf, len, hx, -⟩ := sends
      exact ⟨_, hx, rfl, Or.inl ⟨rfl, rfl, uses.channel_lt, uses.active, ⟨_, uses.endpoint⟩,
        uses.pledge, holdsCap_of_capsGive uses.cap⟩⟩
    | recv receives checks =>
      obtain ⟨buf, maxLen, n, hx, hn, -⟩ := receives
      exact ⟨_, hx, rfl, Or.inr ⟨rfl, hn, checks.channel_lt, checks.active, ⟨_, checks.endpoint⟩,
        checks.pledge, holdsCap_of_capsGive checks.cap⟩⟩
  · have hnext := r.next t
    rw [ha] at hnext
    exact (step_effect hnext.2).mayDma hnr hmem

end Coconut
