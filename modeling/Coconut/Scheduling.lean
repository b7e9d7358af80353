import Coconut.Blocking

/-!
# What the scheduler guarantees

The blocking invariant read back at the supervisor's own tables, and what follows for
whole runs: who is switched to, what ends a block, and that a shard that has ended
stays ended.
-/
namespace Coconut

/-- The scheduler's tables agree with each other. -/
structure SchedulingOk (s : Sys) : Prop where
  /-- A running shard is the current one, and there is none while the supervisor chooses. -/
  running : ∀ i, (s.desc i).state = .running → s.mode = .user ∧ i = s.currentShard
  /-- Blocked means: marked with an active channel of which the shard is an endpoint. -/
  blocked : ∀ i, (s.desc i).state = .blocked ↔ ∃ ep, (s.desc i).blockedOnChannel < maxChannels ∧
    (s.channel (s.desc i).blockedOnChannel).active = true ∧
    endpointOf (s.channel (s.desc i).blockedOnChannel) i = some ep
  /-- No wake-up is lost. -/
  awake : ∀ i ep, (s.desc i).state = .blocked →
    endpointOf (s.channel (s.desc i).blockedOnChannel) i = some ep →
    ¬ (s.channel (s.desc i).blockedOnChannel).Pending ep
  /-- The scan misses no ready shard. -/
  complete : pickNextReady s.shards s.lastScheduled = none → ∀ i, (s.desc i).state ≠ .ready

/-- The shard has exited, and may have been destroyed since. -/
def ShardState.Ended (st : ShardState) : Prop := st = .exited ∨ st = .destroyed

/-- A successful send on channel `ch` whose receiver is shard `i`. -/
def SendsTo (s : Sys) (ev : Event) (ch i : Nat) : Prop :=
  ∃ x ep, ev.returned = some x ∧ x.nr = sysChannelSend ∧ x.a0 = ch ∧ x.result = 0 ∧
    endpointOf (s.channel ch) x.shard = some ep ∧ (s.channel ch).shard (peerEp ep) = i

namespace Control
variable {c c' : Control} {l : Label} {i : Nat}

/-! ## Transitions of one shard -/

/-- How a step can change the state of shard `i`. -/
inductive Transition (c : Control) (l : Label) (c' : Control) (i : Nat) : Prop
  | same (state : (c'.shard i).state = (c.shard i).state)
      (mark : (c'.shard i).blockedOnChannel = (c.shard i).blockedOnChannel)
  | leaves (running : (c.shard i).state = .running)
  | woken {j : Nat} {ep : Fin 2} {bytes : List UInt8} (blocked : (c.shard i).state = .blocked)
      (sent : l = .send j (c.shard i).blockedOnChannel ep bytes)
      (endpoint : endpointOf (c.channel (c.shard i).blockedOnChannel) j = some ep)
      (receiver : (c.channel (c.shard i).blockedOnChannel).shard (peerEp ep) = i)
  | selected (ready : (c.shard i).state = .ready)
  | destroyed (exited : (c.shard i).state = .exited) (after : (c'.shard i).state = .destroyed)

theorem Transition.setShard {j : Nat} {x : ShardControl} (hstate : x.state = (c.shard j).state)
    (hmark : x.blockedOnChannel = (c.shard j).blockedOnChannel) :
    Transition c l (c.setShard j x) i := by
  by_cases hij : i = j
  · subst hij
    exact .same (by rw [setShard_self, hstate]) (by rw [setShard_self, hmark])
  · exact .same (by rw [setShard_of_ne c x hij]) (by rw [setShard_of_ne c x hij])

/-- Only shard `j` changes, which is running or selected. -/
theorem Transition.other {j : Nat} (hother : i ≠ j → c'.shard i = c.shard i)
    (hself : i = j → Transition c l c' i) : Transition c l c' i := by
  by_cases hij : i = j
  · exact hself hij
  · exact .same (by rw [hother hij]) (by rw [hother hij])

theorem Step.transition (h : Inv c) (hs : Step c l c') (i : Nat) : Transition c l c' i := by
  cases hs with
  | silent => exact .same rfl rfl
  | pledge => exact .setShard rfl rfl
  | grant => exact .setShard rfl rfl
  | revoke => exact .setShard rfl rfl
  | restrict => exact .setShard rfl rfl
  | @send j ch ep bytes uses =>
    rcases wake_shard (c.setChannel ch ((c.channel ch).put bytes bytes.length (peerEp ep)))
      ((c.channel ch).shard (peerEp ep)) ch i with hw | ⟨hi, hb, hm, hw⟩
    · exact .same (by rw [hw]; rfl) (by rw [hw]; rfl)
    · change (c.shard i).blockedOnChannel = ch at hm
      subst hm
      exact .woken hb rfl uses.endpoint hi.symm
  | take => exact .same rfl rfl
  | block uses =>
    exact .other (fun hij => setShard_of_ne c _ hij) fun hij =>
      .leaves (hij ▸ (h.current uses.mode uses.current).1)
  | yield mode current =>
    exact .other (fun hij => setShard_of_ne c _ hij) fun hij =>
      .leaves (hij ▸ (h.current mode current).1)
  | exit mode current =>
    exact .other (fun hij => setShard_of_ne c _ hij) fun hij =>
      .leaves (hij ▸ (h.current mode current).1)
  | select mode picked =>
    exact .other (fun hij => setShard_of_ne c _ hij) fun hij =>
      .selected (hij ▸ pick_ready h.last_lt picked)
  | selectTake mode picked =>
    exact .other (fun hij => setShard_of_ne c _ hij) fun hij =>
      .selected (hij ▸ pick_ready h.last_lt picked)
  | selectEmpty mode picked =>
    exact .other (fun hij => setShard_of_ne c _ hij) fun hij =>
      .selected (hij ▸ pick_ready h.last_lt picked)
  | halt =>
    by_cases hex : (c.shard i).state = .exited
    · exact .destroyed hex (by rw [finish_of_exited hex]; rfl)
    · exact .same (by rw [finish_of_ne hex]) (by rw [finish_of_ne hex])

/-- A shard that has ended stays ended. -/
theorem Step.ended (h : Inv c) (hs : Step c l c') (he : (c.shard i).state.Ended) :
    (c'.shard i).state.Ended := by
  cases hs.transition h i with
  | same state => rw [state]; exact he
  | leaves hr => rw [hr] at he; rcases he with he | he <;> cases he
  | woken hb => rw [hb] at he; rcases he with he | he <;> cases he
  | selected hr => rw [hr] at he; rcases he with he | he <;> cases he
  | destroyed _ after => exact Or.inr after

/-- A slot without a shard stays so. -/
theorem Step.free (h : Inv c) (hs : Step c l c')
    (hf : (c.shard i).state = .free) : (c'.shard i).state = .free := by
  cases hs.transition h i with
  | same state => rw [state]; exact hf
  | leaves hr => rw [hr] at hf; cases hf
  | woken hb => rw [hb] at hf; cases hf
  | selected hr => rw [hr] at hf; cases hf
  | destroyed he => rw [he] at hf; cases hf

/-- The step that ends the run leaves no shard that has not been destroyed. -/
theorem Step.halted (hs : Step c l c') (hm : c.mode ≠ .halted) (hm' : c'.mode = .halted) :
    (c'.shard i).state = .free ∨ (c'.shard i).state = .destroyed := by
  cases hs with
  | halt _ _ done =>
    have hdone := done i
    cases hst : (c.shard i).state with
    | exited =>
      rw [finish_of_exited hst]
      exact Or.inr rfl
    | free =>
      rw [finish_of_ne (by rw [hst]; decide)]
      exact Or.inl hst
    | destroyed =>
      rw [finish_of_ne (by rw [hst]; decide)]
      exact Or.inr hst
    | _ => rw [hst] at hdone; cases hdone
  | send =>
    rw [wake_mode] at hm'
    exact absurd hm' hm
  | silent => exact absurd hm' hm
  | pledge => exact absurd hm' hm
  | grant => exact absurd hm' hm
  | revoke => exact absurd hm' hm
  | restrict => exact absurd hm' hm
  | take => exact absurd hm' hm
  | _ => cases hm'

/-- `CURRENT_SHARD` names a shard that has not ended, or none. -/
def CurrentLive (c : Control) : Prop :=
  c.currentShard < maxShards → (c.shard c.currentShard).state.isLive = true

theorem CurrentLive.setShard (h : CurrentLive c) {x : ShardControl}
    (hx : x.state = (c.shard i).state ∨ x.state.isLive = true) : CurrentLive (c.setShard i x) := by
  intro hlt
  change ((c.setShard i x).shard c.currentShard).state.isLive = true
  by_cases hi : c.currentShard = i
  · rw [hi, setShard_self]
    rcases hx with hx | hx
    · rw [hx, ← hi]
      exact h hlt
    · exact hx
  · rw [setShard_of_ne c x hi]
    exact h hlt

theorem CurrentLive.suspend (h : CurrentLive c) {x : ShardControl} {context : SavedContext}
    (hx : x.state = (c.shard i).state ∨ x.state.isLive = true) : CurrentLive (c.suspend i x context) :=
  h.setShard (x := { x with savedContext := context }) hx

theorem CurrentLive.step (h : CurrentLive c) (hs : Step c l c') : CurrentLive c' := by
  cases hs with
  | silent => exact h
  | pledge => exact h.setShard (Or.inl rfl)
  | grant => exact h.setShard (Or.inl rfl)
  | revoke => exact h.setShard (Or.inl rfl)
  | restrict => exact h.setShard (Or.inl rfl)
  | @send _ ch ep bytes =>
    have hput : CurrentLive (c.setChannel ch ((c.channel ch).put bytes bytes.length (peerEp ep))) := h
    unfold wake
    split
    · exact hput.setShard (Or.inr rfl)
    · exact hput
  | take => exact h
  | block => exact h.suspend (Or.inr rfl)
  | yield =>
    apply h.suspend
    simp only
    split
    · exact Or.inr rfl
    · exact Or.inl rfl
  | exit =>
    intro hlt
    exact absurd (show u64Max < maxShards from hlt) (by decide)
  | select =>
    intro _
    exact congrArg (fun x => x.state.isLive) (setShard_self ..)
  | selectTake =>
    intro _
    exact congrArg (fun x => x.state.isLive) (setShard_self ..)
  | selectEmpty =>
    intro _
    exact congrArg (fun x => x.state.isLive) (setShard_self ..)
  | halt _ _ done =>
    intro hlt
    have hlive := h hlt
    rw [done] at hlive
    cases hlive

/-- A step that selects takes the shard picked. -/
theorem Step.selected {ev : Event} (hs : Step c l c') (hev : l.Shows c ev)
    (hsel : ev.selected = some i) : c.mode = .choosing ∧ c.pick = some i := by
  have no : ∀ {P : Prop}, ev.selected = none ∧ ev.Quiet → P := fun hn => by
    rw [hn.1] at hsel
    cases hsel
  cases hs with
  | send => obtain ⟨buf, rfl⟩ := hev; cases hsel
  | take => obtain ⟨buf, rfl⟩ := hev; cases hsel
  | select mode picked =>
    obtain rfl := Option.some.inj (hev.1.symm.trans hsel)
    exact ⟨mode, picked⟩
  | selectTake mode picked =>
    cases hev
    obtain rfl := Option.some.inj hsel
    exact ⟨mode, picked⟩
  | selectEmpty mode picked =>
    obtain rfl := Option.some.inj (hev.1.symm.trans hsel)
    exact ⟨mode, picked⟩
  | silent => exact no hev
  | pledge => exact no hev
  | grant => obtain ⟨a2, -, rfl⟩ := hev; cases hsel
  | revoke => exact no hev
  | restrict => exact no hev
  | block => exact no hev
  | yield => exact no hev
  | exit => exact no hev
  | halt => exact no hev

/-- The scan misses no ready shard. -/
theorem pick_eq_none (hlast : c.lastScheduled < maxShards) (h : c.pick = none) (hi : i < maxShards) :
    (c.shard i).state ≠ .ready := by
  intro hready
  have hnone := List.findSome?_eq_none_iff.mp h (c.shard i).priority
    (by cases (c.shard i).priority <;> decide)
  have := (nextCyclic_eq_none hlast).mp hnone i hi
  rw [readyAt_eq_true.mpr ⟨hready, rfl⟩] at this
  cases this

end Control

theorem Sys.desc_of_ge {s : Sys} {i : Nat} (h : maxShards ≤ i) : s.desc i = ShardDescriptor.initial := by
  unfold Sys.desc Table.getD
  rw [dif_neg (by omega)]

theorem Control.Inv.schedulingOk {s : Sys} (h : s.control.Inv) : SchedulingOk s where
  running := h.running
  blocked i := by
    constructor
    · intro hb
      obtain ⟨ep, buf, maxLen, -, hrecv, -⟩ := (h.shards i).blocked hb
      exact ⟨ep, hrecv.channel_lt, hrecv.active, hrecv.endpoint⟩
    · rintro ⟨ep, hlt, -⟩
      by_contra hb
      have hmax : (s.desc i).blockedOnChannel = u64Max := (h.shards i).unblocked hb
      rw [hmax] at hlt
      exact absurd hlt (by decide)
  awake i ep hb hep := by
    obtain ⟨ep', buf, maxLen, -, hrecv, hempty⟩ := (h.shards i).blocked hb
    obtain rfl := Option.some.inj (hep.symm.trans hrecv.endpoint)
    exact hempty
  complete hnone i hready := by
    by_cases hi : i < maxShards
    · exact Control.pick_eq_none h.last_lt hnone hi hready
    · rw [Sys.desc_of_ge (Nat.le_of_not_lt hi)] at hready
      cases hready

namespace Run
variable (r : Run)

theorem selected_pick {t i : Nat} (h : (r.event t).selected = some i) :
    (r.state t).control.pick = some i := by
  obtain ⟨l, hl, hev⟩ := r.control_step t
  exact (hl.selected hev h).2

theorem selected_ready {t i : Nat} (h : (r.event t).selected = some i) :
    ((r.state t).desc i).state = .ready :=
  Control.pick_ready (r.control_inv t).last_lt (r.selected_pick h)

/-- Nothing happens after the halt. -/
theorem halted_final {t : Nat} (hm : (r.state t).mode = .halted) : r.state (t + 1) = r.state t := by
  rcases r.step_cases t with ⟨a, hmode, -⟩ | ⟨hsame, -⟩
  · rw [hm] at hmode
    cases a <;> cases hmode
  · exact hsame

theorem unhalted {t : Nat} (h : (r.state (t + 1)).mode ≠ .halted) : (r.state t).mode ≠ .halted := by
  intro hm
  rw [r.halted_final hm] at h
  exact h hm

/-- The run ends when every shard has been destroyed. -/
theorem destroyed_of_halted (t i : Nat) : (r.state t).mode = .halted →
    ((r.state t).desc i).state = .free ∨ ((r.state t).desc i).state = .destroyed := by
  induction t with
  | zero =>
    intro hm
    rw [show (r.state 0).mode = .choosing from r.booted.fresh.mode] at hm
    cases hm
  | succ t ih =>
    intro hm
    by_cases hm' : (r.state t).mode = .halted
    · rw [r.halted_final hm']
      exact ih hm'
    · obtain ⟨l, hl, -⟩ := r.control_step t
      exact hl.halted (i := i) hm' hm

theorem currentLive (t : Nat) : (r.state t).control.CurrentLive := by
  induction t with
  | zero =>
    intro hlt
    rw [r.booted.fresh.current] at hlt
    exact absurd hlt (by decide)
  | succ t ih =>
    obtain ⟨l, hl, -⟩ := r.control_step t
    exact ih.step hl

/-- A blocked shard stays blocked on its channel until a send to it. -/
theorem blocked_until_send {t i : Nat} (hb : ((r.state t).desc i).state = .blocked) (k : Nat) :
    (∃ u, t ≤ u ∧ u < t + k ∧
      SendsTo (r.state u) (r.event u) ((r.state t).desc i).blockedOnChannel i) ∨
    (((r.state (t + k)).desc i).state = .blocked ∧
      ((r.state (t + k)).desc i).blockedOnChannel = ((r.state t).desc i).blockedOnChannel) := by
  induction k with
  | zero => exact Or.inr ⟨hb, rfl⟩
  | succ k ih =>
    rcases ih with ⟨u, h1, h2, hu⟩ | ⟨hstate, hmark⟩
    · exact Or.inl ⟨u, h1, by omega, hu⟩
    · obtain ⟨l, hl, hev⟩ := r.control_step (t + k)
      have impossible : ∀ {st : ShardState} {P : Prop},
          ((r.state (t + k)).desc i).state = st → st ≠ .blocked → P :=
        fun h1 h2 => absurd (h1.symm.trans hstate) h2
      cases hl.transition (r.control_inv (t + k)) i with
      | same state mark => exact Or.inr ⟨state.trans hstate, mark.trans hmark⟩
      | leaves hr => exact impossible hr (by decide)
      | @woken j ep bytes _ sent endpoint receiver =>
        subst sent
        obtain ⟨buf, hev⟩ := hev
        refine Or.inl ⟨t + k, by omega, by omega, _, ep, congrArg Event.returned hev, rfl, hmark, rfl, ?_⟩
        rw [← hmark]
        exact ⟨endpoint, receiver⟩
      | selected hr => exact impossible hr (by decide)
      | destroyed hex => exact impossible hex (by decide)

/-- A shard that has ended stays ended. -/
theorem ended_forever {t i : Nat} (he : ((r.state t).desc i).state.Ended) (k : Nat) :
    ((r.state (t + k)).desc i).state.Ended := by
  induction k with
  | zero => exact he
  | succ k ih =>
    obtain ⟨l, hl, -⟩ := r.control_step (t + k)
    exact hl.ended (r.control_inv (t + k)) ih

/-- **The scheduler and blocking invariant.**  In every state of every run the
scheduler's tables agree; only ready shards are switched to, a blocked shard resumes
only after a send to it on the channel it is blocked on, and a shard that has exited or
been destroyed stays so and is never selected again. -/
theorem scheduling_ok :
    (∀ t, SchedulingOk (r.state t)) ∧
    (∀ t i, (r.event t).selected = some i → ((r.state t).desc i).state = .ready) ∧
    (∀ t t' i, t ≤ t' → ((r.state t).desc i).state = .blocked → (r.event t').selected = some i →
      ∃ u, t ≤ u ∧ u < t' ∧
        SendsTo (r.state u) (r.event u) ((r.state t).desc i).blockedOnChannel i) ∧
    (∀ t t' i, t ≤ t' → ((r.state t).desc i).state.Ended →
      ((r.state t').desc i).state.Ended ∧ (r.event t').selected ≠ some i) := by
  refine ⟨fun t => (r.control_inv t).schedulingOk, fun t i => r.selected_ready, ?_, ?_⟩
  · intro t t' i hle hb hsel
    obtain ⟨k, rfl⟩ := Nat.exists_eq_add_of_le hle
    rcases r.blocked_until_send hb k with hu | ⟨hstate, -⟩
    · exact hu
    · rw [r.selected_ready hsel] at hstate
      cases hstate
  · intro t t' i hle he
    obtain ⟨k, rfl⟩ := Nat.exists_eq_add_of_le hle
    have hended := r.ended_forever he k
    refine ⟨hended, fun hsel => ?_⟩
    rw [r.selected_ready hsel] at hended
    rcases hended with h | h <;> cases h

end Run
end Coconut
