import Coconut.Control
import Coconut.UserCopy

/-!
# The system refines the control machine

Every step of the system projects to a step of the control machine (`step_control`),
and a booted system to a control state in which no shard has run yet
(`Booted.control`).  The shape of the proof is one lemma for each kind of update: what
`control` sees of it.
-/
namespace Coconut
open Paging

/-! ## Projections of updates -/

section Projections
variable (s : Sys)

theorem Table.getD_modify {n : Nat} {α : Type} (t : Table n α) (i j : Nat) (f : α → α) (d : α) :
    (t.modify i f).getD j d = if j = i ∧ i < n then f (t.getD i d) else t.getD j d := by
  unfold Table.getD Table.modify
  by_cases hj : j < n
  · by_cases hij : j = i
    · subst hij
      simp [hj]
    · simp [hj, hij]
  · by_cases hij : j = i
    · subst hij
      simp [hj]
    · simp [hj, hij]

theorem Sys.desc_modifyShard {i : Nat} (hi : i < maxShards) (f : ShardDescriptor → ShardDescriptor)
    (j : Nat) : (s.modifyShard i f).desc j = if j = i then f (s.desc i) else s.desc j := by
  unfold Sys.desc Sys.modifyShard
  rw [Table.getD_modify]
  simp only [hi, and_true]

/-- What `f` does to every descriptor, or nothing, has been done to descriptor `i`. -/
theorem Sys.modifyShard_rel {P : ShardDescriptor → ShardDescriptor → Prop} (s : Sys) (j : Nat)
    (f : ShardDescriptor → ShardDescriptor) (hrefl : ∀ d, P d d) (hf : ∀ d, P d (f d)) (i : Nat) :
    P (s.desc i) ((s.modifyShard j f).desc i) := by
  unfold Sys.desc Sys.modifyShard
  rw [Table.getD_modify]
  split
  · rename_i h
    rw [h.1]
    exact hf _
  · exact hrefl _

theorem Sys.control_modifyShard {i : Nat} (hi : i < maxShards)
    (f : ShardDescriptor → ShardDescriptor) :
    (s.modifyShard i f).control = s.control.setShard i (f (s.desc i)).control := by
  unfold Sys.control Control.setShard
  congr 1
  funext j
  simp only [Sys.desc_modifyShard s hi f j]
  split <;> rfl

/-- An update of fields that do not decide. -/
theorem Sys.control_modifyShard_silent {i : Nat} (hi : i < maxShards)
    {f : ShardDescriptor → ShardDescriptor} (hf : ∀ d, (f d).control = d.control) :
    (s.modifyShard i f).control = s.control := by
  rw [Sys.control_modifyShard s hi, hf]
  unfold Control.setShard Sys.control
  congr 1
  funext j
  split
  · rename_i h; rw [h]
  · rfl

theorem Sys.channel_modify {i : Nat} (hi : i < maxChannels) (f : Channel → Channel) (j : Nat) :
    (s.channels.modify i f).getD j Channel.initial = if j = i then f (s.channel i) else s.channel j := by
  rw [Table.getD_modify]
  simp only [hi, and_true]
  rfl

theorem Sys.control_channels {i : Nat} (hi : i < maxChannels) (f : Channel → Channel) :
    Sys.control { s with channels := s.channels.modify i f } =
      s.control.setChannel i (f (s.channel i)) := by
  unfold Sys.control Control.setChannel
  congr 1
  funext j
  exact Sys.channel_modify s hi f j

theorem control_modifyCap {i : Nat} (hi : i < maxShards) (handle : Nat) (f : CapEntry → CapEntry) :
    Sys.control { s with shards := s.shards.modifyCap i handle f } = s.control.setCap i handle f :=
  Sys.control_modifyShard s hi _

theorem control_wake {j : Nat} (hj : j < maxShards) (ch : Nat) :
    (wake s j ch).control = s.control.wake j ch := by
  unfold wake Control.wake
  rw [Sys.control_modifyShard s hj]
  by_cases h : (s.desc j).state = .blocked ∧ (s.desc j).blockedOnChannel = ch
  · have hb : ((s.desc j).state == .blocked && (s.desc j).blockedOnChannel == ch) = true := by
      simpa using h
    rw [if_pos hb, if_pos (show (s.control.shard j).state = .blocked ∧
      (s.control.shard j).blockedOnChannel = ch from h)]
    rfl
  · have hb : ¬ ((s.desc j).state == .blocked && (s.desc j).blockedOnChannel == ch) = true := by
      simpa using h
    rw [if_neg hb, if_neg (show ¬ ((s.control.shard j).state = .blocked ∧
      (s.control.shard j).blockedOnChannel = ch) from h)]
    unfold Control.setShard Sys.control
    congr 1
    funext k
    split
    · rename_i hk; rw [hk]
    · rfl

theorem control_switched {i : Nat} (hi : i < maxShards) :
    (switched s i).control = s.control.switch i := by
  have := Sys.control_modifyShard s hi fun d => { d with state := .running }
  unfold switched Control.switch
  exact congrArg (fun c : Control => { c with lastScheduled := i, currentShard := i, mode := .user })
    this

end Projections

theorem check_eq_true {shards : Shards} {id capType resource : Nat} {rights : BitVec 16}
    (h : check shards id capType resource rights = true) :
    capsGive (shards.caps id) capType resource rights = true := by
  unfold check at h
  split at h
  · cases h
  · exact h

/-! ## Steps -/

section Steps
variable {s s' : Sys}

/-- The acting shard of a syscall that the pledge allows. -/
theorem acts {nr : Nat} (hmode : s.mode = .user) (hi : s.currentShard < maxShards)
    (hp : pledgeAllows s.current.gpuPledge nr = true) :
    Control.Acts s.control s.currentShard nr := ⟨hmode, rfl, hi, hp⟩

theorem uses_of_check {nr ch : Nat} {ep : Fin 2} {right : BitVec 16}
    (hacts : Control.Acts s.control s.currentShard nr) (hlt : ch < maxChannels)
    (hcap : check s.shards s.currentShard capChannel (ch % 2 ^ 32) right = true)
    (hactive : (s.channel ch).active = true)
    (hep : endpointOf (s.channel ch) s.currentShard = some ep) :
    Control.Uses s.control s.currentShard nr ch ep right := by
  refine ⟨hacts, hlt, ?_, hactive, hep⟩
  rw [Nat.mod_eq_of_lt (show ch < 2 ^ 32 by simp only [maxChannels] at hlt; omega)] at hcap
  exact check_eq_true hcap

/-- Two updates of one shard are one update. -/
theorem Sys.modifyShard_modifyShard (s : Sys) (i : Nat) (f g : ShardDescriptor → ShardDescriptor) :
    (s.modifyShard i f).modifyShard i g = s.modifyShard i (g ∘ f) :=
  congrArg (fun shards => { s with shards }) (s.shards.modify_modify i f g)

theorem control_suspended (hi : s.currentShard < maxShards)
    (f : ShardDescriptor → ShardDescriptor) (context : SavedContext) :
    (suspended (s.modifyShard s.currentShard f) context).control =
      s.control.suspend s.currentShard (f (s.desc s.currentShard)).control context := by
  have h := Sys.control_modifyShard s hi ((fun d => { d with savedContext := context }) ∘ f)
  rw [← Sys.modifyShard_modifyShard] at h
  exact congrArg (fun c : Control => { c with mode := .choosing }) h

theorem control_setReady (hi : s.currentShard < maxShards) (context : SavedContext) :
    (suspended (setReady s) context).control =
      s.control.suspend s.currentShard { s.control.shard s.currentShard with
        state := if (s.control.shard s.currentShard).state = .running then .ready
          else (s.control.shard s.currentShard).state } context := by
  have hr : setReady s = s.modifyShard s.currentShard fun d =>
      if d.state == .running then { d with state := .ready } else d := if_pos hi
  rw [hr, control_suspended hi]
  congr 1
  change _ = ShardControl.mk (if (s.desc s.currentShard).state = .running then _ else _) _ _ _ _ _
  by_cases hstate : (s.desc s.currentShard).state = .running
  · rw [if_pos (by simpa using hstate), if_pos hstate]
    rfl
  · rw [if_neg (by simpa using hstate), if_neg hstate]
    rfl

/-- `mmapped` is one update of the descriptor. -/
theorem mmapped_eq (s : Sys) (ram : Ram) (frames : List Nat) (mapped : Bool) (a0 a1 : Nat) :
    mmapped s ram frames mapped a0 a1 = Sys.modifyShard { s with ram } s.currentShard fun d =>
      if mapped then extendData { d with allocatedFrames := frames } a0 (a0 + a1 * 4096)
      else { d with allocatedFrames := frames } := by
  unfold mmapped
  cases mapped with
  | false => rfl
  | true => exact Sys.modifyShard_modifyShard { s with ram } s.currentShard _ _

theorem Event.quiet_none : Event.none.Quiet := fun _ h => (by cases h)

/-- A syscall that is neither a send nor a receive shows nothing of a channel. -/
theorem Event.quiet_of_ne {selected : Option Nat} {r : Option Nat} {i nr a0 a1 a2 : Nat}
    (hs : nr ≠ sysChannelSend) (hr : nr ≠ sysChannelRecv) :
    Event.Quiet ⟨selected, r.map fun result => ⟨i, nr, a0, a1, a2, result⟩⟩ := by
  intro x hx hnr
  obtain ⟨n, -, rfl⟩ := Option.map_eq_some_iff.mp hx
  exact absurd hnr (by simp only [not_or]; exact ⟨hs, hr⟩)

theorem exited_control (hmode : s.mode = .user) (hi : s.currentShard < maxShards) (exitCode : Nat) :
    Control.Step s.control (.exit s.currentShard) (exited s exitCode).control := by
  have h := Sys.control_modifyShard { s with openFiles := releaseShard s.openFiles s.currentShard }
    hi fun d => { d with exitCode, state := .exited }
  have h' := congrArg (fun c : Control => { c with currentShard := u64Max, mode := .choosing }) h
  change (exited s exitCode).control = _ at h'
  rw [h']
  exact .exit hmode rfl hi

theorem Action.IsCall.mode {a : Action} (h : a.IsCall) : a.mode = .user := by
  cases a with
  | syscall => rfl
  | _ => exact h.elim

/-- What a syscall does to the control state. -/
theorem Effect.control {nr a0 a1 a2 : Nat} {r : Option Nat} {a : Action}
    (hacts : Control.Acts s.control s.currentShard nr) (ha : a.IsCall)
    (he : Effect s nr a0 a1 a2 s' r) :
    ∃ l, Control.Step s.control l s'.control ∧ l.By a ∧ l.Shows s.control
      ⟨none, r.map fun result => ⟨s.currentShard, nr, a0, a1, a2, result⟩⟩ := by
  have hi : s.currentShard < maxShards := hacts.lt
  cases he with
  | unchanged result failed =>
    refine ⟨.silent, .silent, .inl ha, rfl, ?_⟩
    rcases failed with (rfl | rfl | rfl | rfl) | rfl
    · exact Event.quiet_of_ne (r := some result) (by decide) (by decide)
    · exact Event.quiet_of_ne (r := some result) (by decide) (by decide)
    · exact Event.quiet_of_ne (r := some result) (by decide) (by decide)
    · exact Event.quiet_of_ne (r := some result) (by decide) (by decide)
    · intro x hx _
      obtain rfl := Option.some.inj hx
      rfl
  | exit =>
    exact ⟨.exit s.currentShard, exited_control hacts.mode hi a0, ha.mode, rfl, Event.quiet_none⟩
  | yield =>
    refine ⟨.yield s.currentShard .sysYield, ?_, .inr ⟨rfl, ha⟩, rfl, Event.quiet_none⟩
    rw [control_setReady hi]
    exact .yield hacts.mode rfl hi (fun _ _ _ _ => nofun)
  | @send ep bytes hnr ok =>
    subst hnr
    have hlen := copyIn_length ok.copied
    refine ⟨.send s.currentShard a0 ep bytes, ?_, .inl ha, a1, by rw [hlen]; rfl⟩
    unfold sent
    rw [control_wake _ ok.peer, Sys.control_channels _ ok.lt, ← hlen]
    refine .send (uses_of_check hacts ok.lt ok.cap ok.active ok.endpoint) ?_ ?_ ok.peer
    · rw [hlen]; exact ok.pos
    · rw [hlen]; exact ok.le
  | @recv ep m hnr ok pending =>
    subst hnr
    refine ⟨.take s.currentShard a0 ep a2, ?_, .inl ha, a1, rfl⟩
    unfold received
    rw [show Sys.control { s.setMem m with channels := s.channels.modify a0 (·.clear) } =
      Sys.control { s with channels := s.channels.modify a0 (·.clear) } from rfl,
      Sys.control_channels _ ok.lt]
    exact .take (uses_of_check hacts ok.lt ok.cap ok.active ok.endpoint) pending ok.pos
  | @block ep hnr ok empty =>
    subst hnr
    refine ⟨.block s.currentShard a0 ep a1 a2, ?_, ha, rfl, Event.quiet_none⟩
    unfold Coconut.block
    rw [control_suspended hi]
    exact .block (uses_of_check hacts ok.lt ok.cap ok.active ok.endpoint) empty ok.pos
  | @grant slot hnr ok =>
    subst hnr
    refine ⟨.grant s.currentShard a0 a1 slot (BitVec.ofNat 16 a2), ?_, .inl ha, a2, rfl, rfl⟩
    rw [control_modifyCap _ ok.target_lt]
    exact .grant hacts ok.handle_lt ok.target_lt ok.slot_lt ok.live ok.valid ok.grant ok.unused
  | revoke hnr hh =>
    subst hnr
    refine ⟨.revoke s.currentShard a0, ?_, .inl ha, rfl,
      Event.quiet_of_ne (r := some 0) (by decide) (by decide)⟩
    rw [control_modifyCap _ hi]
    exact .revoke hacts hh
  | restrict hnr hh =>
    subst hnr
    refine ⟨.restrict s.currentShard a0 (BitVec.ofNat 16 a1), ?_, .inl ha, rfl,
      Event.quiet_of_ne (r := some 0) (by decide) (by decide)⟩
    rw [control_modifyCap _ hi]
    exact .restrict hacts hh
  | @fsOpen fd _ _ _ hnr =>
    subst hnr
    exact ⟨_, .silent, .inl ha, rfl, Event.quiet_of_ne (r := some fd) (by decide) (by decide)⟩
  | @fsRead _ _ bytes _ hnr =>
    subst hnr
    exact ⟨_, .silent, .inl ha, rfl, Event.quiet_of_ne (r := some bytes.length) (by decide) (by decide)⟩
  | fsClose hnr =>
    subst hnr
    exact ⟨_, .silent, .inl ha, rfl, Event.quiet_of_ne (r := some 0) (by decide) (by decide)⟩
  | @mmap ram frames mapped hnr =>
    subst hnr
    refine ⟨.silent, ?_, .inl ha, rfl,
      Event.quiet_of_ne (r := some (if mapped then 0 else u64Max)) (by decide) (by decide)⟩
    have h : (mmapped s ram frames mapped a0 a1).control = s.control := by
      rw [mmapped_eq]
      refine Sys.control_modifyShard_silent { s with ram } hi fun d => ?_
      unfold extendData
      split
      · split <;> rfl
      · rfl
    rw [h]
    exact .silent
  | dma hnr =>
    subst hnr
    exact ⟨_, .silent, .inl ha, rfl, Event.quiet_of_ne (r := some 0) (by decide) (by decide)⟩
  | pledge hnr =>
    subst hnr
    refine ⟨.pledge s.currentShard a0, ?_, .inl ha, rfl,
      Event.quiet_of_ne (r := some 0) (by decide) (by decide)⟩
    rw [Sys.control_modifyShard _ hi]
    exact .pledge hacts
  | unveil hnr =>
    subst hnr
    refine ⟨.silent, ?_, .inl ha, rfl, Event.quiet_of_ne (r := some 0) (by decide) (by decide)⟩
    rw [Sys.control_modifyShard_silent _ hi (f := fun d =>
      { d with vramUnveilOffset := a0, vramUnveilSize := a1 }) fun d => rfl]
    exact .silent

/-! ### The end of the run loop -/

theorem destroy_control {i : Nat} (h : destroy s i = .ok s') :
    i < maxShards ∧ (s.desc i).state = .exited ∧
      s'.control = s.control.setShard i (s.control.shard i).destroy := by
  obtain ⟨hi, hexited, rfl⟩ := destroy_eq_ok h
  exact ⟨hi, hexited, Sys.control_modifyShard { s with ram := _ } hi _⟩

theorem destroyAll_control : ∀ {n i : Nat} {s s' : Sys}, destroyAll n i s = .ok s' →
    s'.control = { s.control with
      shard := fun j => if i ≤ j ∧ j < i + n ∧ (s.control.shard j).state = .exited then
        (s.control.shard j).destroy else s.control.shard j }
  | 0, i, s, s', h => by
    obtain rfl := Except.ok.inj h
    have : ∀ j, ¬ (i ≤ j ∧ j < i + 0 ∧ (s.control.shard j).state = .exited) := fun j hc => by omega
    simp only [this, if_false]
  | n + 1, i, s, s', h => by
    obtain ⟨d, hd, h⟩ := Kernel.bind_eq_ok h
    obtain ⟨hi, rfl⟩ := Sys.shard_eq_ok hd
    -- the first slot of the range, then the others
    have first : ∃ s₁, destroyAll n (i + 1) s₁ = .ok s' ∧ s₁.control = { s.control with
        shard := fun j => if j = i ∧ (s.control.shard j).state = .exited then
          (s.control.shard j).destroy else s.control.shard j } := by
      simp only at h
      split at h
      · obtain ⟨s₁, hs₁, h⟩ := Kernel.bind_eq_ok h
        obtain ⟨-, hex, hc⟩ := destroy_control hs₁
        refine ⟨s₁, h, ?_⟩
        rw [hc]
        unfold Control.setShard
        congr 1
        funext j
        by_cases hj : j = i
        · subst hj
          rw [if_pos rfl, if_pos ⟨rfl, hex⟩]
        · rw [if_neg hj, if_neg fun hc => hj hc.1]
      · rename_i hex
        have : ∀ j, ¬ (j = i ∧ (s.control.shard j).state = .exited) := by
          rintro j ⟨rfl, hc⟩
          exact hex (beq_iff_eq.mpr hc)
        refine ⟨s, h, ?_⟩
        simp only [this, if_false]
    obtain ⟨s₁, h, hs₁⟩ := first
    rw [destroyAll_control h]
    rw [hs₁]
    simp only
    congr 1
    funext j
    by_cases hj : j = i ∧ (s.control.shard j).state = .exited
    · simp only [if_pos hj]
      rw [if_neg fun hc => by omega, if_pos ⟨by omega, by omega, hj.2⟩]
    · simp only [if_neg hj]
      by_cases hr : i + 1 ≤ j ∧ j < i + 1 + n ∧ (s.control.shard j).state = .exited
      · rw [if_pos hr, if_pos ⟨by omega, by omega, hr.2.2⟩]
      · rw [if_neg hr, if_neg fun hc => ?_]
        by_cases hji : j = i
        · exact hj ⟨hji, hc.2.2⟩
        · exact hr ⟨by omega, by omega, hc.2.2⟩

theorem allDone_eq_true (h : allDone s.shards = true) (i : Nat) :
    (s.control.shard i).state.isLive = false := by
  by_cases hi : i < maxShards
  · exact firstFrom_eq_none.mp (Option.isNone_iff_eq_none.mp h) i (Nat.zero_le _) (by omega)
  · change (s.shards.getD i ShardDescriptor.initial).state.isLive = false
    unfold Table.getD
    rw [dif_neg hi]
    rfl

/-- **Refinement.**  Every step of the system is a step of the control machine, whose
label tells what the step shows and by which actions it comes. -/
theorem step_control {a : Action} {ev : Event} (hmode : a.mode = s.mode)
    (he : StepEffect s a s' ev) :
    ∃ l, Control.Step s.control l s'.control ∧ l.By a ∧ l.Shows s.control ev := by
  cases he with
  | refused =>
    refine ⟨_, .silent, .inl trivial, rfl, fun x hx _ => ?_⟩
    obtain rfl := Option.some.inj hx
    rfl
  | syscall hi hp he => exact he.control (acts hmode.symm hi hp) trivial
  | timer hi =>
    refine ⟨.yield s.currentShard .timerPreempt, ?_, .inl ⟨rfl, rfl⟩, rfl, Event.quiet_none⟩
    rw [control_setReady hi]
    exact .yield hmode.symm rfl hi (fun _ _ _ _ => nofun)
  | kill hi huser =>
    exact ⟨_, exited_control (hmode.symm.trans huser) hi u64Max, huser, rfl, Event.quiet_none⟩
  | store => exact ⟨_, .silent, .inr ⟨_, _, rfl⟩, rfl, Event.quiet_none⟩
  | @select id returned picked hi context none_recv =>
    refine ⟨.select id, ?_, rfl, rfl, fun x hx hnr => ?_⟩
    · rw [control_switched _ hi]
      exact .select hmode.symm picked hi context
    · rw [none_recv x hx] at hnr
      exact absurd hnr (by decide)
  | @selectRecv id ch buf maxLen ep m picked hi context pending =>
    refine ⟨.selectTake id ch ep buf maxLen, ?_, rfl, rfl⟩
    by_cases hch : ch < maxChannels
    · unfold received
      rw [show Sys.control { (switched s id).setMem m with
          channels := (switched s id).channels.modify ch (·.clear) } =
        Sys.control { switched s id with
          channels := (switched s id).channels.modify ch (·.clear) } from rfl,
        Sys.control_channels _ hch, control_switched _ hi]
      exact .selectTake hmode.symm picked hi context pending
    · exact absurd pending.1 (by
        unfold Sys.channel Table.getD
        rw [dif_neg hch]
        exact Nat.lt_irrefl 0)
  | @selectRecvEmpty id ch _ _ ep picked hi context empty =>
    refine ⟨.selectEmpty id ch ep, ?_, rfl, rfl, fun x hx _ => ?_⟩
    · rw [control_switched _ hi]
      exact .selectEmpty hmode.symm picked hi context empty
    · obtain rfl := Option.some.inj hx
      rfl
  | @halt s₁ none_ready done destroyed =>
    refine ⟨.halt, ?_, rfl, rfl, Event.quiet_none⟩
    have h := congrArg (fun c : Control => { c with mode := .halted }) (destroyAll_control destroyed)
    change Sys.control { s₁ with mode := .halted } = _ at h
    have hall : ∀ j, (0 ≤ j ∧ j < 0 + maxShards ∧ (s.control.shard j).state = .exited) ↔
        (s.control.shard j).state = .exited := by
      refine fun j => ⟨fun hc => hc.2.2, fun hc => ⟨Nat.zero_le _, ?_, hc⟩⟩
      by_contra hj
      have hfree : (s.control.shard j).state = .free := by
        change (s.shards.getD j ShardDescriptor.initial).state = .free
        unfold Table.getD
        rw [dif_neg (by omega)]
        rfl
      rw [hfree] at hc
      cases hc
    simp only [hall] at h
    rw [h]
    exact .halt (c := s.control) hmode.symm none_ready (allDone_eq_true done)

end Steps
end Coconut
