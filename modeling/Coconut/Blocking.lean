import Coconut.BootEffects

/-!
# Blocking and waking

The invariant of the control machine that ties the state of a shard, the channel it
names and the place where it is suspended:

* a blocked shard is suspended in a receive on the channel it names, for which no
  message waits;
* a ready shard that is suspended in a receive has been woken by a send, and the message
  waits for it;
* the running shard is the current one, and there is one only while a shard is in user
  mode.

Between the wake-up and the moment the receive continues, the peer may send again and
third shards may run; the message stays because only the receiving endpoint takes it.
-/
namespace Coconut

theorem endpointOf_eq_some {ch : Channel} {i : Nat} {ep : Fin 2} (h : endpointOf ch i = some ep) :
    ch.shard ep = i := by
  unfold endpointOf at h
  split at h
  · obtain rfl := Option.some.inj h
    exact beq_iff_eq.mp ‹_›
  · split at h
    · obtain rfl := Option.some.inj h
      exact beq_iff_eq.mp ‹_›
    · cases h

theorem endpointOf_congr {ch ch' : Channel} (h : ch'.shard = ch.shard) (i : Nat) :
    endpointOf ch' i = endpointOf ch i := by
  unfold endpointOf
  rw [h]

/-! ## Capabilities given are kept by a grant -/

theorem capsGive_eq_true {caps : Table maxCapsPerShard CapEntry} {capType resource : Nat}
    {rights : BitVec 16} : capsGive caps capType resource rights = true ↔
      ∃ i, i < maxCapsPerShard ∧
        (caps.getD i CapEntry.empty).gives capType resource rights = true := by
  unfold capsGive
  constructor
  · intro h
    obtain ⟨i, hi⟩ := Option.isSome_iff_exists.mp h
    obtain ⟨-, h2, h3⟩ := firstFrom_some hi
    exact ⟨i, by omega, h3⟩
  · rintro ⟨i, hi, hg⟩
    by_contra hc
    have hnone := Option.not_isSome_iff_eq_none.mp hc
    have := firstFrom_eq_none.mp hnone i (Nat.zero_le _) (by omega)
    rw [hg] at this
    cases this

theorem CapEntry.valid_of_gives {cap : CapEntry} {capType resource : Nat} {rights : BitVec 16}
    (h : cap.gives capType resource rights = true) : cap.valid = true := by
  unfold CapEntry.gives at h
  simp only [Bool.and_eq_true] at h
  exact h.1.1.1

/-- Filling an unused slot takes no capability away. -/
theorem capsGive_modify {caps : Table maxCapsPerShard CapEntry} {capType resource slot : Nat}
    {rights : BitVec 16} {f : CapEntry → CapEntry}
    (hunused : (caps.getD slot CapEntry.empty).valid = false)
    (h : capsGive caps capType resource rights = true) :
    capsGive (caps.modify slot f) capType resource rights = true := by
  obtain ⟨i, hi, hg⟩ := capsGive_eq_true.mp h
  refine capsGive_eq_true.mpr ⟨i, hi, ?_⟩
  rw [Table.getD_modify, if_neg]
  · exact hg
  · rintro ⟨rfl, -⟩
    rw [CapEntry.valid_of_gives hg] at hunused
    cases hunused

namespace Control

/-! ## The invariant -/

/-- A shard is in a receive as endpoint `ep` of channel `ch`: it has passed the checks of
the syscall, and would pass them again. -/
structure Receives (channel : Nat → Channel) (i : Nat) (x : ShardControl) (ch : Nat) (ep : Fin 2) :
    Prop where
  channel_lt : ch < maxChannels
  active : (channel ch).active = true
  endpoint : endpointOf (channel ch) i = some ep
  pledge : pledgeAllows x.gpuPledge sysChannelRecv = true
  cap : capsGive x.caps capChannel ch rightChannelRecv = true

/-- What holds of one shard. -/
structure ShardOk (channel : Nat → Channel) (i : Nat) (x : ShardControl) : Prop where
  blocked : x.state = .blocked → ∃ ep buf maxLen,
    x.savedContext = .channelRecv x.blockedOnChannel ep buf maxLen ∧
      Receives channel i x x.blockedOnChannel ep ∧ ¬ (channel x.blockedOnChannel).Pending ep
  unblocked : x.state ≠ .blocked → x.blockedOnChannel = u64Max
  woken : x.state = .ready → ∀ ch ep buf maxLen, x.savedContext = .channelRecv ch ep buf maxLen →
    Receives channel i x ch ep ∧ (channel ch).Pending ep

/-- **The blocking invariant.** -/
structure Inv (c : Control) : Prop where
  running : ∀ i, (c.shard i).state = .running → c.mode = .user ∧ i = c.currentShard
  user : c.mode = .user → c.currentShard < maxShards ∧ (c.shard c.currentShard).state = .running
  shards : ∀ i, ShardOk c.channel i (c.shard i)
  last_lt : c.lastScheduled < maxShards

/-- The channels have the same endpoints. -/
def SameEnds (channel channel' : Nat → Channel) : Prop :=
  ∀ ch, (channel' ch).active = (channel ch).active ∧ (channel' ch).shard = (channel ch).shard

theorem SameEnds.refl (channel : Nat → Channel) : SameEnds channel channel := fun _ => ⟨rfl, rfl⟩

theorem SameEnds.setChannel (c : Control) {ch : Nat} {x : Channel}
    (ha : x.active = (c.channel ch).active) (hs : x.shard = (c.channel ch).shard) :
    SameEnds c.channel (c.setChannel ch x).channel := by
  intro k
  by_cases hk : k = ch
  · subst hk
    rw [setChannel_self]
    exact ⟨ha, hs⟩
  · rw [setChannel_of_ne c x hk]
    exact ⟨rfl, rfl⟩

section Shard
variable {channel channel' : Nat → Channel} {i ch : Nat} {ep : Fin 2} {x y : ShardControl}

theorem Receives.mono (h : Receives channel i x ch ep) (hends : SameEnds channel channel')
    (hpledge : y.gpuPledge = x.gpuPledge)
    (hcaps : ∀ ch, capsGive x.caps capChannel ch rightChannelRecv = true →
      capsGive y.caps capChannel ch rightChannelRecv = true) : Receives channel' i y ch ep where
  channel_lt := h.channel_lt
  active := by rw [(hends ch).1]; exact h.active
  endpoint := by rw [endpointOf_congr (hends ch).2]; exact h.endpoint
  pledge := by rw [hpledge]; exact h.pledge
  cap := hcaps ch h.cap

/-- A shard that is neither blocked nor ready has only its mark to keep clear. -/
theorem ShardOk.of_idle (hb : x.state ≠ .blocked) (hr : x.state ≠ .ready)
    (hmax : x.blockedOnChannel = u64Max) : ShardOk channel i x :=
  ⟨fun h => absurd h hb, fun _ => hmax, fun h => absurd h hr⟩

/-- A shard keeps what holds of it when its capabilities grow, no message appears that
it is blocked for, and no message is taken that it was woken for. -/
theorem ShardOk.mono (h : ShardOk channel i x) (hends : SameEnds channel channel')
    (hsame : y.state = x.state ∧ y.blockedOnChannel = x.blockedOnChannel ∧
      y.savedContext = x.savedContext ∧ y.gpuPledge = x.gpuPledge)
    (hcaps : ∀ ch, capsGive x.caps capChannel ch rightChannelRecv = true →
      capsGive y.caps capChannel ch rightChannelRecv = true)
    (hempty : ∀ ep, x.state = .blocked → Receives channel i x x.blockedOnChannel ep →
      ¬ (channel x.blockedOnChannel).Pending ep → ¬ (channel' x.blockedOnChannel).Pending ep)
    (hkept : ∀ ch ep, x.state = .ready → Receives channel i x ch ep → (channel ch).Pending ep →
      (channel' ch).Pending ep) : ShardOk channel' i y := by
  obtain ⟨hstate, hblocked, hctx, hpledge⟩ := hsame
  refine ⟨fun hy => ?_, fun hy => ?_, fun hy ch ep buf maxLen hc => ?_⟩
  · rw [hstate] at hy
    obtain ⟨ep, buf, maxLen, hc, hrecv, he⟩ := h.blocked hy
    rw [hblocked, hctx]
    exact ⟨ep, buf, maxLen, hc, hrecv.mono hends hpledge hcaps, hempty ep hy hrecv he⟩
  · rw [hblocked]
    exact h.unblocked (by rwa [hstate] at hy)
  · rw [hstate] at hy
    rw [hctx] at hc
    obtain ⟨hrecv, hp⟩ := h.woken hy ch ep buf maxLen hc
    exact ⟨hrecv.mono hends hpledge hcaps, hkept ch ep hy hrecv hp⟩

end Shard
/-! ## Steps keep the invariant -/

section Steps
variable {c : Control} {i : Nat}

theorem shards_setShard (h : ∀ j, ShardOk c.channel j (c.shard j)) {x : ShardControl}
    (hx : ShardOk c.channel i x) (j : Nat) : ShardOk c.channel j ((c.setShard i x).shard j) := by
  by_cases hj : j = i
  · subst hj
    rw [setShard_self]
    exact hx
  · rw [setShard_of_ne c x hj]
    exact h j

/-- The running shard is not blocked, and its mark is clear. -/
theorem Inv.current (h : Inv c) (hmode : c.mode = .user) (hi : c.currentShard = i) :
    (c.shard i).state = .running ∧ (c.shard i).blockedOnChannel = u64Max := by
  subst hi
  have hr := (h.user hmode).2
  exact ⟨hr, (h.shards _).unblocked (by rw [hr]; decide)⟩

/-- A change of a shard that keeps its state. -/
theorem Inv.setShard (h : Inv c) {x : ShardControl} (hstate : x.state = (c.shard i).state)
    (hx : ShardOk c.channel i x) : Inv (c.setShard i x) := by
  have hsame : ∀ j, ((c.setShard i x).shard j).state = (c.shard j).state := by
    intro j
    by_cases hj : j = i
    · rw [hj, setShard_self, hstate]
    · rw [setShard_of_ne c x hj]
  refine ⟨fun j hj => h.running j (by rw [← hsame]; exact hj), fun hm => ?_,
    shards_setShard h.shards hx, h.last_lt⟩
  obtain ⟨hlt, hr⟩ := h.user hm
  exact ⟨hlt, (hsame _).trans hr⟩

/-- A change of the running shard's capabilities or pledge. -/
theorem Inv.setShard_running (h : Inv c) (hmode : c.mode = .user) (hi : c.currentShard = i)
    {x : ShardControl} (hstate : x.state = (c.shard i).state)
    (hblocked : x.blockedOnChannel = (c.shard i).blockedOnChannel) : Inv (c.setShard i x) := by
  obtain ⟨hr, hmax⟩ := h.current hmode hi
  rw [hr] at hstate
  exact h.setShard (hstate.trans hr.symm) (.of_idle (by rw [hstate]; decide) (by rw [hstate]; decide)
    (by rw [hblocked, hmax]))

/-- The running shard gives the processor up. -/
theorem Inv.leave (h : Inv c) (hi : c.currentShard = i) (x : ShardControl)
    (hx : ShardOk c.channel i x) (hr : x.state ≠ .running) (k : Nat) :
    Inv { c.setShard i x with currentShard := k, mode := .choosing } := by
  refine ⟨fun j hj => ?_, fun hm => (by cases hm), shards_setShard h.shards hx, h.last_lt⟩
  by_cases hji : j = i
  · rw [hji] at hj
    exact absurd (by simpa using hj) hr
  · have hj : (c.shard j).state = .running := by rwa [← setShard_of_ne c x hji]
    exact absurd ((h.running j hj).2.trans hi) hji

theorem readyAt_eq_true {prio : Priority} :
    c.readyAt prio i = true ↔ (c.shard i).state = .ready ∧ (c.shard i).priority = prio := by
  simp only [readyAt, Bool.and_eq_true, beq_iff_eq]

/-- Only a ready shard is picked. -/
theorem pick_ready (hlast : c.lastScheduled < maxShards) (h : c.pick = some i) :
    (c.shard i).state = .ready := by
  obtain ⟨prio, -, hp⟩ := List.exists_of_findSome?_eq_some h
  exact (readyAt_eq_true.mp (nextCyclic_eq_some hlast hp).2.1).1

/-- A ready shard is switched to. -/
theorem Inv.switch (h : Inv c) (hmode : c.mode = .choosing) (hlt : i < maxShards)
    (hready : (c.shard i).state = .ready) : Inv (c.switch i) := by
  refine ⟨fun j hj => ⟨rfl, ?_⟩, fun _ => ⟨hlt, by simp [Control.switch]⟩,
    shards_setShard h.shards (.of_idle (by simp) (by simp) ((h.shards i).unblocked (by simp [hready]))),
    hlt⟩
  by_contra hji
  have hj : (c.shard j).state = .running := by
    rw [← setShard_of_ne c { c.shard i with state := .running } hji]
    exact hj
  exact absurd ((h.running j hj).1.symm.trans hmode) (by decide)

/-- The message of a channel is taken, which no woken shard waits for. -/
theorem Inv.clear (h : Inv c) {ch : Nat}
    (hkept : ∀ j ep, (c.shard j).state = .ready → Receives c.channel j (c.shard j) ch ep →
      ¬ (c.channel ch).Pending ep) : Inv (c.setChannel ch (c.channel ch).clear) := by
  refine ⟨h.running, h.user, fun j => ?_, h.last_lt⟩
  refine (h.shards j).mono (.setChannel c rfl rfl) ⟨rfl, rfl, rfl, rfl⟩ (fun _ hc => hc) ?_ ?_
  · intro ep _ _ hempty
    by_cases hk : (c.shard j).blockedOnChannel = ch
    · rw [hk, setChannel_self]
      exact fun hp => absurd hp.1 (Nat.lt_irrefl 0)
    · rwa [setChannel_of_ne c _ hk]
  · intro k ep hready hrecv hp
    by_cases hk : k = ch
    · subst hk
      exact absurd hp (hkept j ep hready hrecv)
    · rwa [setChannel_of_ne c _ hk]

/-- Two shards in a receive or in control of one endpoint are the same. -/
theorem Receives.eq_of_endpoint {channel : Nat → Channel} {i j ch : Nat} {x : ShardControl}
    {ep : Fin 2} (h : Receives channel j x ch ep) (hi : endpointOf (channel ch) i = some ep) :
    j = i := by
  rw [← endpointOf_eq_some h.endpoint, endpointOf_eq_some hi]

/-- A message for endpoint `peerEp ep` replaces what the channel held, and the shard there
is woken if it is blocked for it. -/
theorem Inv.send (h : Inv c) (hmode : c.mode = .user) (hi : c.currentShard = i) {ch : Nat}
    {ep : Fin 2} (hep : endpointOf (c.channel ch) i = some ep) {bytes : List UInt8}
    (hpos : 0 < bytes.length) : Inv ((c.setChannel ch
      ((c.channel ch).put bytes bytes.length (peerEp ep))).wake ((c.channel ch).shard (peerEp ep)) ch) := by
  obtain ⟨hrun, -⟩ := h.current hmode hi
  set x := (c.channel ch).put bytes bytes.length (peerEp ep) with hx
  set c₁ := c.setChannel ch x with hc₁
  have hends : SameEnds c.channel c₁.channel := .setChannel c rfl rfl
  have hput : (c₁.channel ch).Pending (peerEp ep) := by
    rw [hc₁, setChannel_self]
    exact ⟨hpos, rfl⟩
  -- a shard in a receive on this channel that does not run is at the other endpoint
  have hother : ∀ j ep', (c.shard j).state ≠ .running → Receives c.channel j (c.shard j) ch ep' →
      ep' = peerEp ep ∧ j = (c.channel ch).shard (peerEp ep) := by
    intro j ep' hj hrecv
    by_cases he : ep' = ep
    · subst he
      rw [hrecv.eq_of_endpoint hep] at hj
      exact absurd hrun hj
    · rw [peerEp_eq he]
      exact ⟨rfl, (endpointOf_eq_some hrecv.endpoint).symm⟩
  -- the shards that are not woken
  have hrest : ∀ j, ¬ (j = (c.channel ch).shard (peerEp ep) ∧ (c.shard j).state = .blocked ∧
      (c.shard j).blockedOnChannel = ch) → ShardOk c₁.channel j (c.shard j) := by
    intro j hj
    refine (h.shards j).mono hends ⟨rfl, rfl, rfl, rfl⟩ (fun _ hc => hc) ?_ ?_
    · intro ep' hb hrecv hempty
      by_cases hk : (c.shard j).blockedOnChannel = ch
      · rw [hk] at hrecv
        exact absurd ⟨(hother j ep' (by rw [hb]; decide) hrecv).2, hb, hk⟩ hj
      · rwa [hc₁, setChannel_of_ne c _ hk]
    · intro k ep' hready hrecv hp
      by_cases hk : k = ch
      · subst hk
        rw [(hother j ep' (by rw [hready]; decide) hrecv).1]
        exact hput
      · rwa [hc₁, setChannel_of_ne c _ hk]
  unfold wake
  split
  · rename_i hw
    set p := (c.channel ch).shard (peerEp ep)
    have hwoken : ShardOk c₁.channel p
        { c.shard p with state := .ready, blockedOnChannel := u64Max } := by
      refine ⟨fun hb => (by cases hb), fun _ => rfl, fun _ k ep' buf maxLen hk => ?_⟩
      obtain ⟨ep₀, buf₀, maxLen₀, hctx, hrecv, -⟩ := (h.shards p).blocked hw.1
      rw [show (c.shard p).blockedOnChannel = ch from hw.2] at hctx hrecv
      obtain ⟨rfl, rfl, -, -⟩ := SavedContext.channelRecv.inj (hctx.symm.trans hk)
      refine ⟨hrecv.mono hends rfl fun _ hc => hc, ?_⟩
      rw [(hother p ep₀ (by rw [show (c.shard p).state = .blocked from hw.1]; decide) hrecv).1]
      exact hput
    have hstates : ∀ j, ((c₁.setShard p
        { c₁.shard p with state := .ready, blockedOnChannel := u64Max }).shard j).state = .running →
        (c.shard j).state = .running := by
      intro j hj
      by_cases hjp : j = p
      · rw [hjp, setShard_self] at hj
        cases hj
      · rwa [setShard_of_ne _ _ hjp] at hj
    refine ⟨fun j hj => h.running j (hstates j hj), fun hm => ⟨(h.user hm).1, ?_⟩, fun j => ?_, h.last_lt⟩
    · have hne : c.currentShard ≠ p := by
        intro he
        have := (h.user hm).2
        rw [he, show (c.shard p).state = .blocked from hw.1] at this
        cases this
      rw [show (c₁.setShard p _).currentShard = c.currentShard from rfl, setShard_of_ne _ _ hne]
      exact (h.user hm).2
    · by_cases hjp : j = p
      · subst hjp
        rw [setShard_self]
        exact hwoken
      · rw [setShard_of_ne _ _ hjp]
        exact hrest j fun hc => hjp hc.1
  · rename_i hw
    refine ⟨h.running, h.user, fun j => hrest j ?_, h.last_lt⟩
    rintro ⟨rfl, hb⟩
    exact hw hb

/-- **Every step of the control machine keeps the blocking invariant.** -/
theorem Inv.step {c' : Control} {l : Label} (h : Inv c) (hs : Step c l c') : Inv c' := by
  cases hs with
  | silent => exact h
  | pledge acts => exact h.setShard_running acts.mode acts.current rfl rfl
  | @grant _ handle target slot rights _ _ _ _ _ _ _ unused =>
    refine h.setShard rfl ?_
    refine (h.shards target).mono (.refl _) ⟨rfl, rfl, rfl, rfl⟩ ?_ (fun _ _ _ he => he)
      (fun _ _ _ _ hp => hp)
    exact fun ch hg => capsGive_modify unused hg
  | revoke acts => exact h.setShard_running acts.mode acts.current rfl rfl
  | restrict acts => exact h.setShard_running acts.mode acts.current rfl rfl
  | send uses pos => exact h.send uses.mode uses.current uses.endpoint pos
  | @take i ch maxLen ep uses pending =>
    refine h.clear fun j ep' hready hrecv hp => ?_
    have he : ep' = ep := hp.2.symm.trans pending.2
    rw [he] at hrecv
    have hrun := (h.current uses.mode uses.current).1
    rw [← hrecv.eq_of_endpoint uses.endpoint, hready] at hrun
    cases hrun
  | @block i ch buf maxLen ep uses empty =>
    refine h.leave uses.current { c.shard i with
      state := .blocked, blockedOnChannel := ch, savedContext := .channelRecv ch ep buf maxLen }
      ⟨fun _ => ?_, fun hb => absurd rfl hb, nofun⟩ nofun c.currentShard
    exact ⟨ep, buf, maxLen, rfl, ⟨uses.channel_lt, uses.active, uses.endpoint, uses.pledge, uses.cap⟩,
      empty⟩
  | @yield i context mode current lt context_ne =>
    obtain ⟨hrun, hmax⟩ := h.current mode current
    rw [if_pos hrun]
    exact h.leave current { c.shard i with state := .ready, savedContext := context }
      ⟨nofun, fun _ => hmax, fun _ ch ep buf maxLen hc => absurd hc (context_ne ch ep buf maxLen)⟩
      nofun c.currentShard
  | @exit i mode current =>
    exact h.leave current { c.shard i with state := .exited }
      (.of_idle nofun nofun (h.current mode current).2) nofun u64Max
  | select mode picked lt => exact h.switch mode lt (pick_ready h.last_lt picked)
  | @selectTake i ch buf maxLen ep mode picked lt context pending =>
    have hready := pick_ready h.last_lt picked
    refine (h.switch mode lt hready).clear fun j ep' hj hrecv hp => ?_
    have he : ep' = ep := hp.2.symm.trans pending.2
    rw [he] at hrecv
    have hself := ((h.shards i).woken hready ch ep buf maxLen context).1.endpoint
    rw [hrecv.eq_of_endpoint hself, Control.switch, setShard_self] at hj
    cases hj
  | selectEmpty mode picked lt => exact h.switch mode lt (pick_ready h.last_lt picked)
  | halt mode none_ready done =>
    have hidle : ∀ i, (c.shard i).state ≠ .blocked ∧ (c.shard i).state ≠ .ready ∧
        (c.shard i).state ≠ .running := by
      intro i
      have hlive := done i
      refine ⟨?_, ?_, ?_⟩ <;> intro hc <;> rw [hc] at hlive <;> cases hlive
    refine ⟨fun i hi => ?_, fun hm => (by cases hm), fun i => ?_, h.last_lt⟩
    · by_cases hex : (c.shard i).state = .exited
      · rw [finish_of_exited hex] at hi
        cases hi
      · rw [finish_of_ne hex] at hi
        exact absurd hi (hidle i).2.2
    · have hmax := (h.shards i).unblocked (hidle i).1
      by_cases hex : (c.shard i).state = .exited
      · rw [finish_of_exited hex]
        exact .of_idle nofun nofun hmax
      · rw [finish_of_ne hex]
        exact .of_idle (hidle i).1 (hidle i).2.1 hmax

end Steps

/-! ## Boot establishes it -/

/-- No shard has run yet. -/
structure Fresh (c : Control) : Prop where
  mode : c.mode = .choosing
  current : c.currentShard = u64Max
  last : c.lastScheduled = 0
  state : ∀ i, (c.shard i).state = .free ∨ (c.shard i).state = .ready
  context : ∀ i, (c.shard i).savedContext = .firstEntry
  mark : ∀ i, (c.shard i).blockedOnChannel = u64Max
  empty : ∀ ch, (c.channel ch).msgLen = 0

theorem Fresh.setShard {c : Control} (h : Fresh c) {i : Nat} {x : ShardControl}
    (hx : (x.state = .free ∨ x.state = .ready) ∧ x.savedContext = .firstEntry ∧
      x.blockedOnChannel = u64Max) : Fresh (c.setShard i x) := by
  have hall : ∀ j, ((c.setShard i x).shard j) = x ∨ ((c.setShard i x).shard j) = c.shard j := by
    intro j
    unfold Control.setShard
    simp only
    split
    · exact Or.inl rfl
    · exact Or.inr rfl
  refine ⟨h.mode, h.current, h.last, fun j => ?_, fun j => ?_, fun j => ?_, h.empty⟩ <;>
    rcases hall j with hj | hj <;> rw [hj]
  · exact hx.1
  · exact h.state j
  · exact hx.2.1
  · exact h.context j
  · exact hx.2.2
  · exact h.mark j

theorem Fresh.bootStep {c c' : Control} {op : BootOp} (h : Fresh c) (hs : BootStep c op c') :
    Fresh c' := by
  cases hs with
  | silent => exact h
  | create => exact h.setShard ⟨Or.inr rfl, rfl, rfl⟩
  | @channelInit ch a b =>
    refine ⟨h.mode, h.current, h.last, h.state, h.context, h.mark, fun k => ?_⟩
    by_cases hk : k = ch
    · subst hk
      rw [setChannel_self]
      rfl
    · rw [setChannel_of_ne c _ hk]
      exact h.empty k
  | @grant i => exact h.setShard ⟨h.state i, h.context i, h.mark i⟩

theorem Fresh.inv {c : Control} (h : Fresh c) : Inv c := by
  refine ⟨fun i hi => ?_, fun hm => ?_, fun i => ⟨fun hb => ?_, fun _ => h.mark i, ?_⟩, ?_⟩
  · rcases h.state i with hs | hs <;> rw [hs] at hi <;> cases hi
  · rw [h.mode] at hm
    cases hm
  · rcases h.state i with hs | hs <;> rw [hs] at hb <;> cases hb
  · intro _ ch ep buf maxLen hc
    rw [h.context i] at hc
    cases hc
  · rw [h.last]
    decide

end Control

theorem Booted.fresh {isRam : Nat → Prop} {ops : List BootOp} {s : Sys} (h : Booted isRam ops s) :
    s.control.Fresh := by
  induction h with
  | @initial s hi =>
    have hdesc : ∀ i, s.desc i = ShardDescriptor.initial := by
      intro i
      unfold Sys.desc Table.getD
      rw [hi.shards]
      split <;> rfl
    refine ⟨hi.mode, hi.currentShard, hi.lastScheduled, fun i => Or.inl ?_, fun i => ?_, fun i => ?_, fun ch => ?_⟩
    · exact congrArg (·.state) (hdesc i)
    · exact congrArg (·.savedContext) (hdesc i)
    · exact congrArg (·.blockedOnChannel) (hdesc i)
    · change (Table.getD _ ch Channel.initial).msgLen = 0
      unfold Table.getD
      rw [hi.channels]
      split <;> rfl
  | op _ _ hrun ih => exact ih.bootStep (BootOp.run_control hrun)

namespace Run
variable (r : Run)

/-- A step of a run, in the control machine. -/
theorem control_step (t : Nat) : ∃ l, Control.Step (r.state t).control l (r.state (t + 1)).control ∧
    l.Shows (r.state t).control (r.event t) := by
  rcases r.step_cases t with ⟨a, hmode, heffect⟩ | ⟨hsame, hev⟩
  · obtain ⟨l, hl, -, hshows⟩ := step_control hmode heffect
    exact ⟨l, hl, hshows⟩
  · rw [hsame, hev]
    exact ⟨_, .silent, rfl, Event.quiet_none⟩

theorem control_action {t : Nat} {a : Action} (h : r.action t = some a) :
    a.mode = (r.state t).mode ∧ ∃ l, Control.Step (r.state t).control l (r.state (t + 1)).control ∧
      l.By a := by
  have hnext := r.next t
  rw [h] at hnext
  obtain ⟨l, hl, hby, -⟩ := step_control hnext.1 (step_effect hnext.2)
  exact ⟨hnext.1, l, hl, hby⟩

/-- **The blocking invariant holds in every state of a run.** -/
theorem control_inv (t : Nat) : (r.state t).control.Inv := by
  induction t with
  | zero => exact r.booted.fresh.inv
  | succ t ih =>
    obtain ⟨l, hl, -⟩ := r.control_step t
    exact ih.step hl

end Run
end Coconut
