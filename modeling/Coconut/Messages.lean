import Coconut.Replay
import Coconut.Scheduling

/-!
# Messages on channels

What a step can do to one channel: a send replaces the message, a receive takes it, and
nothing else touches it.  Both are made by an endpoint that holds the capability for the
channel at that moment, also when the receive has been blocked in between.

From this follow **complete mediation** (`Run.complete_mediation`, in `Mediation`) and the
exact condition under which a message waits until it is received (`message_waits_iff`): a
channel has one buffer for both directions, so an endpoint that sends while a message waits
for it destroys that message.
-/
namespace Coconut

/-- The channel whose message a step of the control machine puts or takes. -/
def Label.channel : Label → Option Nat
  | .send _ ch _ _ => some ch
  | .take _ ch _ _ => some ch
  | .selectTake _ ch _ _ _ => some ch
  | _ => none

namespace Control
variable {c c' : Control} {l : Label} {ch : Nat}

/-- What a step can do to channel `ch`. -/
inductive ChannelStep (c : Control) (l : Label) (c' : Control) (ch : Nat) : Prop
  | same (other : l.channel ≠ some ch) (after : c'.channel ch = c.channel ch)
  | sent {i : Nat} {ep : Fin 2} {bytes : List UInt8} (label : l = .send i ch ep bytes)
      (uses : Uses c i sysChannelSend ch ep rightChannelSend) (pos : 0 < bytes.length)
      (le : bytes.length ≤ maxMsgSize)
      (after : c'.channel ch = (c.channel ch).put bytes bytes.length (peerEp ep))
  | taken {i maxLen : Nat} {ep : Fin 2}
      (label : l = .take i ch ep maxLen ∨ ∃ buf, l = .selectTake i ch ep buf maxLen)
      (receives : Receives c.channel i (c.shard i) ch ep) (pending : (c.channel ch).Pending ep)
      (after : c'.channel ch = (c.channel ch).clear)

theorem ChannelStep.other {k : Nat} {x : Channel} (hl : l.channel = some k) (hk : ch ≠ k)
    (h : c'.channel ch = (c.setChannel k x).channel ch) : ChannelStep c l c' ch :=
  .same (by rw [hl]; exact fun he => hk (Option.some.inj he).symm)
    (by rw [h, setChannel_of_ne c x hk])

theorem wake_channel (c : Control) (j k : Nat) : (c.wake j k).channel = c.channel := by
  unfold wake
  split <;> rfl

theorem Step.channelStep (h : Inv c) (hs : Step c l c') (ch : Nat) : ChannelStep c l c' ch := by
  cases hs with
  | @send i k ep bytes uses pos le =>
    by_cases hk : ch = k
    · subst hk
      exact .sent rfl uses pos le (by rw [wake_channel, setChannel_self])
    · exact .other rfl hk (by rw [wake_channel])
  | @take i k maxLen ep uses pending =>
    by_cases hk : ch = k
    · subst hk
      exact .taken (Or.inl rfl) ⟨uses.channel_lt, uses.active, uses.endpoint, uses.pledge, uses.cap⟩
        pending (setChannel_self ..)
    · exact .other rfl hk rfl
  | @selectTake i k buf maxLen ep mode picked lt context pending =>
    by_cases hk : ch = k
    · subst hk
      have hready := pick_ready h.last_lt picked
      exact .taken (Or.inr ⟨buf, rfl⟩) ((h.shards i).woken hready ch ep buf maxLen context).1 pending
        (setChannel_self ..)
    · exact .same (fun he => hk (Option.some.inj he).symm) (setChannel_of_ne _ _ hk)
  | silent => exact .same nofun rfl
  | pledge => exact .same nofun rfl
  | grant => exact .same nofun rfl
  | revoke => exact .same nofun rfl
  | restrict => exact .same nofun rfl
  | block => exact .same nofun rfl
  | yield => exact .same nofun rfl
  | exit => exact .same nofun rfl
  | select => exact .same nofun rfl
  | selectEmpty => exact .same nofun rfl
  | halt => exact .same nofun rfl

end Control

/-! ## What an observer sees of it -/

/-- A successful send that returned. -/
theorem Label.Shows.send {c : Control} {l : Label} {ev : Event} {x : Returned} (h : l.Shows c ev)
    (hx : ev.returned = some x) (hnr : x.nr = sysChannelSend) (hres : x.result = 0) :
    ∃ ep bytes, l = .send x.shard x.a0 ep bytes ∧ x.a2 = bytes.length := by
  have quiet : ev.Quiet → False := fun hq => by
    rw [hq x hx (Or.inl hnr)] at hres
    cases hres
  cases l with
  | send i ch ep bytes =>
    obtain ⟨buf, rfl⟩ := h
    obtain rfl := Option.some.inj hx
    exact ⟨ep, bytes, rfl, rfl⟩
  | grant =>
    obtain ⟨a2, -, rfl⟩ := h
    obtain rfl := Option.some.inj hx
    cases hnr
  | take =>
    obtain ⟨buf, rfl⟩ := h
    obtain rfl := Option.some.inj hx
    cases hnr
  | selectTake =>
    cases h
    obtain rfl := Option.some.inj hx
    cases hnr
  | _ => exact (quiet h.2).elim

/-- A receive that returned a message. -/
theorem Label.Shows.recv {c : Control} {l : Label} {ev : Event} {x : Returned} (h : l.Shows c ev)
    (hx : ev.returned = some x) (hnr : x.nr = sysChannelRecv) (hres : x.result ≠ u64Max) :
    x.result = min (c.channel x.a0).msgLen x.a2 ∧
      ∃ ep, l = .take x.shard x.a0 ep x.a2 ∨ l = .selectTake x.shard x.a0 ep x.a1 x.a2 := by
  have quiet : ev.Quiet → False := fun hq => hres (hq x hx (Or.inr hnr))
  cases l with
  | send =>
    obtain ⟨buf, rfl⟩ := h
    obtain rfl := Option.some.inj hx
    cases hnr
  | grant =>
    obtain ⟨a2, -, rfl⟩ := h
    obtain rfl := Option.some.inj hx
    cases hnr
  | take i ch ep maxLen =>
    obtain ⟨buf, rfl⟩ := h
    obtain rfl := Option.some.inj hx
    exact ⟨rfl, ep, Or.inl rfl⟩
  | selectTake i ch ep buf maxLen =>
    cases h
    obtain rfl := Option.some.inj hx
    exact ⟨rfl, ep, Or.inr rfl⟩
  | _ => exact (quiet h.2).elim

namespace Run
variable (r : Run)

/-- Shard `i`, endpoint `ep` of channel `ch`, makes a successful send at time `t`. -/
def Sends (t i ch : Nat) (ep : Fin 2) : Prop :=
  ∃ buf len, (r.event t).returned = some ⟨i, sysChannelSend, ch, buf, len, 0⟩ ∧
    endpointOf ((r.state t).channel ch) i = some ep

/-- A receive of shard `i`, endpoint `ep` of channel `ch`, returns a message at time `t`. -/
def Receives (t i ch : Nat) (ep : Fin 2) : Prop :=
  ∃ buf maxLen n, (r.event t).returned = some ⟨i, sysChannelRecv, ch, buf, maxLen, n⟩ ∧
    n ≠ u64Max ∧ endpointOf ((r.state t).channel ch) i = some ep

theorem msgLen_le (t ch : Nat) : ((r.state t).channel ch).msgLen ≤ maxMsgSize := by
  induction t with
  | zero =>
    rw [show ((r.state 0).channel ch).msgLen = 0 from r.booted.fresh.empty ch]
    exact Nat.zero_le _
  | succ t ih =>
    obtain ⟨l, hl, -⟩ := r.control_step t
    change ((r.state (t + 1)).control.channel ch).msgLen ≤ maxMsgSize
    cases hl.channelStep (r.control_inv t) ch with
    | same _ after => rw [after]; exact ih
    | sent _ _ _ le after => rw [after]; exact le
    | taken _ _ _ after => rw [after]; exact Nat.zero_le _

/-- What happens on channel `ch` at time `t`. -/
inductive Traffic (t ch : Nat) : Prop
  | quiet (after : (r.state (t + 1)).channel ch = (r.state t).channel ch)
      (no_send : ∀ i ep, ¬ r.Sends t i ch ep) (no_recv : ∀ i ep, ¬ r.Receives t i ch ep)
  | send {i : Nat} {ep : Fin 2} {bytes : List UInt8} (sends : r.Sends t i ch ep)
      (uses : Control.Uses (r.state t).control i sysChannelSend ch ep rightChannelSend)
      (pos : 0 < bytes.length)
      (after : (r.state (t + 1)).channel ch = ((r.state t).channel ch).put bytes bytes.length (peerEp ep))
      (only : ∀ j ep', r.Sends t j ch ep' → ep' = ep) (no_recv : ∀ j ep, ¬ r.Receives t j ch ep)
  | recv {i : Nat} {ep : Fin 2} (receives : r.Receives t i ch ep)
      (checks : Control.Receives (r.state t).channel i ((r.state t).desc i).control ch ep)
      (pending : ((r.state t).channel ch).Pending ep)
      (after : (r.state (t + 1)).channel ch = ((r.state t).channel ch).clear)
      (no_send : ∀ j ep, ¬ r.Sends t j ch ep)

theorem traffic (t ch : Nat) : r.Traffic t ch := by
  obtain ⟨l, hl, hev⟩ := r.control_step t
  have hsend : ∀ {i ep}, r.Sends t i ch ep → ∃ ep' bytes, l = .send i ch ep' bytes := by
    rintro i ep ⟨buf, len, hx, -⟩
    obtain ⟨ep', bytes, hlabel, -⟩ := hev.send hx rfl rfl
    exact ⟨ep', bytes, hlabel⟩
  have hrecv : ∀ {i ep}, r.Receives t i ch ep →
      ∃ ep' maxLen, l = .take i ch ep' maxLen ∨ ∃ buf, l = .selectTake i ch ep' buf maxLen := by
    rintro i ep ⟨buf, maxLen, n, hx, hn, -⟩
    obtain ⟨-, ep', hlabel⟩ := hev.recv hx rfl hn
    exact ⟨ep', maxLen, hlabel.imp_right fun h => ⟨buf, h⟩⟩
  cases hl.channelStep (r.control_inv t) ch with
  | same other after =>
    refine .quiet after (fun i ep hs => ?_) (fun i ep hs => ?_)
    · obtain ⟨ep', bytes, rfl⟩ := hsend hs
      exact other rfl
    · obtain ⟨ep', maxLen, rfl | ⟨buf, rfl⟩⟩ := hrecv hs <;> exact other rfl
  | @sent i ep bytes label uses pos _ after =>
    subst label
    obtain ⟨buf, hev⟩ := hev
    refine .send ⟨buf, bytes.length, congrArg Event.returned hev, uses.endpoint⟩ uses pos after
      (fun j ep' hs => ?_) (fun j ep' hs => ?_)
    · obtain ⟨ep'', bytes', hlabel⟩ := hsend hs
      obtain ⟨rfl, -⟩ := Label.send.inj hlabel
      obtain ⟨_, _, -, hep⟩ := hs
      exact Option.some.inj (hep.symm.trans uses.endpoint)
    · obtain ⟨ep'', maxLen, h | ⟨buf', h⟩⟩ := hrecv hs <;> cases h
  | @taken i maxLen ep label receives pending after =>
    have hno : ∀ j ep, ¬ r.Sends t j ch ep := fun j ep' hs => by
      obtain ⟨ep'', bytes, h⟩ := hsend hs
      rw [h] at label
      obtain h' | ⟨buf, h'⟩ := label <;> cases h'
    have hn : min ((r.state t).channel ch).msgLen maxLen ≠ u64Max := by
      have := r.msgLen_le t ch
      simp only [maxMsgSize, u64Max] at this ⊢
      omega
    have hshown : ∃ buf, (r.event t).returned = some
        ⟨i, sysChannelRecv, ch, buf, maxLen, min ((r.state t).channel ch).msgLen maxLen⟩ := by
      obtain rfl | ⟨buf, rfl⟩ := label
      · obtain ⟨buf, hev⟩ := hev
        exact ⟨buf, congrArg Event.returned hev⟩
      · exact ⟨buf, congrArg Event.returned hev⟩
    obtain ⟨buf, hshown⟩ := hshown
    exact .recv ⟨buf, maxLen, _, hshown, hn, receives.endpoint⟩ receives pending after hno

/-! ## A message waits until it is received -/

/-- **A message waits until its receiver takes it or its sender replaces it, exactly in
the runs in which no endpoint sends while a message waits for it.** -/
theorem message_waits_iff :
    (∀ t ch ep, ((r.state t).channel ch).Pending ep →
      (r.state (t + 1)).channel ch = (r.state t).channel ch ∨ (∃ i, r.Receives t i ch ep) ∨
        ∃ i, r.Sends t i ch (peerEp ep)) ↔
    ∀ t i ch ep, r.Sends t i ch ep → ¬ ((r.state t).channel ch).Pending ep := by
  constructor
  · intro h t i ch ep hs hp
    cases r.traffic t ch with
    | quiet _ no_send => exact no_send i ep hs
    | @send j ep' bytes _ _ pos after only no_recv =>
      obtain rfl := only i ep hs
      rcases h t ch ep hp with hsame | ⟨j', hr⟩ | ⟨j', hs'⟩
      · -- the new message is for the other endpoint
        rw [after] at hsame
        exact peerEp_ne ep ((congrArg Channel.msgFor hsame).trans hp.2)
      · exact no_recv j' ep hr
      · exact peerEp_ne ep (only j' _ hs')
    | recv _ _ _ _ no_send => exact no_send i ep hs
  · intro h t ch ep hp
    cases r.traffic t ch with
    | quiet after => exact Or.inl after
    | @send i ep' _ sends =>
      refine Or.inr (Or.inr ⟨i, ?_⟩)
      by_cases he : ep' = ep
      · exact absurd (he ▸ hp) (h t i ch ep' sends)
      · rw [peerEp_eq he]
        exact sends
    | @recv i ep' receives _ pending =>
      obtain rfl := pending.2.symm.trans hp.2
      exact Or.inr (Or.inl ⟨i, receives⟩)

end Run

/-- Two shards that share a channel. -/
def crossOps : List BootOp :=
  [.create emptyImage .normal, .create emptyImage .normal, .channelInit 0 0 1,
    .grant 0 1 0 3#16, .grant 1 1 0 3#16]

set_option maxRecDepth 100000 in
theorem crossOps_ok : (bootAll plainSys crossOps).isSome = true := by decide +kernel

/-- Shard 1 sends and is preempted; then shard 0 sends. -/
def crossRun : Run := plainRun crossOps crossOps_ok
  [.schedule, .syscall 21 0 0x7FF000 1 0, .timer, .schedule, .syscall 21 0 0x7FF000 1 0]

set_option maxRecDepth 100000 in
/-- The message of shard 1 waits for endpoint 0 and has not been received; the send of
shard 0, which is endpoint 0, destroys it. -/
theorem crossRun_destroys_message :
    ((crossRun.state 4).channel 0).Pending 0 ∧
      (crossRun.event 4).returned = some ⟨0, sysChannelSend, 0, 0x7FF000, 1, 0⟩ ∧
      endpointOf ((crossRun.state 4).channel 0) 0 = some 0 ∧
      ¬ ((crossRun.state 5).channel 0).Pending 0 ∧
      ∀ t, t < 5 → ∀ x ∈ (crossRun.event t).returned, x.nr ≠ sysChannelRecv := by
  decide +kernel

end Coconut
