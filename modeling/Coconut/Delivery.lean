import Coconut.Messages
import Coconut.Validation

/-!
# Delivery of messages

A message is followed from the buffer of its sender through the channel to the buffer of
its receiver.  `pending_sent` finds, for a message that waits in a channel, the send it
comes from: nothing has happened on the channel since.  The two copies then say that the
receiver finds the sender's bytes.
-/
namespace Coconut
open Paging

/-- The byte that user code of shard `i` reads at `virt`. -/
def Sys.userByte (s : Sys) (i virt : Nat) : Option UInt8 :=
  byteAt s.ram.mem (s.desc i).pml4Phys virt

/-! ## One send, one receive -/

/-- What the send that returned `y` has done. -/
structure Sent (s s' : Sys) (y : Returned) (ep : Fin 2) (bytes : List UInt8) : Prop where
  endpoint : endpointOf (s.channel y.a0) y.shard = some ep
  copied : copyIn s.ram.mem (s.desc y.shard).pml4Phys y.a1 y.a2 = .ok bytes
  after : s'.channel y.a0 = (s.channel y.a0).put bytes y.a2 (peerEp ep)

theorem channel_sent {s : Sys} {ch len : Nat} {ep : Fin 2} {bytes : List UInt8} (h : ch < maxChannels) :
    (sent s ch len ep bytes).channel ch = (s.channel ch).put bytes len (peerEp ep) := by
  unfold sent wake Sys.channel Sys.modifyShard
  rw [Table.getD_modify, if_pos ⟨rfl, h⟩]

theorem Answer.sent {s s' : Sys} {y : Returned} (h : Answer s s' y) (hnr : y.nr = sysChannelSend)
    (hres : y.result = 0) : ∃ ep bytes, Sent s s' y ep bytes := by
  cases h with
  | refused result =>
    rw [hres] at result
    cases result
  | syscall _ shard effect =>
    rw [hnr, hres] at effect
    rcases effect.send_cases with ⟨-, hr⟩ | ⟨ep, bytes, ok, rfl, -⟩
    · cases hr
    · refine ⟨ep, bytes, ?_, ?_, channel_sent ok.lt⟩
      · rw [shard]
        exact ok.endpoint
      · rw [shard]
        exact ok.copied
  | yield nr =>
    rw [hnr] at nr
    cases nr
  | recv nr =>
    rw [hnr] at nr
    cases nr

/-- What the receive that returned the message `x` has done. -/
structure Taken (s s' : Sys) (x : Returned) (ep : Fin 2) : Prop where
  created : (s.desc x.shard).state ≠ .free
  endpoint : endpointOf (s.channel x.a0) x.shard = some ep
  pending : (s.channel x.a0).Pending ep
  valid : InRegion (writeRegions (s.desc x.shard)) x.a1 x.a2
  result : x.result = min (s.channel x.a0).msgLen x.a2
  copied : copyOut s.ram.mem (s.desc x.shard).pml4Phys x.a1
    ((s.channel x.a0).buffer.readBytes 0 x.result) = .ok s'.ram.mem
  root : (s'.desc x.shard).pml4Phys = (s.desc x.shard).pml4Phys

theorem switched_pml4Phys (s : Sys) (id i : Nat) :
    ((switched s id).desc i).pml4Phys = (s.desc i).pml4Phys :=
  congrArg Space.pml4Phys (keeps_modifyShard s id (fun d => { d with state := .running })
    (fun _ => ⟨rfl, Or.inl rfl⟩) i).space

theorem Answer.taken {s s' : Sys} {x : Returned} (h : Answer s s' x) (hc : s.control.Inv)
    (hlive : s.control.CurrentLive) (hd : ∀ i, DescOk (s.desc i)) (hnr : x.nr = sysChannelRecv)
    (hres : x.result ≠ u64Max) : ∃ ep, Taken s s' x ep := by
  cases h with
  | refused result => exact absurd result hres
  | syscall lt shard effect =>
    rw [hnr] at effect
    rcases effect.recv_cases with ⟨-, hr⟩ | hr | ⟨ep, m, ok, pending, copied, rfl, hr⟩
    · exact absurd (Option.some.inj hr) hres
    · cases hr
    · have hr := Option.some.inj hr
      rw [← hr] at copied
      obtain ⟨i, nr, a0, a1, a2, result⟩ := x
      subst shard
      exact ⟨ep, (Sys.hasSpace_of_isLive (hlive lt)).1, ok.endpoint, pending, ok.valid, hr, copied, rfl⟩
  | yield nr =>
    rw [hnr] at nr
    cases nr
  | @recv ep m _ lt picked context pending copied after result =>
    have hready : (s.desc x.shard).state = .ready := Control.pick_ready hc.last_lt picked
    have hrecv := ((hc.shards x.shard).woken hready x.a0 ep x.a1 x.a2 context).1
    have hvalid := (hd x.shard).waiting x.a1 x.a2 (by
      unfold ShardDescriptor.waits
      rw [show (s.desc x.shard).savedContext = _ from context])
    subst after
    rw [show (switched s x.shard).cr3 = ((switched s x.shard).desc x.shard).pml4Phys from rfl,
      switched_pml4Phys, ← result] at copied
    exact ⟨ep, by rw [hready]; decide, hrecv.endpoint, pending, hvalid, result, copied,
      switched_pml4Phys s x.shard x.shard⟩

/-! ## The send a message comes from -/

/-- A send on channel `ch` returned success. -/
def Event.SendsOn (ev : Event) (ch : Nat) : Prop :=
  ∃ y, ev.returned = some y ∧ y.nr = sysChannelSend ∧ y.a0 = ch ∧ y.result = 0

/-- A receive on channel `ch` returned a message. -/
def Event.ReceivesOn (ev : Event) (ch : Nat) : Prop :=
  ∃ x, ev.returned = some x ∧ x.nr = sysChannelRecv ∧ x.a0 = ch ∧ x.result ≠ u64Max

namespace Run
variable (r : Run)

/-- Nothing is sent or received on channel `ch` from time `u` up to time `t`. -/
def Idle (ch u t : Nat) : Prop :=
  ∀ v, u ≤ v → v < t → ¬ (r.event v).SendsOn ch ∧ ¬ (r.event v).ReceivesOn ch

theorem taken {t : Nat} {x : Returned} (hx : (r.event t).returned = some x)
    (hnr : x.nr = sysChannelRecv) (hres : x.result ≠ u64Max) :
    ∃ ep, Taken (r.state t) (r.state (t + 1)) x ep := by
  obtain ⟨hm, hanswer⟩ := r.answer hx
  exact hanswer.taken (r.control_inv t) (r.currentLive t) (r.descs t hm) hnr hres

theorem not_sendsOn {t ch : Nat} (h : ∀ i ep, ¬ r.Sends t i ch ep) : ¬ (r.event t).SendsOn ch := by
  rintro ⟨⟨i, nr, a0, buf, len, result⟩, hy, hnr, rfl, hres⟩
  obtain ⟨ep, bytes, hsent⟩ := (r.answer hy).2.sent hnr hres
  cases hnr
  cases hres
  exact h i ep ⟨buf, len, hy, hsent.endpoint⟩

theorem not_receivesOn {t ch : Nat} (h : ∀ i ep, ¬ r.Receives t i ch ep) :
    ¬ (r.event t).ReceivesOn ch := by
  rintro ⟨⟨i, nr, a0, buf, maxLen, result⟩, hx, hnr, rfl, hres⟩
  obtain ⟨ep, htaken⟩ := r.taken hx hnr hres
  cases hnr
  exact h i ep ⟨buf, maxLen, result, hx, hres, htaken.endpoint⟩

/-- **A message that waits comes from the latest send on its channel**, made by the other
endpoint, and has not been received. -/
theorem pending_sent {t ch : Nat} {ep : Fin 2} (h : ((r.state t).channel ch).Pending ep) :
    ∃ u y bytes, u < t ∧ (r.event u).returned = some y ∧ y.nr = sysChannelSend ∧ y.a0 = ch ∧
      y.result = 0 ∧ Sent (r.state u) (r.state (u + 1)) y (peerEp ep) bytes ∧
      (r.state t).channel ch = (r.state (u + 1)).channel ch ∧ r.Idle ch (u + 1) t := by
  induction t with
  | zero =>
    have hempty : ((r.state 0).channel ch).msgLen = 0 := r.booted.fresh.empty ch
    exact absurd h.1 (by omega)
  | succ t ih =>
    cases r.traffic t ch with
    | quiet after no_send no_recv =>
      rw [after] at h
      obtain ⟨u, y, bytes, hu, hy, hnr, hch, hres, hsent, hsame, hidle⟩ := ih h
      refine ⟨u, y, bytes, Nat.lt_succ_of_lt hu, hy, hnr, hch, hres, hsent, after.trans hsame,
        fun v h1 h2 => ?_⟩
      rcases Nat.lt_succ_iff_lt_or_eq.mp h2 with hv | rfl
      · exact hidle v h1 hv
      · exact ⟨r.not_sendsOn no_send, r.not_receivesOn no_recv⟩
    | @send i ep' _ sends _ _ after =>
      obtain ⟨buf, len, hy, hep⟩ := sends
      obtain ⟨ep'', bytes, hsent⟩ := (r.answer hy).2.sent rfl rfl
      obtain rfl := Option.some.inj (hsent.endpoint.symm.trans hep)
      -- the message is for the endpoint that does not send
      have hfor : peerEp ep'' = ep := by
        have hp := h.2
        rw [after] at hp
        exact hp
      have hself : peerEp ep = ep'' := peerEp_eq fun he => peerEp_ne ep'' (hfor.trans he.symm)
      rw [← hself] at hsent
      exact ⟨t, _, bytes, Nat.lt_succ_self t, hy, rfl, rfl, rfl, hsent, rfl,
        fun v h1 h2 => absurd h2 (by omega)⟩
    | recv _ _ _ after =>
      rw [after] at h
      exact absurd h.1 (Nat.lt_irrefl 0)

end Run

/-! ## Integrity -/

/-- The receive that returned `x` at time `t` delivers the message that the send that
returned `y` at time `u` has sent. -/
structure Delivers (r : Run) (t : Nat) (x : Returned) (u : Nat) (y : Returned) : Prop where
  before : u < t
  sent : (r.event u).returned = some y ∧ y.nr = sysChannelSend ∧ y.a0 = x.a0 ∧ y.result = 0
  /-- Sender and receiver are the two endpoints of the channel. -/
  endpoints : ∃ ep, endpointOf ((r.state t).channel x.a0) x.shard = some ep ∧
    endpointOf ((r.state t).channel x.a0) y.shard = some (peerEp ep)
  other : y.shard ≠ x.shard
  /-- It is the latest message, and has not been delivered before. -/
  latest : r.Idle x.a0 (u + 1) t
  length : x.result = min y.a2 x.a2
  /-- The receiver finds the bytes that the sender had in its buffer. -/
  bytes : ∀ k, k < x.result → ∃ b, (r.state u).userByte y.shard (y.a1 + k) = some b ∧
    (r.state (t + 1)).userByte x.shard (x.a1 + k) = some b

/-- Bytes copied to a buffer of shard `i` are found there. -/
theorem Spaces.byteAt_copyOut {s : Sys} {own : Owners Nat} {isRam : Nat → Prop} {i buf len : Nat}
    {bytes : List UInt8} {m : Memory} (hok : Spaces own isRam s) (hcreated : (s.desc i).state ≠ .free)
    (valid : InRegion (writeRegions (s.desc i)) buf len) (hle : bytes.length ≤ len)
    (copied : copyOut s.ram.mem (s.desc i).pml4Phys buf bytes = .ok m) {k : Nat}
    (hk : k < bytes.length) : byteAt m (s.desc i).pml4Phys (buf + k) = bytes[k]? := by
  have hspace := hok.shard i hcreated
  obtain ⟨hlow, hw⟩ := hspace.writableRam hok.ram.tables valid hle
  exact copyOut_getElem hspace.root hok.ram.tables hlow hw copied hk

/-- The bytes of the channel are in the buffer of the receiver. -/
theorem Taken.userByte {s s' : Sys} {x : Returned} {ep : Fin 2} {own : Owners Nat}
    {isRam : Nat → Prop} (h : Taken s s' x ep) (hok : Spaces own isRam s) {k : Nat}
    (hk : k < x.result) : s'.userByte x.shard (x.a1 + k) =
      ((s.channel x.a0).buffer.readBytes 0 x.result)[k]? := by
  have hlen := (s.channel x.a0).buffer.length_readBytes 0 x.result
  rw [Sys.userByte, h.root]
  refine hok.byteAt_copyOut h.created h.valid ?_ h.copied (hlen.symm ▸ hk)
  rw [hlen, h.result]
  exact Nat.min_le_right _ _

namespace Run
variable (r : Run)

theorem delivers {t : Nat} {x : Returned} (hx : (r.event t).returned = some x)
    (hnr : x.nr = sysChannelRecv) (hres : x.result ≠ u64Max) : ∃ u y, Delivers r t x u y := by
  obtain ⟨ep, htaken⟩ := r.taken hx hnr hres
  obtain ⟨u, y, bytes, hu, hy, hynr, hch, hyres, hsent, hsame, hidle⟩ := r.pending_sent htaken.pending
  obtain ⟨own, hok⟩ := r.spaces t (r.answer hx).1
  rw [← hch, hsent.after, hch] at hsame
  have hend : endpointOf ((r.state t).channel x.a0) y.shard = some (peerEp ep) := by
    rw [hsame, ← hch]
    exact hsent.endpoint
  have hlen : x.result = min y.a2 x.a2 := by
    rw [htaken.result, hsame]
    rfl
  have hbytes := copyIn_length hsent.copied
  refine ⟨u, y, hu, ⟨hy, hynr, hch, hyres⟩, ⟨ep, htaken.endpoint, hend⟩, fun he => ?_, hidle, hlen,
    fun k hk => ?_⟩
  · rw [he, htaken.endpoint] at hend
    exact peerEp_ne ep (Option.some.inj hend).symm
  · have hk' : k < y.a2 := by omega
    have hread := htaken.userByte hok hk
    rw [hsame, Channel.put, Memory.readBytes_writeBytes _ (by omega) hk,
      List.getElem?_eq_getElem (by omega)] at hread
    have hwrite : (r.state u).userByte y.shard (y.a1 + k) = bytes[k]? :=
      copyIn_getElem hsent.copied hk'
    rw [List.getElem?_eq_getElem (by omega)] at hwrite
    exact ⟨_, hwrite, hread⟩

/-- A suspended receive that is picked returns a message. -/
theorem resumes {t i ch buf maxLen : Nat} {ep : Fin 2}
    (hpick : pickNextReady (r.state t).shards (r.state t).lastScheduled = some i)
    (hm : (r.state t).mode = .choosing)
    (hc : ((r.state t).desc i).savedContext = .channelRecv ch ep buf maxLen) :
    ∃ s' n, step (r.state t) .schedule =
      .ok (s', ⟨some i, some ⟨i, sysChannelRecv, ch, buf, maxLen, n⟩⟩) ∧ 0 < n ∧ n ≠ u64Max := by
  have hm' : (r.state t).mode ≠ .halted := by
    rw [hm]
    decide
  have hready : ((r.state t).desc i).state = .ready :=
    Control.pick_ready (r.control_inv t).last_lt hpick
  have hi : i < maxShards := by
    apply Nat.lt_of_not_le
    intro hge
    rw [Sys.desc_of_ge hge] at hready
    cases hready
  obtain ⟨-, hpending⟩ := ((r.control_inv t).shards i).woken hready ch ep buf maxLen hc
  have hvalid := (r.descs t hm' i).waiting buf maxLen (by rw [ShardDescriptor.waits, hc])
  obtain ⟨own, hok⟩ := r.spaces t hm'
  have hspace := hok.shard i (by rw [hready]; decide)
  obtain ⟨hlow, hw⟩ := hspace.writableRam hok.ram.tables hvalid
    (Nat.min_le_right ((r.state t).channel ch).msgLen maxLen)
  rw [← ((r.state t).channel ch).buffer.length_readBytes 0 (min _ maxLen)] at hlow hw
  obtain ⟨m, hcopied⟩ := copyOut_eq_ok hspace.root hok.ram.tables hlow hw
  rw [← switched_pml4Phys (r.state t) i i] at hcopied
  refine ⟨_, _, schedule_of_pending hpick hi hc hpending hcopied, ?_, ?_⟩
  · exact Nat.lt_min.mpr ⟨hpending.1, hvalid.pos⟩
  · have := r.msgLen_le t ch
    simp only [maxMsgSize, u64Max] at this ⊢
    omega

/-- **Delivery integrity.**  Every receive that returns a count delivers that many bytes
of the latest message sent on the channel, which the other endpoint has sent and which has
not been delivered before; and a receive that has blocked returns a message when its shard
is switched to. -/
theorem delivery_integrity :
    (∀ t x, (r.event t).returned = some x → x.nr = sysChannelRecv → x.result ≠ u64Max →
      ∃ u y, Delivers r t x u y) ∧
    ∀ t i ch ep buf maxLen, (r.state t).mode = .choosing →
      pickNextReady (r.state t).shards (r.state t).lastScheduled = some i →
      ((r.state t).desc i).savedContext = .channelRecv ch ep buf maxLen →
      ∃ s' n, step (r.state t) .schedule =
        .ok (s', ⟨some i, some ⟨i, sysChannelRecv, ch, buf, maxLen, n⟩⟩) ∧ 0 < n ∧ n ≠ u64Max :=
  ⟨fun _ _ hx hnr hres => r.delivers hx hnr hres,
    fun _ _ _ _ _ _ hm hpick hc => r.resumes hpick hm hc⟩

end Run
end Coconut
