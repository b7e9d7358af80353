import Coconut.Delivery
import Mathlib.Logic.Function.Basic

/-!
# Two programs over one channel

Two shards that only compute and exchange messages over one channel.  A program is given by
what it does next: compute, send, receive, or stop.  The supervisor decides which of the
two takes the next step; a receive that finds no message blocks its shard until the other
one sends.  `offer`, `receive` and `resume` are what `channel::send` and the two halves of
`channel::recv` do to the channel, with the bytes in place of the user buffers
(`send_offer`, `recv_receive`, `resumeRecv_resume`).
-/
namespace Coconut

/-! ## The channel operations -/

namespace Channel

/-- The channel after a send of `bytes`; `none` if the send is refused. -/
def offer (ch : Channel) (sender : Nat) (bytes : List UInt8) : Option Channel :=
  if maxMsgSize < bytes.length ∨ bytes.length = 0 then none
  else if !ch.active then none
  else (endpointOf ch sender).map fun myEp => ch.put bytes bytes.length (peerEp myEp)

/-- The message that waits for an endpoint, and the channel without it. -/
def take (ch : Channel) (myEp : Fin 2) (maxLen : Nat) : Option (List UInt8 × Channel) :=
  if 0 < ch.msgLen && ch.msgFor == myEp then
    some (ch.buffer.readBytes 0 (min ch.msgLen maxLen), ch.clear)
  else none

/-- What a receive comes to. -/
inductive Receipt
  | refused
  | message (bytes : List UInt8) (ch : Channel)
  | wait

/-- A receive up to its yield. -/
def receive (ch : Channel) (receiver maxLen : Nat) : Receipt :=
  if maxLen = 0 then .refused
  else if !ch.active then .refused
  else match endpointOf ch receiver with
    | none => .refused
    | some myEp =>
      match ch.take myEp maxLen with
      | some (bytes, ch) => .message bytes ch
      | none => .wait

/-- The rest of a receive, after its yield. -/
def resume (ch : Channel) (myEp : Fin 2) (maxLen : Nat) : Receipt :=
  match ch.take myEp maxLen with
  | some (bytes, ch) => .message bytes ch
  | none => .refused

end Channel

section Endpoints
variable {x : Channel}

/-- An active channel between two shards. -/
structure Channel.Linked (x : Channel) : Prop where
  active : x.active = true
  distinct : x.shard ep0 ≠ x.shard ep1

theorem Channel.Linked.put (h : x.Linked) (bytes : List UInt8) (len : Nat) (ep : Fin 2) :
    (x.put bytes len ep).Linked := ⟨h.active, h.distinct⟩

theorem Channel.Linked.clear (h : x.Linked) : x.clear.Linked := ⟨h.active, h.distinct⟩

theorem ep_cases (ep : Fin 2) : ep = ep0 ∨ ep = ep1 := by
  revert ep
  decide

theorem Channel.Linked.endpointOf (h : x.Linked) (ep : Fin 2) :
    endpointOf x (x.shard ep) = some ep := by
  unfold Coconut.endpointOf
  rcases ep_cases ep with rfl | rfl
  · rw [if_pos (beq_self_eq_true _)]
  · rw [if_neg (by simpa using h.distinct), if_pos (beq_self_eq_true _)]

theorem Channel.Linked.offer (h : x.Linked) (ep : Fin 2) {bytes : List UInt8}
    (h0 : 0 < bytes.length) (h1 : bytes.length ≤ maxMsgSize) :
    x.offer (x.shard ep) bytes = some (x.put bytes bytes.length (peerEp ep)) := by
  rw [Channel.offer, if_neg (by omega), h.active, h.endpointOf]
  rfl

theorem take_of_pending {ep : Fin 2} (h : x.Pending ep) (maxLen : Nat) :
    x.take ep maxLen = some (x.buffer.readBytes 0 (min x.msgLen maxLen), x.clear) :=
  if_pos (by simpa [Channel.Pending] using h)

theorem take_of_not_pending {ep : Fin 2} (h : ¬ x.Pending ep) (maxLen : Nat) :
    x.take ep maxLen = none :=
  if_neg (by simpa [Channel.Pending] using h)

theorem Channel.Linked.receive (h : x.Linked) (ep : Fin 2) {maxLen : Nat}
    (hlen : 0 < maxLen) : x.receive (x.shard ep) maxLen =
      match x.take ep maxLen with
      | some (bytes, x) => .message bytes x
      | none => .wait := by
  rw [Channel.receive, if_neg (Nat.ne_of_gt hlen), h.active, h.endpointOf]
  rfl

end Endpoints

section Kernel
variable {s s' : Sys} {ch : Nat}

theorem send_offer {sender buf len result : Nat} (hch : ch < maxChannels)
    (h : send s ch sender buf len = .ok (s', result)) :
    (s' = s ∧ result = u64Max ∧ ∀ bytes : List UInt8, bytes.length = len →
      (s.channel ch).offer sender bytes = none) ∨
    (result = 0 ∧ ∃ bytes, copyIn s.ram.mem s.cr3 buf len = .ok bytes ∧
      (s.channel ch).offer sender bytes = some (s'.channel ch)) := by
  unfold send at h
  split at h
  · rename_i hbad
    obtain ⟨rfl, rfl⟩ := Prod.mk.inj (Except.ok.inj h)
    refine Or.inl ⟨rfl, rfl, ?_⟩
    rintro bytes rfl
    exact if_pos (by omega)
  rename_i hgood
  simp only at h
  rcases guard_eq_ok h with ⟨hact, h⟩ | ⟨hact, h⟩
  · obtain ⟨rfl, rfl⟩ := Prod.mk.inj h
    refine Or.inl ⟨rfl, rfl, fun bytes _ => ?_⟩
    rw [Channel.offer, if_pos hact, ite_self]
  split at h
  · rename_i hep
    obtain ⟨rfl, rfl⟩ := Prod.mk.inj (Except.ok.inj h)
    refine Or.inl ⟨rfl, rfl, fun bytes _ => ?_⟩
    rw [Channel.offer, hep, Option.map_none, ite_self, ite_self]
  · rename_i ep hep
    obtain ⟨bytes, hbytes, h⟩ := Kernel.bind_eq_ok h
    obtain ⟨d, hd, h⟩ := Kernel.bind_eq_ok h
    obtain ⟨rfl, rfl⟩ := Prod.mk.inj (Except.ok.inj h)
    refine Or.inr ⟨rfl, bytes, hbytes, ?_⟩
    have hlen := copyIn_length hbytes
    rw [Channel.offer, if_neg (by omega), if_neg (by simpa using hact), hep, hlen]
    exact congrArg some (channel_sent hch).symm

theorem channel_received (hch : ch < maxChannels) (m : Memory) :
    (received s ch m).channel ch = (s.channel ch).clear := by
  unfold received Sys.channel
  rw [Table.getD_modify, if_pos ⟨rfl, hch⟩]

/-- What the two halves of `recv` share, on the channel. -/
theorem takeMessage_take {ep : Fin 2} {buf maxLen : Nat} {o : Option (Sys × Nat)}
    (hch : ch < maxChannels) (h : takeMessage s ch ep buf maxLen = .ok o) :
    (o = none ∧ (s.channel ch).take ep maxLen = none) ∨
    ∃ bytes s', (s.channel ch).take ep maxLen = some (bytes, s'.channel ch) ∧
      copyOut s.ram.mem s.cr3 buf bytes = .ok s'.ram.mem ∧ o = some (s', bytes.length) := by
  rcases takeMessage_effect h with ⟨rfl, hp⟩ | ⟨m, hp, hm, rfl⟩
  · exact Or.inl ⟨rfl, take_of_not_pending hp maxLen⟩
  · refine Or.inr ⟨_, received s ch m, ?_, hm, ?_⟩
    · rw [take_of_pending hp, channel_received hch]
    · rw [Memory.length_readBytes]

/-- `recv` up to its yield. -/
theorem recv_receive {receiver buf maxLen : Nat} {r : Option Nat} (hch : ch < maxChannels)
    (h : recv s ch receiver buf maxLen = .ok (s', r)) :
    match (s.channel ch).receive receiver maxLen with
    | .refused => s' = s ∧ r = some u64Max
    | .message bytes x => copyOut s.ram.mem s.cr3 buf bytes = .ok s'.ram.mem ∧
        s'.channel ch = x ∧ r = some bytes.length
    | .wait => s'.channel ch = s.channel ch ∧ r = none := by
  unfold recv at h
  rw [Channel.receive]
  by_cases hlen : maxLen = 0
  · rw [if_pos (Or.inr hlen)] at h
    rw [if_pos hlen]
    exact Prod.mk.inj (Except.ok.inj h.symm)
  rw [if_neg (by omega)] at h
  rw [if_neg hlen]
  simp only at h
  rcases guard_eq_ok h with ⟨hact, h⟩ | ⟨hact, h⟩
  · rw [if_pos hact]
    exact Prod.mk.inj h
  rw [if_neg (by simpa using hact)]
  cases hep : endpointOf (s.channel ch) receiver with
  | none =>
    simp only [hep] at h
    exact Prod.mk.inj (Except.ok.inj h.symm)
  | some ep =>
    simp only [hep] at h
    obtain ⟨o, ho, h⟩ := Kernel.bind_eq_ok h
    rcases takeMessage_take hch ho with ⟨rfl, ht⟩ | ⟨bytes, s₁, ht, hm, rfl⟩
    · simp only [ht]
      obtain ⟨d, -, h⟩ := Kernel.bind_eq_ok h
      obtain ⟨s₁, hs₁, h⟩ := Kernel.bind_eq_ok h
      obtain ⟨rfl, rfl⟩ := Prod.mk.inj (Except.ok.inj h)
      obtain ⟨-, rfl⟩ := scheduleYield_eq_ok hs₁
      exact ⟨rfl, rfl⟩
    · simp only [ht]
      obtain ⟨rfl, rfl⟩ := Prod.mk.inj (Except.ok.inj h)
      exact ⟨hm, rfl, rfl⟩

/-- `recv` after its yield. -/
theorem resumeRecv_resume {ep : Fin 2} {buf maxLen result : Nat} (hch : ch < maxChannels)
    (h : resumeRecv s ch ep buf maxLen = .ok (s', result)) :
    match (s.channel ch).resume ep maxLen with
    | .refused => s' = s ∧ result = u64Max
    | .message bytes x => copyOut s.ram.mem s.cr3 buf bytes = .ok s'.ram.mem ∧
        s'.channel ch = x ∧ result = bytes.length
    | .wait => False := by
  unfold resumeRecv at h
  rw [Channel.resume]
  obtain ⟨o, ho, h⟩ := Kernel.bind_eq_ok h
  rcases takeMessage_take hch ho with ⟨rfl, ht⟩ | ⟨bytes, s₁, ht, hm, rfl⟩
  · simp only [ht]
    exact Prod.mk.inj (Except.ok.inj h.symm)
  · simp only [ht]
    obtain ⟨rfl, rfl⟩ := Prod.mk.inj (Except.ok.inj h)
    exact ⟨hm, rfl, rfl⟩

end Kernel

/-! ## The two programs -/

/-- What a program does next: the state after the operation, or after the bytes that a
receive has copied into its buffer. -/
inductive Op (σ : Type)
  | work (next : σ)
  | send (bytes : List UInt8) (next : σ)
  | recv (maxLen : Nat) (next : List UInt8 → σ)
  | stop

/-- Whether a shard can run; `woken` is ready again inside a receive. -/
inductive Status
  | ready | blocked | woken
  deriving DecidableEq

structure Process (σ : Type) where
  status : Status
  state : σ

/-- Wake the process if it is blocked. -/
def Process.wake {σ : Type} (x : Process σ) : Process σ :=
  if x.status = .blocked then { x with status := .woken } else x

theorem Process.wake_status {σ : Type} (x : Process σ) : x.wake.status ≠ .blocked := by
  unfold wake
  split
  · nofun
  · assumption

theorem Process.wake_state {σ : Type} (x : Process σ) : x.wake.state = x.state := by
  unfold wake
  split <;> rfl

/-- The channel and the processes at its endpoints. -/
structure Exchange (σ : Type) where
  ch : Channel
  proc : Fin 2 → Process σ

namespace Exchange
variable {σ : Type}

def set (n : Exchange σ) (ep : Fin 2) (x : Process σ) : Exchange σ :=
  { n with proc := Function.update n.proc ep x }

/-- How a receive ends. -/
def received (n : Exchange σ) (ep : Fin 2) (next : List UInt8 → σ) : Channel.Receipt → Exchange σ
  | .refused => n.set ep ⟨.ready, next []⟩
  | .message bytes ch => set { n with ch := ch } ep ⟨.ready, next bytes⟩
  | .wait => n.set ep { n.proc ep with status := .blocked }

/-- How a send ends: the other shard is woken if it is blocked.  The program goes on even
if the send was refused. -/
def sent (n : Exchange σ) (ep : Fin 2) (next : σ) : Option Channel → Exchange σ
  | none => n.set ep ⟨.ready, next⟩
  | some ch =>
    set (set { n with ch := ch } (peerEp ep) (n.proc (peerEp ep)).wake) ep ⟨.ready, next⟩

variable (program : Fin 2 → σ → Op σ)

/-- The process at an endpoint runs up to the end of its next operation; `none` if it cannot
run. -/
def step (ep : Fin 2) (n : Exchange σ) : Option (Exchange σ) :=
  match (n.proc ep).status, program ep (n.proc ep).state with
  | .ready, .work next => some (n.set ep ⟨.ready, next⟩)
  | .ready, .send bytes next => some (n.sent ep next (n.ch.offer (n.ch.shard ep) bytes))
  | .ready, .recv maxLen next => some (n.received ep next (n.ch.receive (n.ch.shard ep) maxLen))
  | .woken, .recv maxLen next => some (n.received ep next (n.ch.resume ep maxLen))
  | _, _ => none

/-- The run in which the processes take their steps in the given order. -/
def exec : List (Fin 2) → Exchange σ → Option (Exchange σ)
  | [], n => some n
  | ep :: eps, n => (step program ep n).bind (exec eps)

/-- The process at `ep` is about to send. -/
def Sends (n : Exchange σ) (ep : Fin 2) : Prop :=
  (n.proc ep).status = .ready ∧ ∃ bytes next, program ep (n.proc ep).state = .send bytes next

variable {program} {n : Exchange σ} {ep : Fin 2}

@[simp] theorem set_ch (x : Process σ) : (n.set ep x).ch = n.ch := rfl

@[simp] theorem set_self (x : Process σ) : (n.set ep x).proc ep = x := Function.update_self ..

theorem set_of_ne (x : Process σ) {ep' : Fin 2} (h : ep' ≠ ep) :
    (n.set ep x).proc ep' = n.proc ep' := Function.update_of_ne h ..

/-! What a step does when the state of the process is known. -/

theorem step_work {next : σ} (hs : (n.proc ep).status = .ready)
    (hp : program ep (n.proc ep).state = .work next) :
    step program ep n = some (n.set ep ⟨.ready, next⟩) := by
  simp only [step, hs, hp]

theorem step_send (hl : n.ch.Linked) {bytes : List UInt8} {next : σ}
    (hs : (n.proc ep).status = .ready) (hp : program ep (n.proc ep).state = .send bytes next)
    (h0 : 0 < bytes.length) (h1 : bytes.length ≤ maxMsgSize) :
    ∃ n', step program ep n = some n' ∧ n'.ch = n.ch.put bytes bytes.length (peerEp ep) ∧
      n'.proc ep = ⟨.ready, next⟩ ∧ n'.proc (peerEp ep) = (n.proc (peerEp ep)).wake := by
  refine ⟨n.sent ep next (some (n.ch.put bytes bytes.length (peerEp ep))), ?_, rfl, set_self _,
    (set_of_ne _ (peerEp_ne ep)).trans (set_self _)⟩
  simp only [step, hs, hp, hl.offer ep h0 h1]

theorem step_recv (hl : n.ch.Linked) {maxLen : Nat} {next : List UInt8 → σ}
    (hs : (n.proc ep).status ≠ .blocked) (hp : program ep (n.proc ep).state = .recv maxLen next)
    (h0 : 0 < maxLen) (hm : n.ch.Pending ep) :
    step program ep n = some (set { n with ch := n.ch.clear } ep
      ⟨.ready, next (n.ch.buffer.readBytes 0 (min n.ch.msgLen maxLen))⟩) := by
  cases hst : (n.proc ep).status with
  | ready => simp only [step, hst, hp, hl.receive ep h0, take_of_pending hm, received]
  | blocked => exact absurd hst hs
  | woken => simp only [step, hst, hp, Channel.resume, take_of_pending hm, received]

theorem step_block (hl : n.ch.Linked) {maxLen : Nat} {next : List UInt8 → σ}
    (hs : (n.proc ep).status = .ready) (hp : program ep (n.proc ep).state = .recv maxLen next)
    (h0 : 0 < maxLen) (hm : ¬ n.ch.Pending ep) :
    step program ep n = some (n.set ep ⟨.blocked, (n.proc ep).state⟩) := by
  simp only [step, hs, hp, hl.receive ep h0, take_of_not_pending hm, received]

theorem step_blocked (hs : (n.proc ep).status = .blocked) : step program ep n = none := by
  simp only [step, hs]

theorem step_stop (hp : program ep (n.proc ep).state = .stop) : step program ep n = none := by
  cases hst : (n.proc ep).status <;> simp only [step, hst, hp]

/-- A process that is ready can run unless its program has stopped. -/
theorem step_of_ready (hs : (n.proc ep).status = .ready)
    (hp : program ep (n.proc ep).state ≠ .stop) : step program ep n ≠ none := by
  unfold step
  rw [hs]
  cases h : program ep (n.proc ep).state with
  | stop => exact absurd h hp
  | work | send | recv => nofun

/-- A process inside a receive can run unless it is blocked. -/
theorem step_of_recv {maxLen : Nat} {next : List UInt8 → σ}
    (hs : (n.proc ep).status ≠ .blocked)
    (hp : program ep (n.proc ep).state = .recv maxLen next) : step program ep n ≠ none := by
  unfold step
  rw [hp]
  cases h : (n.proc ep).status with
  | blocked => exact absurd h hs
  | ready | woken => nofun

/-- An invariant that bounds a measure which every step raises bounds the runs. -/
theorem exec_inv {P : Exchange σ → Prop} {m : Exchange σ → Nat}
    (hstep : ∀ n ep n', P n → step program ep n = some n' → P n' ∧ m n < m n') {eps : List (Fin 2)}
    {n n' : Exchange σ} (h : P n) (hexec : exec program eps n = some n') :
    P n' ∧ m n + eps.length ≤ m n' := by
  induction eps generalizing n with
  | nil =>
    obtain rfl := Option.some.inj hexec
    exact ⟨h, Nat.le_refl _⟩
  | cons ep eps ih =>
    obtain ⟨n₁, h1, h2⟩ := Option.bind_eq_some_iff.mp hexec
    obtain ⟨hP, hlt⟩ := hstep n ep n₁ h h1
    obtain ⟨hP', hle⟩ := ih hP h2
    exact ⟨hP', by rw [List.length_cons]; omega⟩

end Exchange

end Coconut
