import Coconut.Effects

/-!
# The control machine

What the supervisor decides about shards, channels and capabilities, without memory:
an abstract machine whose steps are the effects of syscalls and of the run loop.  Its
state is the projection `Sys.control`; its steps name the shard that acts and the
checks that let it.  That every step of the system is a step of this machine is
`step_control`, in the module on refinement.

The invariants of scheduling, message passing and capabilities are proved for this
machine and read back through the refinement.
-/
namespace Coconut

/-- The fields of a descriptor that decide. -/
structure ShardControl where
  state : ShardState
  priority : Priority
  savedContext : SavedContext
  blockedOnChannel : Nat
  caps : Table maxCapsPerShard CapEntry
  gpuPledge : Nat

/-- What remains of an exited shard. -/
def ShardControl.destroy (x : ShardControl) : ShardControl :=
  { x with state := .destroyed, caps := fun _ => CapEntry.empty }

def ShardDescriptor.control (d : ShardDescriptor) : ShardControl :=
  ⟨d.state, d.priority, d.savedContext, d.blockedOnChannel, d.caps, d.gpuPledge⟩

/-- The state of the control machine.  Slots out of range are free. -/
structure Control where
  shard : Nat → ShardControl
  channel : Nat → Channel
  currentShard : Nat
  lastScheduled : Nat
  mode : Mode

/-- `SHARDS[id]` as a total function. -/
def Sys.desc (s : Sys) (id : Nat) : ShardDescriptor := s.shards.getD id ShardDescriptor.initial

def Sys.control (s : Sys) : Control where
  shard i := (s.desc i).control
  channel := s.channel
  currentShard := s.currentShard
  lastScheduled := s.lastScheduled
  mode := s.mode

namespace Control

/-- Replace the control of one shard. -/
def setShard (c : Control) (i : Nat) (x : ShardControl) : Control :=
  { c with shard := fun j => if j = i then x else c.shard j }

/-- Replace one channel. -/
def setChannel (c : Control) (i : Nat) (ch : Channel) : Control :=
  { c with channel := fun j => if j = i then ch else c.channel j }

@[simp] theorem setShard_self (c : Control) (i : Nat) (x : ShardControl) :
    (c.setShard i x).shard i = x := if_pos rfl

theorem setShard_of_ne (c : Control) {i j : Nat} (x : ShardControl) (h : j ≠ i) :
    (c.setShard i x).shard j = c.shard j := if_neg h

@[simp] theorem setShard_channel (c : Control) (i : Nat) (x : ShardControl) :
    (c.setShard i x).channel = c.channel := rfl

@[simp] theorem setChannel_self (c : Control) (i : Nat) (ch : Channel) :
    (c.setChannel i ch).channel i = ch := if_pos rfl

theorem setChannel_of_ne (c : Control) {i j : Nat} (ch : Channel) (h : j ≠ i) :
    (c.setChannel i ch).channel j = c.channel j := if_neg h

@[simp] theorem setChannel_shard (c : Control) (i : Nat) (ch : Channel) :
    (c.setChannel i ch).shard = c.shard := rfl

/-- Slot `i` holds a ready shard of the given priority. -/
def readyAt (c : Control) (prio : Priority) (i : Nat) : Bool :=
  (c.shard i).state == .ready && (c.shard i).priority == prio

/-- The shard `pick_next_ready` selects. -/
def pick (c : Control) : Option Nat :=
  [Priority.critical, .high, .normal, .low].findSome? fun prio =>
    nextCyclic (c.readyAt prio) maxShards c.lastScheduled

/-- The acting shard, in user mode, with a pledge that allows syscall `nr`. -/
structure Acts (c : Control) (i nr : Nat) : Prop where
  mode : c.mode = .user
  current : c.currentShard = i
  lt : i < maxShards
  pledge : pledgeAllows (c.shard i).gpuPledge nr = true

/-- The acting shard uses channel `ch` as endpoint `ep`, by a capability with the right
`right`. -/
structure Uses (c : Control) (i nr ch : Nat) (ep : Fin 2) (right : BitVec 16) : Prop
    extends Acts c i nr where
  channel_lt : ch < maxChannels
  cap : capsGive (c.shard i).caps capChannel ch right = true
  active : (c.channel ch).active = true
  endpoint : endpointOf (c.channel ch) i = some ep

/-- Wake shard `j` if it is blocked on channel `ch`. -/
def wake (c : Control) (j ch : Nat) : Control :=
  if (c.shard j).state = .blocked ∧ (c.shard j).blockedOnChannel = ch then
    c.setShard j { c.shard j with state := .ready, blockedOnChannel := u64Max }
  else c

theorem wake_shard (c : Control) (j ch i : Nat) :
    (c.wake j ch).shard i = c.shard i ∨
      (i = j ∧ (c.shard i).state = .blocked ∧ (c.shard i).blockedOnChannel = ch ∧
        (c.wake j ch).shard i = { c.shard i with state := .ready, blockedOnChannel := u64Max }) := by
  unfold wake
  split
  · rename_i hw
    by_cases hi : i = j
    · subst hi
      exact Or.inr ⟨rfl, hw.1, hw.2, setShard_self ..⟩
    · exact Or.inl (setShard_of_ne _ _ hi)
  · exact Or.inl rfl

theorem wake_mode (c : Control) (j ch : Nat) : (c.wake j ch).mode = c.mode := by
  unfold wake
  split <;> rfl

theorem wake_current (c : Control) (j ch : Nat) : (c.wake j ch).currentShard = c.currentShard := by
  unfold wake
  split <;> rfl

/-- Shard `i` is suspended in `context`, and the supervisor chooses. -/
def suspend (c : Control) (i : Nat) (x : ShardControl) (context : SavedContext) : Control :=
  { c.setShard i { x with savedContext := context } with mode := .choosing }

/-- Shard `i` has been switched to. -/
def switch (c : Control) (i : Nat) : Control :=
  { c.setShard i { c.shard i with state := .running } with
    lastScheduled := i, currentShard := i, mode := .user }

/-- Every exited shard has been destroyed, and the run loop has ended. -/
def finish (c : Control) : Control :=
  { c with
    shard := fun i => if (c.shard i).state = .exited then (c.shard i).destroy else c.shard i
    mode := .halted }

theorem finish_of_exited {c : Control} {i : Nat} (h : (c.shard i).state = .exited) :
    c.finish.shard i = (c.shard i).destroy := if_pos h

theorem finish_of_ne {c : Control} {i : Nat} (h : (c.shard i).state ≠ .exited) :
    c.finish.shard i = c.shard i := if_neg h

/-- The table of shard `j` with slot `slot` replaced. -/
def setCap (c : Control) (j slot : Nat) (f : CapEntry → CapEntry) : Control :=
  c.setShard j { c.shard j with caps := (c.shard j).caps.modify slot f }

/-- The entry at a handle. -/
def cap (c : Control) (i handle : Nat) : CapEntry := (c.shard i).caps.getD handle CapEntry.empty

end Control

/-- What a step of the control machine is. -/
inductive Label where
  | silent
  | pledge (i mask : Nat)
  | grant (i handle target slot : Nat) (rights : BitVec 16)
  | revoke (i handle : Nat)
  | restrict (i handle : Nat) (rights : BitVec 16)
  | send (i ch : Nat) (ep : Fin 2) (bytes : List UInt8)
  | take (i ch : Nat) (ep : Fin 2) (maxLen : Nat)
  | block (i ch : Nat) (ep : Fin 2) (buf maxLen : Nat)
  | yield (i : Nat) (context : SavedContext)
  | exit (i : Nat)
  | select (i : Nat)
  | selectTake (i ch : Nat) (ep : Fin 2) (buf maxLen : Nat)
  | selectEmpty (i ch : Nat) (ep : Fin 2)
  | halt

/-- No message has been sent or delivered: a send or receive that returned has failed. -/
def Event.Quiet (ev : Event) : Prop :=
  ∀ x, ev.returned = some x → x.nr = sysChannelSend ∨ x.nr = sysChannelRecv → x.result = u64Max

/-- What an observer sees of a step from `c`. -/
def Label.Shows (c : Control) (ev : Event) : Label → Prop
  | .send i ch _ bytes => ∃ buf, ev = ⟨none, some ⟨i, sysChannelSend, ch, buf, bytes.length, 0⟩⟩
  | .grant i handle target slot rights => ∃ a2, rights = BitVec.ofNat 16 a2 ∧
    ev = ⟨none, some ⟨i, sysCapGrant, handle, target, a2, slot⟩⟩
  | .take i ch _ maxLen => ∃ buf,
    ev = ⟨none, some ⟨i, sysChannelRecv, ch, buf, maxLen, min (c.channel ch).msgLen maxLen⟩⟩
  | .selectTake i ch _ buf maxLen =>
    ev = ⟨some i, some ⟨i, sysChannelRecv, ch, buf, maxLen, min (c.channel ch).msgLen maxLen⟩⟩
  | .select i => ev.selected = some i ∧ ev.Quiet
  | .selectEmpty i _ _ => ev.selected = some i ∧ ev.Quiet
  | _ => ev.selected = none ∧ ev.Quiet

/-- A system call. -/
def Action.IsCall : Action → Prop
  | .syscall .. => True
  | _ => False

/-- Which actions a step stands for. -/
def Label.By (a : Action) : Label → Prop
  | .yield _ context => context = .timerPreempt ∧ a = .timer ∨ context = .sysYield ∧ a.IsCall
  | .block .. => a.IsCall
  | .exit _ => a.mode = .user
  | .select .. | .selectTake .. | .selectEmpty .. | .halt => a = .schedule
  | .silent | .pledge .. | .grant .. | .revoke .. | .restrict .. | .send .. | .take .. =>
    a.IsCall ∨ ∃ virt b, a = .store virt b

namespace Control

/-- The steps of the control machine. -/
inductive Step (c : Control) : Label → Control → Prop
  | silent : Step c .silent c
  | pledge {i mask : Nat} (acts : Acts c i sysGpuPledge) : Step c (.pledge i mask)
      (c.setShard i { c.shard i with gpuPledge := (c.shard i).gpuPledge &&& mask })
  | grant {i handle target slot : Nat} {rights : BitVec 16} (acts : Acts c i sysCapGrant)
      (handle_lt : handle < maxCapsPerShard) (target_lt : target < maxShards)
      (slot_lt : slot < maxCapsPerShard) (live : (c.shard target).state.isLive = true)
      (valid : (c.cap i handle).valid = true)
      (grant : (c.cap i handle).capType = capChannel →
        (c.cap i handle).rights &&& rightChannelGrant ≠ 0#16)
      (unused : (c.cap target slot).valid = false) :
      Step c (.grant i handle target slot rights) (c.setCap target slot fun _ =>
        ⟨true, (c.cap i handle).capType, (c.cap i handle).resourceId,
          (c.cap i handle).rights &&& rights⟩)
  | revoke {i handle : Nat} (acts : Acts c i sysCapRevoke) (handle_lt : handle < maxCapsPerShard) :
      Step c (.revoke i handle) (c.setCap i handle fun _ => CapEntry.empty)
  | restrict {i handle : Nat} {rights : BitVec 16} (acts : Acts c i sysCapRestrict)
      (handle_lt : handle < maxCapsPerShard) :
      Step c (.restrict i handle rights)
        (c.setCap i handle fun e => { e with rights := e.rights &&& rights })
  | send {i ch : Nat} {ep : Fin 2} {bytes : List UInt8}
      (uses : Uses c i sysChannelSend ch ep rightChannelSend)
      (pos : 0 < bytes.length) (le : bytes.length ≤ maxMsgSize)
      (peer_lt : (c.channel ch).shard (peerEp ep) < maxShards) :
      Step c (.send i ch ep bytes)
        ((c.setChannel ch ((c.channel ch).put bytes bytes.length (peerEp ep))).wake
          ((c.channel ch).shard (peerEp ep)) ch)
  | take {i ch maxLen : Nat} {ep : Fin 2} (uses : Uses c i sysChannelRecv ch ep rightChannelRecv)
      (pending : (c.channel ch).Pending ep) (pos : 0 < maxLen) :
      Step c (.take i ch ep maxLen) (c.setChannel ch (c.channel ch).clear)
  | block {i ch buf maxLen : Nat} {ep : Fin 2}
      (uses : Uses c i sysChannelRecv ch ep rightChannelRecv)
      (empty : ¬ (c.channel ch).Pending ep) (pos : 0 < maxLen) :
      Step c (.block i ch ep buf maxLen)
        (c.suspend i { c.shard i with state := .blocked, blockedOnChannel := ch }
          (.channelRecv ch ep buf maxLen))
  | yield {i : Nat} {context : SavedContext} (mode : c.mode = .user) (current : c.currentShard = i)
      (lt : i < maxShards) (context_ne : ∀ ch ep buf maxLen, context ≠ .channelRecv ch ep buf maxLen) :
      Step c (.yield i context)
        (c.suspend i { c.shard i with
          state := if (c.shard i).state = .running then .ready else (c.shard i).state } context)
  | exit {i : Nat} (mode : c.mode = .user) (current : c.currentShard = i) (lt : i < maxShards) :
      Step c (.exit i) { c.setShard i { c.shard i with state := .exited } with
        currentShard := u64Max, mode := .choosing }
  | select {i : Nat} (mode : c.mode = .choosing) (picked : c.pick = some i) (lt : i < maxShards)
      (context : ∀ ch ep buf maxLen, (c.shard i).savedContext ≠ .channelRecv ch ep buf maxLen) :
      Step c (.select i) (c.switch i)
  | selectTake {i ch buf maxLen : Nat} {ep : Fin 2} (mode : c.mode = .choosing)
      (picked : c.pick = some i) (lt : i < maxShards)
      (context : (c.shard i).savedContext = .channelRecv ch ep buf maxLen)
      (pending : (c.channel ch).Pending ep) :
      Step c (.selectTake i ch ep buf maxLen) ((c.switch i).setChannel ch (c.channel ch).clear)
  | selectEmpty {i ch buf maxLen : Nat} {ep : Fin 2} (mode : c.mode = .choosing)
      (picked : c.pick = some i) (lt : i < maxShards)
      (context : (c.shard i).savedContext = .channelRecv ch ep buf maxLen)
      (empty : ¬ (c.channel ch).Pending ep) : Step c (.selectEmpty i ch ep) (c.switch i)
  | halt (mode : c.mode = .choosing) (none_ready : c.pick = none)
      (done : ∀ i, (c.shard i).state.isLive = false) :
      Step c .halt c.finish

end Control
end Coconut
