import Coconut.State
import Coconut.Vmm

/-!
# IPC channels

A channel connects two endpoints and has one message buffer.  A receive on a channel
without a message for the caller blocks: the shard is marked, and `schedule_yield`
switches to the run loop.  What follows the yield in `channel::recv` is
`resumeRecv`, which runs when the shard is switched to again.
-/
namespace Coconut

/-- Initialize a channel between two shards. -/
def channelInit (channels : Table maxChannels Channel) (channelId shardA shardB : Nat) :
    Kernel (Table maxChannels Channel) := do
  assertThat (channelId < maxChannels) .channelIdOutOfRange
  return channels.modify channelId fun ch =>
    { ch with active := true, shard := fun ep => if ep = ep0 then shardA else shardB, msgLen := 0 }

/-- Which endpoint a shard is on a channel. -/
def endpointOf (ch : Channel) (shardId : Nat) : Option (Fin 2) :=
  if ch.shard ep0 == shardId then some ep0
  else if ch.shard ep1 == shardId then some ep1
  else none

/-- `CHANNELS[id]`. -/
def Sys.channel (s : Sys) (id : Nat) : Channel := s.channels.getD id Channel.initial

/-- The channel with a message of `len` bytes for endpoint `ep`. -/
def Channel.put (ch : Channel) (bytes : List UInt8) (len : Nat) (ep : Fin 2) : Channel :=
  { ch with buffer := ch.buffer.writeBytes 0 bytes, msgLen := len, msgFor := ep }

/-- If the shard is blocked waiting on this channel, wake it. -/
def wake (s : Sys) (shardId channelId : Nat) : Sys :=
  s.modifyShard shardId fun d =>
    if d.state == .blocked && d.blockedOnChannel == channelId then
      { d with state := .ready, blockedOnChannel := u64Max }
    else d

/-- Send a message on a channel. -/
def send (s : Sys) (channelId senderShard buf len : Nat) : Kernel (Sys × Nat) := do
  if maxChannels ≤ channelId ∨ maxMsgSize < len ∨ len = 0 then return (s, u64Max)
  let ch := s.channel channelId
  if !ch.active then return (s, u64Max)
  match endpointOf ch senderShard with
  | none => return (s, u64Max)
  | some myEp =>
    let otherEp := peerEp myEp
    let otherShard := ch.shard otherEp
    let bytes ← copyIn s.ram.mem s.cr3 buf len
    let s := { s with channels := s.channels.modify channelId (·.put bytes len otherEp) }
    let _ ← s.shard otherShard
    return (wake s otherShard channelId, 0)

/-- The channel without a pending message. -/
def Channel.clear (ch : Channel) : Channel := { ch with msgLen := 0 }

/-- The block both halves of `recv` share: if a message waits for `myEp`, copy it out. -/
def takeMessage (s : Sys) (channelId : Nat) (myEp : Fin 2) (buf maxLen : Nat) :
    Kernel (Option (Sys × Nat)) :=
  let ch := s.channel channelId
  if 0 < ch.msgLen && ch.msgFor == myEp then do
    let copyLen := min ch.msgLen maxLen
    let m ← copyOut s.ram.mem s.cr3 buf (ch.buffer.readBytes 0 copyLen)
    return some ({ s.setMem m with channels := s.channels.modify channelId (·.clear) }, copyLen)
  else .ok none

/-- `schedule_yield`: save the context of the current shard and switch to `run_loop`. -/
def scheduleYield (s : Sys) (context : SavedContext) : Kernel Sys := do
  let _ ← s.shard s.currentShard
  let s := s.modifyShard s.currentShard fun d => { d with savedContext := context }
  return { s with mode := .choosing }

/-- Mark a shard as blocked on a channel. -/
def block (s : Sys) (shardId channelId : Nat) : Sys :=
  s.modifyShard shardId fun d => { d with state := .blocked, blockedOnChannel := channelId }

/-- Receive a message on a channel, up to its yield: `none` if the caller blocks. -/
def recv (s : Sys) (channelId receiverShard buf maxLen : Nat) : Kernel (Sys × Option Nat) := do
  if maxChannels ≤ channelId ∨ maxLen = 0 then return (s, some u64Max)
  let ch := s.channel channelId
  if !ch.active then return (s, some u64Max)
  match endpointOf ch receiverShard with
  | none => return (s, some u64Max)
  | some myEp =>
    match ← takeMessage s channelId myEp buf maxLen with
    | some (s, copyLen) => return (s, some copyLen)
    | none =>
      let _ ← s.shard receiverShard
      let s ← scheduleYield (block s receiverShard channelId) (.channelRecv channelId myEp buf maxLen)
      return (s, none)

/-- The rest of `recv`, after its yield. -/
def resumeRecv (s : Sys) (channelId : Nat) (myEp : Fin 2) (buf maxLen : Nat) :
    Kernel (Sys × Nat) := do
  match ← takeMessage s channelId myEp buf maxLen with
  | some (s, copyLen) => return (s, copyLen)
  | none => return (s, u64Max)

end Coconut
