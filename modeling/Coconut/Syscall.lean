import Coconut.Gpu
import Coconut.Scheduler

/-!
# Syscall dispatch

`syscall_dispatch` with the pledge check in front of it, and the handlers that live in
the same file.  The result is `none` for a syscall that has switched to `run_loop` and
has not returned.
-/
namespace Coconut

/-- Whether a pledge allows a syscall number. -/
def pledgeAllows (pledge nr : Nat) : Bool :=
  if pledge == u64Max then true
  else if nr == sysExit || nr == sysYield || nr == sysGpuPledge || nr == sysGpuUnveil ||
    nr == sysMmap then true
  else if nr == sysSerialWrite then pledge &&& pledgeSerial != 0
  else if nr == sysChannelSend || nr == sysChannelRecv then pledge &&& pledgeChannel != 0
  else if nr == sysGpuDma then pledge &&& pledgeGpuDma != 0
  else if nr == sysPerfCounter then pledge &&& pledgePerf != 0
  else false

/-- SYS_SERIAL_WRITE: the buffer is read; what is printed is not modelled. -/
def handleSerialWrite (s : Sys) (bufPtr len : Nat) : Kernel (Sys × Nat) := do
  if !(← validateUserReadBuf s bufPtr len) then return (s, u64Max)
  let _ ← copyIn s.ram.mem s.cr3 bufPtr len
  return (s, 0)

/-- SYS_CHANNEL_SEND. -/
def handleChannelSend (s : Sys) (channelId bufPtr len : Nat) : Kernel (Sys × Nat) := do
  let sender := s.currentShard
  if !check s.shards sender capChannel (channelId % 2 ^ 32) rightChannelSend then
    return (s, u64Max)
  if maxChannels ≤ channelId then return (s, u64Max)
  if maxMsgSize < len || len == 0 then return (s, u64Max)
  if !(← validateUserReadBuf s bufPtr len) then return (s, u64Max)
  send s channelId sender bufPtr len

/-- SYS_CHANNEL_RECV. -/
def handleChannelRecv (s : Sys) (channelId bufPtr maxLen : Nat) : Kernel (Sys × Option Nat) := do
  let receiver := s.currentShard
  if !check s.shards receiver capChannel (channelId % 2 ^ 32) rightChannelRecv then
    return (s, some u64Max)
  if maxChannels ≤ channelId then return (s, some u64Max)
  if maxLen == 0 || maxMsgSize < maxLen then return (s, some u64Max)
  if !(← validateUserWriteBuf s bufPtr maxLen) then return (s, some u64Max)
  recv s channelId receiver bufPtr maxLen

/-- A handler that always returns. -/
def returns (r : Kernel (Sys × Nat)) : Kernel (Sys × Option Nat) :=
  r.map fun (s, result) => (s, some result)

/-- A handler that works on the descriptors only. -/
def onShards (s : Sys) (r : Shards × Nat) : Sys × Option Nat :=
  ({ s with shards := r.1 }, some r.2)

/-- The `match` of `syscall_dispatch`. -/
def dispatch (s : Sys) (nr a0 a1 a2 tsc : Nat) : Kernel (Sys × Option Nat) :=
  if nr == sysExit then (handleSysExit s a0).map fun s => (s, none)
  else if nr == sysSerialWrite then returns (handleSerialWrite s a0 a1)
  else if nr == sysChannelSend then returns (handleChannelSend s a0 a1 a2)
  else if nr == sysChannelRecv then handleChannelRecv s a0 a1 a2
  else if nr == sysCapGrant then
    (grantCopy s.shards s.currentShard a0 a1 (BitVec.ofNat 16 a2)).map (onShards s)
  else if nr == sysCapRevoke then .ok (onShards s (revoke s.shards s.currentShard a0))
  else if nr == sysCapRestrict then
    .ok (onShards s (restrict s.shards s.currentShard a0 (BitVec.ofNat 16 a1)))
  else if nr == sysCapInspect then .ok (s, some (inspect s.shards s.currentShard a0))
  else if nr == sysFsOpen then returns (handleFsOpen s a0 a1)
  else if nr == sysFsRead then returns (handleFsRead s a0 a1 a2)
  else if nr == sysFsStat then .ok (s, some (handleFsStat s a0))
  else if nr == sysFsClose then returns (.ok (handleFsClose s a0))
  else if nr == sysMmap then returns (handleSysMmap s a0 a1)
  else if nr == sysGpuDma then returns (handleDma s a0 a1 a2)
  else if nr == sysGpuPledge then returns (handleGpuPledge s a0)
  else if nr == sysGpuUnveil then returns (handleGpuUnveil s a0 a1)
  else if nr == sysPerfCounter then .ok (s, some tsc)
  else if nr == sysYield then (handleSysYield s).map fun s => (s, none)
  else .ok (s, some u64Max)

/-- The syscall dispatcher: the pledge, then the handler. -/
def syscallDispatch (s : Sys) (nr a0 a1 a2 tsc : Nat) : Kernel (Sys × Option Nat) := do
  let d ← s.shard s.currentShard
  if !pledgeAllows d.gpuPledge nr then return (s, some u64Max)
  dispatch s nr a0 a1 a2 tsc

end Coconut
