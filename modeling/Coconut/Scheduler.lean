import Coconut.Channel
import Coconut.RoundRobin
import Coconut.Shard

/-!
# The scheduler

`pick_next_ready` scans the priority levels from the highest, and within a level the
slots from the one after `LAST_SCHEDULED`, cyclically.  One round of `run_loop` is
`schedule`: it switches to the shard picked and lets it continue where it was
suspended, or, when no shard is ready, ends the run.
-/
namespace Coconut

/-- `CURRENT_SHARD` goes from Running to Ready. -/
def setReady (s : Sys) : Sys :=
  if s.currentShard < maxShards then
    s.modifyShard s.currentShard fun d =>
      if d.state == .running then { d with state := .ready } else d
  else s

/-- The timer interrupt in user mode. -/
def timerPreempt (s : Sys) : Kernel Sys := scheduleYield (setReady s) .timerPreempt

/-- SYS_YIELD, up to its yield. -/
def handleSysYield (s : Sys) : Kernel Sys := scheduleYield (setReady s) .sysYield

/-- Slot `i` holds a ready shard of the given priority. -/
def readyAt (shards : Shards) (prio : Priority) (i : Nat) : Bool :=
  let d := shards.getD i ShardDescriptor.initial
  d.state == .ready && d.priority == prio

/-- The scan of one priority level. -/
def pickAt (shards : Shards) (last : Nat) (prio : Priority) : Option Nat :=
  nextCyclic (readyAt shards prio) maxShards last

/-- Priority-based round-robin. -/
def pickNextReady (shards : Shards) (last : Nat) : Option Nat :=
  [Priority.critical, .high, .normal, .low].findSome? (pickAt shards last)

/-- All shards are free, exited or destroyed. -/
def allDone (shards : Shards) : Bool :=
  (firstFrom (fun i => (shards.getD i ShardDescriptor.initial).state.isLive) maxShards 0).isNone

/-- A syscall that returned to user mode. -/
structure Returned where
  shard : Nat
  nr : Nat
  a0 : Nat
  a1 : Nat
  a2 : Nat
  result : Nat
  deriving DecidableEq, Repr

/-- What a step lets an observer see. -/
structure Event where
  /-- The shard `run_loop` switched to. -/
  selected : Option Nat
  /-- The syscall that returned. -/
  returned : Option Returned
  deriving DecidableEq, Repr

def Event.none : Event := ⟨Option.none, Option.none⟩

/-- Continue the current shard where it was suspended. -/
def resume (s : Sys) (id : Nat) (context : SavedContext) : Kernel (Sys × Event) :=
  match context with
  | .firstEntry => .ok (s, ⟨some id, none⟩)
  | .timerPreempt => .ok (s, ⟨some id, none⟩)
  | .sysYield => .ok (s, ⟨some id, some ⟨id, sysYield, 0, 0, 0, 0⟩⟩)
  | .channelRecv channelId myEp buf maxLen => do
    let (s, result) ← resumeRecv s channelId myEp buf maxLen
    return (s, ⟨some id, some ⟨id, sysChannelRecv, channelId, buf, maxLen, result⟩⟩)

/-- The loop that ends `run_loop`: destroy every exited shard from slot `i` on. -/
def destroyAll : Nat → Nat → Sys → Kernel Sys
  | 0, _, s => .ok s
  | n + 1, i, s => do
    let d ← s.shard i
    let s ← if d.state == .exited then destroy s i else pure s
    destroyAll n (i + 1) s

/-- One round of `run_loop`. -/
def schedule (s : Sys) : Kernel (Sys × Event) := do
  match pickNextReady s.shards s.lastScheduled with
  | some id =>
    let d ← s.shard id
    let s := s.modifyShard id fun d => { d with state := .running }
    resume { s with lastScheduled := id, currentShard := id, mode := .user } id d.savedContext
  | none =>
    if allDone s.shards then
      let s ← destroyAll maxShards 0 s
      return ({ s with mode := .halted }, Event.none)
    else .error .deadlock

end Coconut
