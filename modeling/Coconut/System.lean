import Coconut.Boot
import Coconut.Syscall

/-!
# The system

One step is what happens between two points at which the supervisor is either about to
choose a shard or has a shard in user mode: a syscall, a timer interrupt, an exception,
a store of the running shard to its memory, or a round of the run loop.  Which of them
happens, and with which arguments, is not determined: user code is arbitrary.

A `Run` starts in a booted state and goes on for ever; where nothing happens any more
(after the last shard, or after a panic) its states repeat.
-/
namespace Coconut
open Paging

inductive Action where
  | syscall (nr a0 a1 a2 tsc : UInt64)
  | timer
  | fault (vector : Nat)
  | store (virt : UInt64) (b : UInt8)
  | schedule

/-- The mode in which an action can happen. -/
def Action.mode : Action → Mode
  | .schedule => .choosing
  | _ => .user

/-- An exception in user mode: #GP and #PF kill the shard, the others halt the
supervisor. -/
def userFault (s : Sys) (vector : Nat) : Kernel Sys :=
  if vector = 13 ∨ vector = 14 then handleSysExit s u64Max else .error .unhandledException

/-- A store in user mode; without permission it is a page fault. -/
def userStore (s : Sys) (virt : Nat) (b : UInt8) : Kernel Sys :=
  match walk s.ram.mem s.cr3 virt with
  | some leaf =>
    if leaf.user && leaf.writable then
      .ok (s.setMem fun x => if x = leaf.phys then b else s.ram.mem x)
    else userFault s 14
  | none => userFault s 14

/-- One step. -/
def step (s : Sys) : Action → Kernel (Sys × Event)
  | .syscall nr a0 a1 a2 tsc =>
    (syscallDispatch s nr.toNat a0.toNat a1.toNat a2.toNat tsc.toNat).map fun (s', result) =>
      (s', ⟨none, result.map fun r => ⟨s.currentShard, nr.toNat, a0.toNat, a1.toNat, a2.toNat, r⟩⟩)
  | .timer => (timerPreempt s).map fun s' => (s', Event.none)
  | .fault vector => (userFault s vector).map fun s' => (s', Event.none)
  | .store virt b => (userStore s virt.toNat b).map fun s' => (s', Event.none)
  | .schedule => schedule s

/-- `s'` follows `s`: by an action possible in its mode, or because nothing happens. -/
def Follows (s : Sys) (a : Option Action) (s' : Sys) (ev : Event) : Prop :=
  match a with
  | some a => a.mode = s.mode ∧ step s a = .ok (s', ev)
  | none => s' = s ∧ ev = Event.none

/-- An infinite run from a booted state. -/
structure Run where
  isRam : Nat → Prop
  ops : List BootOp
  state : Nat → Sys
  action : Nat → Option Action
  event : Nat → Event
  booted : Booted isRam ops (state 0)
  next : ∀ t, Follows (state t) (action t) (state (t + 1)) (event t)

namespace Run
variable (r : Run) (n : Nat) {a : Action} {s' : Sys} {ev : Event}

/-- The run that goes as `r` up to time `n`, then takes another action and stops. -/
def branch (h : Follows (r.state n) (some a) s' ev) : Run where
  isRam := r.isRam
  ops := r.ops
  state t := if t ≤ n then r.state t else s'
  action t := if t < n then r.action t else if t = n then some a else none
  event t := if t < n then r.event t else if t = n then ev else Event.none
  booted := by
    rw [if_pos (Nat.zero_le n)]
    exact r.booted
  next t := by
    rcases Nat.lt_trichotomy t n with hlt | rfl | hgt
    · rw [if_pos (Nat.le_of_lt hlt), if_pos hlt, if_pos hlt, if_pos (Nat.succ_le_of_lt hlt)]
      exact r.next t
    · rw [if_pos (Nat.le_refl t), if_neg (Nat.lt_irrefl t), if_neg (Nat.lt_irrefl t), if_pos rfl,
        if_pos rfl, if_neg (by omega)]
      exact h
    · rw [if_neg (by omega), if_neg (by omega), if_neg (by omega), if_neg (by omega), if_neg (by omega),
        if_neg (by omega)]
      exact ⟨rfl, rfl⟩

theorem branch_state (h : Follows (r.state n) (some a) s' ev) : (r.branch n h).state (n + 1) = s' :=
  if_neg (Nat.not_succ_le_self n)

end Run
end Coconut
