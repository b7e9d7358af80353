import Coconut.EntryCode

/-!
# Threads on their kernel stacks

The supervisor and the shards as threads of one processor.  A shard in user mode does what it
likes with registers and its own half of the address space; it enters the kernel by SYSCALL, by
the timer interrupt or by a fault; in the kernel Rust code runs for it, which may call
`context_switch` and so hand the processor to the supervisor, which hands it to another shard.

Of the Rust code only what the compiler and the language guarantee is assumed: it does not write
other stacks or the statics that hold stack pointers, it leaves the part of its own stack that
belongs to its callers, and when it returns, its stack pointer and the registers of
`calleeSaved` are what they were.  That code rests in turn on its own calls: a call of
`context_switch` is a call like any other for the compiler, so it has to return to its return
address, on its stack, with the same registers kept and its stack as it was.  A step in which
this fails makes the state `broken`.

The calling convention wants the direction flag clear at every call and return as well.  The
kernel never sees to that: SFMASK, which `syscall::init` sets to 0x300, does not name DF,
interrupt gates leave it, and no handler executes CLD.  Rust code is therefore called with the
flag that the shard had, and the state is `broken` if that was set.  No other step breaks
anything, as the module on the realisation shows (`Step.broken_iff`); what is said about runs is
said about those in which no shard enters the kernel with DF set (`Move`).
-/
namespace Coconut.Switching
open Asm

/-! ## States -/

/-- How a shard came into the kernel. -/
inductive Gate where
  | syscall
  | timer
  | fault
  deriving DecidableEq

/-- A stay in the kernel: the user's state when it began, and the processor at the first
instruction of the Rust function that the entry code calls. -/
structure Visit where
  gate : Gate
  user : Processor
  callee : Processor

inductive Thread where
  /-- There is no such shard, or it has left for good. -/
  | absent
  /-- Its stack has been set up, and it has never been chosen. -/
  | fresh
  /-- In `shard_first_entry`. -/
  | entering
  | user
  | kernel (v : Visit)
  /-- Inside `context_switch`, which was called in the state `call`. -/
  | parked (v : Visit) (call : Processor)

/-- The threads that the processor may be running. -/
def Thread.Active : Thread → Prop
  | entering | user | kernel _ => True
  | absent | fresh | parked _ _ => False

structure State (ι : Type) where
  cpu : Processor
  thread : ι → Thread
  /-- The shard the processor runs, if it does not run the supervisor. -/
  current : Option ι
  /-- The supervisor's last call of `context_switch`. -/
  supervisor : Processor
  /-- Whether `run_loop` has switched to a shard yet. -/
  started : Bool
  /-- Some code was given a state that it cannot have expected. -/
  broken : Prop

section Steps
variable {ι : Type}

section
variable [DecidableEq ι]

def State.setThread (s : State ι) (i : ι) (t : Thread) : State ι :=
  { s with thread := fun j => if j = i then t else s.thread j }

@[simp] theorem State.setThread_self (s : State ι) (i : ι) (t : Thread) :
    (s.setThread i t).thread i = t := if_pos rfl

theorem State.setThread_of_ne (s : State ι) {i j : ι} (h : j ≠ i) (t : Thread) :
    (s.setThread i t).thread j = s.thread j := if_neg h

end

/-- `setup_initial_kernel_stack`: six zero words below the address of `shard_first_entry`, and
the stack pointer that `context_switch` will load. -/
def setupInitialKernelStack (A : Layout ι) (i : ι) (m : Memory) : Memory :=
  let stack := A.kernelStack i + 4096
  let m := m.writeU64 (stack - 8) A.shardFirstEntry.toNat
  let m := [16, 24, 32, 40, 48, 56].foldl (fun m k => m.writeU64 (stack - k) 0) m
  m.writeU64 (A.cell (.savedKernelRsp i)) (stack - 7 * 8)

/-- What the supervisor's own code leaves alone: the shards' stacks and where their pointers are
kept. -/
inductive OfShards (A : Layout ι) (s : State ι) (x : Nat) : Prop
  | cell {j : ι} (h : A.Has (.cell (.savedKernelRsp j)) x)
  | stack {j : ι} (hj : s.thread j ≠ .absent) (h : A.Has (.kernelStack j) x)

/-- What Rust code running for shard `i` leaves alone, when its caller's frame ends at `floor`. -/
inductive NotOwn (A : Layout ι) (s : State ι) (i : ι) (floor : Nat) (x : Nat) : Prop
  | kernelRsp (h : A.Has (.cell .kernelRsp) x)
  | rsp0 (h : A.Has (.cell .rsp0) x)
  | supervisorRsp (h : A.Has (.cell .supervisorRsp) x)
  | savedKernelRsp {j : ι} (h : A.Has (.cell (.savedKernelRsp j)) x)
  | supervisor (h : A.Has .supervisorStack x)
  | other {j : ι} (hne : j ≠ i) (hj : s.thread j ≠ .absent) (h : A.Has (.kernelStack j) x)
  | above (h : A.Has (.kernelStack i) x) (hx : floor ≤ x)

/-- What the code behind a call of `context_switch` relies on: `call` is the processor at the
call's first instruction, `d` where it returned, `high` the end of the stack. -/
structure Returned (high : Nat) (call d : Processor) : Prop where
  rip : d.rip = call.word call.rsp
  rsp : d.rsp = call.rsp + 8
  forward : d.backward = false
  kept : ∀ r ∈ calleeSaved, d.reg r = call.reg r
  stack : ∀ x, call.rsp + 8 ≤ x → x < high → d.mem x = call.mem x

/-! ## Steps -/

inductive Event (ι : Type) where
  | create (i : ι)
  | sti
  | supervisor
  | dispatch (i : ι)
  | first (i : ι)
  | entering (i : ι)
  | enter (i : ι)
  | user (i : ι)
  | syscall (i : ι)
  | timer (i : ι)
  | fault (i : ι)
  | kernel (i : ι)
  | yield (i : ι)
  | exit (i : ι)
  | sysret (i : ι)
  | iret (i : ι)

/-- The events in which a shard comes into the kernel. -/
def Event.Enters : Event ι → Prop
  | syscall _ | timer _ | fault _ => True
  | _ => False

/-- A call of `context_switch(save, load)` on the stack of `o`, with room for what it pushes and
for an interrupt on top of it. -/
structure Calls (A : Layout ι) (c : Processor) (o : Owner ι) (save load : Cell ι) : Prop where
  rdi : (c.reg .rdi).toNat = A.cell save
  rsi : (c.reg .rsi).toNat = A.cell load
  low : A.low o.stack + 112 ≤ c.rsp
  high : c.rsp + 8 ≤ A.high o.stack

variable [DecidableEq ι]

inductive Step (A : Addresses ι) : Event ι → State ι → State ι → Prop
  | create {s : State ι} {i : ι} (hcur : s.current = none) (hst : s.started = false)
      (hi : s.thread i = .absent) :
      Step A (.create i) s ({ s with cpu := { s.cpu with
        mem := setupInitialKernelStack A.toLayout i s.cpu.mem } }.setThread i .fresh)
  -- `main` enables interrupts before it calls `run_loop`
  | sti {s : State ι} (hcur : s.current = none) (hst : s.started = false) :
      Step A .sti s { s with cpu := { s.cpu with rflags := s.cpu.rflags ||| 0x200#64 } }
  | supervisor {s : State ι} {c : Processor} (hcur : s.current = none)
      (hmem : ∀ x, OfShards A.toLayout s x → c.mem x = s.cpu.mem x)
      (hif : c.interruptible = s.cpu.interruptible) (hdf : c.backward = s.cpu.backward) :
      Step A .supervisor s { s with cpu := c }
  -- `run_loop` has set KERNEL_RSP and RSP0 before it switches
  | dispatch {s : State ι} {i : ι} {v : Visit} {call d : Processor} (hcur : s.current = none)
      (hi : s.thread i = .parked v call)
      (hkernel : s.cpu.mem.readU64 (A.cell .kernelRsp) = top A i)
      (hrsp0 : s.cpu.mem.readU64 (A.cell .rsp0) = top A i)
      (hcall : Calls A.toLayout s.cpu .supervisor .supervisorRsp (.savedKernelRsp i))
      (hrun : Runs A.Irq contextSwitch s.cpu d) :
      Step A (.dispatch i) s ({ s with
        cpu := d.ret
        current := some i
        supervisor := s.cpu
        started := true
        broken := ¬ Returned (top A i) call d.ret }.setThread i (.kernel v))
  | first {s : State ι} {i : ι} {d : Processor} (hcur : s.current = none)
      (hi : s.thread i = .fresh)
      (hkernel : s.cpu.mem.readU64 (A.cell .kernelRsp) = top A i)
      (hrsp0 : s.cpu.mem.readU64 (A.cell .rsp0) = top A i)
      (hcall : Calls A.toLayout s.cpu .supervisor .supervisorRsp (.savedKernelRsp i))
      (hrun : Runs A.Irq contextSwitch s.cpu d) :
      Step A (.first i) s ({ s with
        cpu := d.ret
        current := some i
        supervisor := s.cpu
        started := true
        broken := ¬ (d.ret.rip = A.shardFirstEntry ∧ d.ret.rsp = top A i ∧
          d.ret.backward = false) }.setThread i .entering)
  -- it stores `kernel_stack_top` to KERNEL_RSP again
  | entering {s : State ι} {i : ι} {c : Processor} (hcur : s.current = some i)
      (hi : s.thread i = .entering)
      (hmem : ∀ x, NotOwn A.toLayout s i (top A i) x → c.mem x = s.cpu.mem x)
      (hdf : c.backward = s.cpu.backward) :
      Step A (.entering i) s { s with cpu := c }
  | enter {s : State ι} {i : ι} {d : Processor} (hcur : s.current = some i)
      (hi : s.thread i = .entering) (hds : (s.cpu.reg .rax).setWidth 16 = userDs)
      (hlow : A.kernelStack i + 64 ≤ s.cpu.rsp) (hhigh : s.cpu.rsp ≤ top A i)
      (hrun : Runs A.Irq firstEntryCode s.cpu d) :
      Step A (.enter i) s ({ s with cpu := d.sysretq star }.setThread i .user)
  | user {s : State ι} {i : ι} {c : Processor} (hcur : s.current = some i)
      (hi : s.thread i = .user)
      (hmem : ∀ x, 0xFFFF800000000000 ≤ x → c.mem x = s.cpu.mem x) (hcs : c.cs = s.cpu.cs)
      (hss : c.ss = s.cpu.ss) (hflags : UserFlags c.rflags) :
      Step A (.user i) s { s with cpu := c }
  | syscall {s : State ι} {i : ι} {e : Processor} (hcur : s.current = some i)
      (hi : s.thread i = .user)
      (hrun : Runs A.Irq A.syscallEntryCode (s.cpu.syscall star A.syscallEntry sfmask) e) :
      Step A (.syscall i) s ({ s with cpu := e, broken := e.backward = true }.setThread i
        (.kernel ⟨.syscall, s.cpu, e⟩))
  -- were the jump of `isr_timer` not taken, its kernel path would run
  | timer {s : State ι} {i : ι} {e : Processor} (hcur : s.current = some i)
      (hi : s.thread i = .user) (hif : s.cpu.interruptible = true)
      (hrun : Runs A.Irq A.timerEntryCode (timerUser A.toLayout s.cpu) e) :
      Step A (.timer i) s ({ s with
        cpu := e
        broken := (timerUser A.toLayout s.cpu).zf = true ∨ e.backward = true }.setThread i
          (.kernel ⟨.timer, s.cpu, e⟩))
  -- the handlers of #GP and #PF, at the call of the Rust function that ends the shard
  | fault {s : State ι} {i : ι} {e : Processor} (hcur : s.current = some i)
      (hi : s.thread i = .user) (hmem : ∀ x, ¬ A.Has (.kernelStack i) x → e.mem x = s.cpu.mem x)
      (hif : e.interruptible = false) (hdf : e.backward = s.cpu.backward)
      (hlow : A.kernelStack i ≤ e.rsp) (hhigh : e.rsp ≤ top A i) :
      Step A (.fault i) s ({ s with cpu := e, broken := e.backward = true }.setThread i
        (.kernel ⟨.fault, s.cpu, e⟩))
  | kernel {s : State ι} {i : ι} {v : Visit} {c : Processor} (hcur : s.current = some i)
      (hi : s.thread i = .kernel v)
      (hmem : ∀ x, NotOwn A.toLayout s i v.callee.rsp x → c.mem x = s.cpu.mem x)
      (hif : c.interruptible = s.cpu.interruptible) (hdf : c.backward = s.cpu.backward) :
      Step A (.kernel i) s { s with cpu := c }
  -- `schedule_yield`
  | yield {s : State ι} {i : ι} {v : Visit} {d : Processor} (hcur : s.current = some i)
      (hi : s.thread i = .kernel v)
      (hcall : Calls A.toLayout s.cpu (.shard i) (.savedKernelRsp i) .supervisorRsp)
      (hframe : s.cpu.rsp + 8 ≤ v.callee.rsp) (hrun : Runs A.Irq contextSwitch s.cpu d) :
      Step A (.yield i) s ({ s with
        cpu := d.ret
        current := none
        broken := ¬ Returned A.supervisorTop s.supervisor d.ret }.setThread i (.parked v s.cpu))
  -- `schedule_yield_exit`
  | exit {s : State ι} {i : ι} {v : Visit} {d : Processor} (hcur : s.current = some i)
      (hi : s.thread i = .kernel v)
      (hcall : Calls A.toLayout s.cpu (.shard i) .discardRsp .supervisorRsp)
      (hframe : s.cpu.rsp + 8 ≤ v.callee.rsp) (hrun : Runs A.Irq contextSwitch s.cpu d) :
      Step A (.exit i) s ({ s with
        cpu := d.ret
        current := none
        broken := ¬ Returned A.supervisorTop s.supervisor d.ret }.setThread i .absent)
  -- `syscall_dispatch` returns
  | sysret {s : State ι} {i : ι} {v : Visit} {d : Processor} (hcur : s.current = some i)
      (hi : s.thread i = .kernel v) (hgate : v.gate = .syscall)
      (hrsp : s.cpu.rsp = v.callee.rsp) (hrun : Runs A.Irq syscallExitCode s.cpu.ret d) :
      Step A (.sysret i) s ({ s with
        cpu := d.sysretq star
        broken := s.cpu.ret.rip ≠ A.dispatchReturn }.setThread i .user)
  -- `timer_preempt` returns
  | iret {s : State ι} {i : ι} {v : Visit} {d : Processor} (hcur : s.current = some i)
      (hi : s.thread i = .kernel v) (hgate : v.gate = .timer)
      (hrsp : s.cpu.rsp = v.callee.rsp) (hkept : ∀ r ∈ calleeSaved, s.cpu.reg r = v.callee.reg r)
      (hrun : Runs A.Irq timerExitCode s.cpu.ret d) :
      Step A (.iret i) s ({ s with
        cpu := d.iretq
        broken := s.cpu.ret.rip ≠ A.preemptReturn }.setThread i .user)
  -- nothing is known of what runs on a wrong state
  | wild {s s' : State ι} {ev : Event ι} (h : s.broken) : Step A ev s s'

/-- A step in which no shard enters the kernel with DF set. -/
structure Move (A : Addresses ι) (ev : Event ι) (s s' : State ι) : Prop where
  step : Step A ev s s'
  forward : ev.Enters → s.cpu.backward = false

end Steps

/-! ## The invariant -/

section Invariant
variable {ι : Type} (A : Addresses ι)

/-- The call of `context_switch` with which the stack of `o` was left. -/
structure Suspended (o : Owner ι) (call : Processor) (m : Memory) : Prop where
  loadable : Loadable A o (call.rsp - 48) call.reg (call.word call.rsp) m
  low : A.low o.stack + 112 ≤ call.rsp
  above : ∀ x, call.rsp ≤ x → x < A.high o.stack → m x = call.mem x

/-- What is on the stack of shard `j` above the frames of Rust code. -/
structure VisitOk (j : ι) (v : Visit) (m : Memory) : Prop where
  cs : v.user.cs = userCs
  ss : v.user.ss = userDs
  flags : UserFlags v.user.rflags
  low : A.kernelStack j ≤ v.callee.rsp
  high : v.callee.rsp ≤ top A j
  syscall : v.gate = .syscall → v.callee.rsp = top A j - 80 ∧ SyscallFrame A j v.user m
  timer : v.gate = .timer → v.callee.rsp = top A j - 632 ∧ TimerFrame A j v.user m ∧
    ∀ r ∈ calleeSaved, v.callee.reg r = v.user.reg r

/-- What holds of shard `j` by where it is. -/
def ThreadOk (c : Processor) (j : ι) : Thread → Prop
  | .absent => True
  | .fresh => Loadable A (.shard j) (top A j - 56) (fun _ => 0#64) A.shardFirstEntry c.mem
  | .entering => c.backward = false
  | .user => c.cs = userCs ∧ c.ss = userDs ∧ UserFlags c.rflags
  | .kernel v => VisitOk A j v c.mem ∧ c.interruptible = false ∧ c.backward = false
  | .parked v call => VisitOk A j v c.mem ∧ Suspended A (.shard j) call c.mem ∧
      call.rsp + 8 ≤ v.callee.rsp

structure Inv (s : State ι) : Prop where
  sound : ¬ s.broken
  idle : ∀ j, s.current ≠ some j → ¬ (s.thread j).Active
  tops : ∀ j, s.current = some j → s.cpu.mem.readU64 (A.cell .kernelRsp) = top A j ∧
    s.cpu.mem.readU64 (A.cell .rsp0) = top A j
  threads : ∀ j, ThreadOk A s.cpu j (s.thread j)
  supervisor : s.current ≠ none → Suspended A .supervisor s.supervisor s.cpu.mem
  unstarted : s.started = false → ∀ j, s.thread j = .absent ∨ s.thread j = .fresh
  masked : s.started = true → s.current = none → s.cpu.interruptible = false
  forward : s.current = none → s.cpu.backward = false

variable {A} {m m' : Memory} {o : Owner ι}

theorem Loadable.congr {a : Nat} {f : Reg → Qword} {w : Qword} (h : Loadable A o a f w m)
    (hcell : ∀ x, A.Has (.cell o.cell) x → m' x = m x)
    (hstack : ∀ x, A.Has o.stack x → m' x = m x) : Loadable A o a f w m' := by
  have h1 := h.low
  have h2 := h.high
  refine ⟨(Memory.readLE_congr fun x h3 h4 => hcell x ⟨h3, h4⟩).trans h.cell, ?_, h1, h2⟩
  refine h.frame.congr fun x h3 h4 => hstack x ⟨by omega, ?_⟩
  simp only [calleeSaved, List.length_append, List.length_map, List.length_cons,
    List.length_nil] at h4
  omega

theorem Suspended.congr {call : Processor} (h : Suspended A o call m)
    (hcell : ∀ x, A.Has (.cell o.cell) x → m' x = m x)
    (hstack : ∀ x, A.Has o.stack x → m' x = m x) : Suspended A o call m' := by
  have h1 := h.low
  refine ⟨h.loadable.congr hcell hstack, h1, fun x h3 h4 => ?_⟩
  exact (hstack x ⟨by omega, h4⟩).trans (h.above x h3 h4)

theorem VisitOk.congr {j : ι} {v : Visit} (h : VisitOk A j v m)
    (hmem : ∀ x, v.callee.rsp ≤ x → x < top A j → m' x = m x) : VisitOk A j v m' := by
  obtain ⟨hlt, hge, -⟩ := top_spec A j
  refine { h with syscall := fun hg => ?_, timer := fun hg => ?_ }
  · obtain ⟨hr, hf⟩ := h.syscall hg
    refine ⟨hr, ⟨hf.words.congr fun x h3 h4 => hmem x (by omega) ?_⟩⟩
    simp only [calleeSaved, List.length_append, List.length_map, List.length_cons,
      List.length_nil] at h4
    omega
  · obtain ⟨hr, hf, hk⟩ := h.timer hg
    refine ⟨hr, ⟨hf.ret.congr fun x h3 h4 => ?_, fun k => ?_, hf.words.congr fun x h3 h4 => ?_⟩, hk⟩
    · simp only [List.length_cons, List.length_nil] at h4
      exact hmem x (by omega) (by omega)
    · exact (hmem _ (by omega) (by omega)).trans (hf.fx k)
    · simp only [List.length_append, List.length_map, List.length_cons, List.length_nil] at h4
      exact hmem x (by omega) (by omega)

/-- A thread that is not running depends on its own stack and cell only. -/
theorem ThreadOk.congr {c d : Processor} {j : ι} {t : Thread} (h : ThreadOk A c j t)
    (ht : ¬ t.Active) (hcell : ∀ x, A.Has (.cell (.savedKernelRsp j)) x → d.mem x = c.mem x)
    (hstack : t ≠ .absent → ∀ x, A.Has (.kernelStack j) x → d.mem x = c.mem x) :
    ThreadOk A d j t := by
  cases t with
  | absent => trivial
  | fresh => exact Loadable.congr h hcell (hstack fun h => by cases h)
  | entering | user | kernel => exact absurd trivial ht
  | parked v call =>
    obtain ⟨hv, hs, hle⟩ := h
    have hstack := hstack fun h => by cases h
    exact ⟨hv.congr fun x h1 h2 => hstack x ⟨hv.low.trans h1, h2⟩, hs.congr hcell hstack, hle⟩

theorem disjoint_cells {c e : Cell ι} (h : c ≠ e) {x : Nat} (hx : A.Has (.cell c) x) :
    ¬ A.Has (.cell e) x := fun hx' => h (Place.cell.inj (A.disjoint hx hx'))

theorem disjoint_stack_cell (o : Owner ι) (c : Cell ι) {x : Nat} (hx : A.Has o.stack x) :
    ¬ A.Has (.cell c) x := fun hx' => o.stack_ne_cell c (A.disjoint hx hx')

theorem has_stack (i : ι) {x : Nat} : A.Has (.kernelStack i) x ↔ A.kernelStack i ≤ x ∧ x < top A i :=
  Iff.rfl

/-! ### Steps within one thread -/

/-- A step of the current shard that leaves all that is not its own. -/
theorem Inv.stay {s s' : State ι} {i : ι} (h : Inv A s) (hcur : s.current = some i)
    (hcur' : s'.current = some i) (hsup : s'.supervisor = s.supervisor)
    (hstart : s'.started = s.started) (hothers : ∀ j, j ≠ i → s'.thread j = s.thread j)
    (hb : ¬ s'.broken) (hact : (s.thread i).Active) (hact' : (s'.thread i).Active)
    (hmem : ∀ x, NotOwn A.toLayout s i (top A i) x → s'.cpu.mem x = s.cpu.mem x)
    (hok : ThreadOk A s'.cpu i (s'.thread i)) : Inv A s' := by
  have hidle : ∀ j, j ≠ i → ¬ (s.thread j).Active := fun j hj =>
    h.idle j (by rw [hcur]; exact fun h => hj (Option.some.inj h).symm)
  have hnone : s'.current ≠ none := by simp [hcur']
  refine ⟨hb, fun j hj => ?_, fun j hj => ?_, fun j => ?_, fun _ => ?_, fun hst => ?_,
    fun _ hn => absurd hn hnone, fun hn => absurd hn hnone⟩
  · have hne : j ≠ i := by
      rintro rfl
      exact hj hcur'
    rw [hothers j hne]
    exact hidle j hne
  · obtain rfl : i = j := Option.some.inj (hcur'.symm.trans hj)
    obtain ⟨h1, h2⟩ := h.tops i hcur
    refine ⟨Eq.trans ?_ h1, Eq.trans ?_ h2⟩
    · exact Memory.readLE_congr fun x h3 h4 => hmem x (.kernelRsp ⟨h3, h4⟩)
    · exact Memory.readLE_congr fun x h3 h4 => hmem x (.rsp0 ⟨h3, h4⟩)
  · by_cases hj : j = i
    · subst hj
      exact hok
    · rw [hothers j hj]
      exact (h.threads j).congr (hidle j hj) (fun x hx => hmem x (.savedKernelRsp hx))
        fun hne x hx => hmem x (.other hj hne hx)
  · rw [hsup]
    exact (h.supervisor (by simp [hcur])).congr (fun x hx => hmem x (.supervisorRsp hx))
      fun x hx => hmem x (.supervisor hx)
  · -- the current shard is neither absent nor fresh
    rcases h.unstarted (hstart ▸ hst) i with he | he <;> rw [he] at hact <;> exact hact.elim

/-! ### Switches -/

theorem Switched.interruptible {e : Cell ι} {a : Nat} {f : Reg → Qword} {w : Qword}
    {c d : Processor} (h : Switched A e a f w c d) : d.interruptible = c.interruptible :=
  congrArg (BitVec.getLsbD · 9) h.same.rflags

theorem Switched.backward {e : Cell ι} {a : Nat} {f : Reg → Qword} {w : Qword}
    {c d : Processor} (h : Switched A e a f w c d) : d.backward = c.backward :=
  congrArg (BitVec.getLsbD · 10) h.same.rflags

/-- The places a switch writes: both stacks, the cell it saves to, and the tick counter. -/
theorem Switched.mem_place {u v : Owner ι} {e : Cell ι} {a : Nat} {f : Reg → Qword} {w : Qword}
    {c d : Processor} (h : Switched A e a f w c d) (hlow : A.low u.stack + 112 ≤ c.rsp)
    (hhigh : c.rsp ≤ A.high u.stack) (hv : Loadable A v a f w c.mem) {p : Place ι}
    (hu : p ≠ u.stack) (hv' : p ≠ v.stack) (he : p ≠ .cell e) (ht : p ≠ .cell .ticks) {x : Nat}
    (hx : A.Has p x) : d.mem x = c.mem x := by
  have h1 := hv.low
  have h2 := hv.high
  refine h.mem x (fun hr => hu ?_) (fun hr => he (A.disjoint hx hr)) (fun hr => hv' ?_)
    fun hr => ht (A.disjoint hx hr)
  · exact A.disjoint hx ⟨by omega, by omega⟩
  · exact A.disjoint hx ⟨by omega, by omega⟩

/-- Above the frame of the caller a switch does not write. -/
theorem Switched.mem_above {u v : Owner ι} {e : Cell ι} {a : Nat} {f : Reg → Qword} {w : Qword}
    {c d : Processor} (h : Switched A e a f w c d) (hv : Loadable A v a f w c.mem) (huv : u ≠ v)
    {x : Nat} (hx : A.Has u.stack x) (hc : c.rsp ≤ x) : d.mem x = c.mem x := by
  have h1 := hv.low
  have h2 := hv.high
  refine h.mem x (fun hr => by omega) (disjoint_stack_cell u _ hx) (fun hr => huv ?_)
    (disjoint_stack_cell u _ hx)
  exact Owner.stack_inj (A.disjoint hx ⟨by omega, by omega⟩)

/-- The stack that was left can be loaded again, as its owner left it. -/
theorem Switched.suspended {u v : Owner ι} {a : Nat} {f : Reg → Qword} {w : Qword}
    {c d : Processor} (h : Switched A u.cell a f w c d) (hlow : A.low u.stack + 112 ≤ c.rsp)
    (hhigh : c.rsp + 8 ≤ A.high u.stack) (hv : Loadable A v a f w c.mem) (huv : u ≠ v) :
    Suspended A u c d.mem := by
  have habove : ∀ x, c.rsp ≤ x → x < A.high u.stack → d.mem x = c.mem x := fun x h1 h2 =>
    h.mem_above hv huv ⟨by omega, h2⟩ h1
  have hret : Frame d.mem c.rsp [c.word c.rsp] := by
    refine ⟨?_, trivial⟩
    refine (Memory.readLE_congr fun x h1 h2 => habove x h1 (by omega)).trans ?_
    exact (Nat.mod_eq_of_lt (c.mem.readU64_lt _)).symm
  refine ⟨⟨h.saved, h.frame.append hret ?_, by omega, by omega⟩, hlow, habove⟩
  simp only [calleeSaved, List.length_map, List.length_cons, List.length_nil]
  omega

/-- `context_switch` returns to the call with which the stack it loads was left. -/
theorem Switched.returned {v : Owner ι} {e : Cell ι} {call c d : Processor}
    (h : Switched A e (call.rsp - 48) call.reg (call.word call.rsp) c d) {u : Owner ι}
    (hlow : A.low u.stack + 112 ≤ c.rsp) (hhigh : c.rsp ≤ A.high u.stack) (huv : u ≠ v)
    (hv : Suspended A v call c.mem) (hdf : c.backward = false) :
    Returned (A.high v.stack) call d := by
  have h1 := hv.low
  refine ⟨h.same.rip, by rw [h.rsp]; omega, h.backward.trans hdf, h.kept, fun x h2 h3 => ?_⟩
  have hx : A.Has v.stack x := ⟨by omega, h3⟩
  refine Eq.trans (h.mem x (fun hr => huv ?_) (disjoint_stack_cell v _ hx) (fun hr => by omega)
    (disjoint_stack_cell v _ hx)) (hv.above x (by omega) h3)
  exact Owner.stack_inj (A.disjoint ⟨by omega, by omega⟩ hx)

/-- The supervisor has switched to shard `i`. -/
theorem Inv.switchIn {s s' : State ι} {i : ι} {a : Nat} {f : Reg → Qword} {w : Qword}
    (h : Inv A s) (hcur : s.current = none) (hcur' : s'.current = some i)
    (hsup : s'.supervisor = s.cpu) (hstart : s'.started = true)
    (hothers : ∀ j, j ≠ i → s'.thread j = s.thread j) (hb : ¬ s'.broken)
    (hkernel : s.cpu.mem.readU64 (A.cell .kernelRsp) = top A i)
    (hrsp0 : s.cpu.mem.readU64 (A.cell .rsp0) = top A i)
    (hcall : Calls A.toLayout s.cpu .supervisor .supervisorRsp (.savedKernelRsp i))
    (hload : Loadable A (.shard i) a f w s.cpu.mem)
    (hsw : Switched A .supervisorRsp a f w s.cpu s'.cpu)
    (hok : ThreadOk A s'.cpu i (s'.thread i)) : Inv A s' := by
  have hlow := hcall.low
  have hhigh := hcall.high
  have hplace : ∀ {p : Place ι}, p ≠ .supervisorStack → p ≠ .kernelStack i →
      p ≠ .cell .supervisorRsp → p ≠ .cell .ticks → ∀ x, A.Has p x → s'.cpu.mem x = s.cpu.mem x :=
    fun h1 h2 h3 h4 x hx => hsw.mem_place (u := .supervisor) hlow (by omega) hload h1 h2 h3 h4 hx
  have hidle : ∀ j, ¬ (s.thread j).Active := fun j => h.idle j (by simp [hcur])
  have hnone : s'.current ≠ none := by simp [hcur']
  refine ⟨hb, fun j hj => ?_, fun j hj => ?_, fun j => ?_, fun _ => ?_, fun hst => ?_,
    fun _ hn => absurd hn hnone, fun hn => absurd hn hnone⟩
  · have hne : j ≠ i := by
      rintro rfl
      exact hj hcur'
    rw [hothers j hne]
    exact hidle j
  · obtain rfl : i = j := Option.some.inj (hcur'.symm.trans hj)
    refine ⟨Eq.trans ?_ hkernel, Eq.trans ?_ hrsp0⟩
    · exact Memory.readLE_congr fun x h3 h4 =>
        hplace (p := .cell .kernelRsp) (by simp) (by simp) (by simp) (by simp) x ⟨h3, h4⟩
    · exact Memory.readLE_congr fun x h3 h4 =>
        hplace (p := .cell .rsp0) (by simp) (by simp) (by simp) (by simp) x ⟨h3, h4⟩
  · by_cases hj : j = i
    · subst hj
      exact hok
    · rw [hothers j hj]
      refine (h.threads j).congr (hidle j) (hplace (by simp) (by simp) (by simp) (by simp)) fun _ => ?_
      exact hplace (by simp) (by simpa using hj) (by simp) (by simp)
  · rw [hsup]
    exact hsw.suspended (u := .supervisor) hlow hhigh hload (by simp)
  · rw [hstart] at hst
    cases hst

/-- Shard `i` has switched to the supervisor. -/
theorem Inv.switchOut {s s' : State ι} {i : ι} {e : Cell ι} (h : Inv A s)
    (hcur : s.current = some i) (hcur' : s'.current = none) (hact : (s.thread i).Active)
    (hstart : s'.started = s.started) (hothers : ∀ j, j ≠ i → s'.thread j = s.thread j)
    (hb : ¬ s'.broken) (he : e = .savedKernelRsp i ∨ e = .discardRsp)
    (hcall : Calls A.toLayout s.cpu (.shard i) e .supervisorRsp)
    (hif : s.cpu.interruptible = false) (hdf : s.cpu.backward = false)
    (hsw : Switched A e (s.supervisor.rsp - 48) s.supervisor.reg
      (s.supervisor.word s.supervisor.rsp) s.cpu s'.cpu)
    (hact' : ¬ (s'.thread i).Active) (hok : ThreadOk A s'.cpu i (s'.thread i)) : Inv A s' := by
  have hlow := hcall.low
  have hhigh := hcall.high
  have hsup := h.supervisor (by simp [hcur])
  have hplace : ∀ {p : Place ι}, p ≠ .kernelStack i → p ≠ .supervisorStack → p ≠ .cell e →
      p ≠ .cell .ticks → ∀ x, A.Has p x → s'.cpu.mem x = s.cpu.mem x :=
    fun h1 h2 h3 h4 x hx =>
      hsw.mem_place (u := .shard i) (v := .supervisor) hlow (by omega) hsup.loadable h1 h2 h3 h4 hx
  have hidle : ∀ j, j ≠ i → ¬ (s.thread j).Active := fun j hj =>
    h.idle j (by rw [hcur]; exact fun h => hj (Option.some.inj h).symm)
  refine ⟨hb, fun j _ => ?_, fun j hj => ?_, fun j => ?_, fun hn => absurd hcur' hn, fun hst => ?_,
    fun _ _ => hsw.interruptible.trans hif, fun _ => hsw.backward.trans hdf⟩
  · by_cases hj : j = i
    · subst hj
      exact hact'
    · rw [hothers j hj]
      exact hidle j hj
  · rw [hcur'] at hj
    cases hj
  · by_cases hj : j = i
    · subst hj
      exact hok
    · rw [hothers j hj]
      refine (h.threads j).congr (hidle j hj) (hplace (by simp) (by simp) ?_ (by simp)) fun _ => ?_
      · obtain rfl | rfl := he
        · simpa using hj
        · simp
      · exact hplace (by simpa using hj) (by simp) (by simp) (by simp)
  · rcases h.unstarted (hstart ▸ hst) i with he | he <;> rw [he] at hact <;> exact hact.elim

/-! ### Entering and leaving -/

/-- What `setup_initial_kernel_stack` writes. -/
theorem setup_of_not_own (i : ι) (m : Memory) {x : Nat} (hs : ¬ A.Has (.kernelStack i) x)
    (hc : ¬ A.Has (.cell (.savedKernelRsp i)) x) :
    setupInitialKernelStack A.toLayout i m x = m x := by
  have hs' : ¬ (A.kernelStack i ≤ x ∧ x < A.kernelStack i + 4096) := hs
  have hc' : ¬ (A.cell (.savedKernelRsp i) ≤ x ∧ x < A.cell (.savedKernelRsp i) + 8) := hc
  unfold setupInitialKernelStack
  simp only [List.foldl_cons, List.foldl_nil, Memory.writeU64]
  rw [Memory.writeLE_of_not_mem _ (by omega), Memory.writeLE_of_not_mem _ (by omega),
    Memory.writeLE_of_not_mem _ (by omega), Memory.writeLE_of_not_mem _ (by omega),
    Memory.writeLE_of_not_mem _ (by omega), Memory.writeLE_of_not_mem _ (by omega),
    Memory.writeLE_of_not_mem _ (by omega), Memory.writeLE_of_not_mem _ (by omega)]

theorem setup_loadable (i : ι) (m : Memory) :
    Loadable A (.shard i) (top A i - 56) (fun _ => 0#64) A.shardFirstEntry
      (setupInitialKernelStack A.toLayout i m) := by
  obtain ⟨hlt, hge, -⟩ := top_spec A i
  have htop : top A i = A.kernelStack i + 4096 := rfl
  have hlow : A.low (Owner.shard i).stack = A.kernelStack i := rfl
  have hhigh : A.high (Owner.shard i).stack = A.kernelStack i + 4096 := rfl
  refine ⟨?_, ?_, by omega, by omega⟩
  · exact (Memory.readU64_writeU64 _ (by omega)).trans (by omega)
  · have hcell : ∀ x, top A i - 56 ≤ x → x < top A i → ¬ A.Has (.cell (.savedKernelRsp i)) x :=
      fun x h1 h2 => disjoint_stack_cell (.shard i) _ ⟨by omega, by omega⟩
    unfold setupInitialKernelStack
    simp only [List.foldl_cons, List.foldl_nil]
    refine Frame.congr ?_ fun x h1 h2 => Memory.writeLE_of_not_mem _ ?_
    · have hsub : ∀ k, k ≤ 4096 → A.kernelStack i + 4096 - k = A.kernelStack i + (4096 - k) :=
        fun k hk => by omega
      simp only [top, calleeSaved, List.map_cons, List.map_nil, List.cons_append, List.nil_append,
        hsub 8 (by omega), hsub 16 (by omega), hsub 24 (by omega), hsub 32 (by omega),
        hsub 40 (by omega), hsub 48 (by omega), hsub 56 (by omega), Nat.reduceSub, Frame,
        Nat.add_assoc, Nat.reduceAdd, BitVec.toNat_ofNat, Nat.zero_mod, and_true]
      have hw := A.shardFirstEntry.isLt
      simp (disch := omega) only [Memory.readU64_writeU64_of_disjoint, Memory.readU64_writeU64,
        and_true]
    · have hx : ¬ (A.cell (.savedKernelRsp i) ≤ x ∧ x < A.cell (.savedKernelRsp i) + 8) :=
        hcell x h1 (by simp [calleeSaved] at h2; omega)
      omega

theorem irq_interruptible (c d : Processor) (h : A.Irq c d) : c.interruptible = true := h.1

/-- `shard_first_entry` ends on the user's stack, where an interrupt may still find it in kernel
mode: what it writes there is in the lower half. -/
theorem first_entry {i : ι} {c d : Processor} (hrun : Runs A.Irq firstEntryCode c d)
    (hlow : A.kernelStack i + 64 ≤ c.rsp) (hhigh : c.rsp ≤ top A i) :
    d.reg .r11 = 0x202#64 ∧ d.reg .rcx = 0x1000#64 ∧ d.reg .rsp = 0x800000#64 ∧
      ∀ (p : Place ι) x, A.Has p x → p ≠ .kernelStack i → p ≠ .cell .ticks → d.mem x = c.mem x := by
  have hk := stack_of_place A (p := .kernelStack i) (by simp)
  have hu : Stack 64 (A.Has (.cell .ticks)) A.Irq 0x7FF000 0x800000 :=
    stack A (fun x _ h1 h2 => by have := A.upper (.cell .ticks); have := h2.1; omega) (by decide)
  obtain ⟨d1, q1, hrun⟩ := hrun.cons_inv hk hlow hhigh
  have e1 : (Instr.step d1 .movDs).rsp = c.rsp := q1.rsp_eq
  obtain ⟨d2, q2, hrun⟩ := hrun.cons_inv hk (e1 ▸ hlow) (e1 ▸ hhigh)
  have e2 : (Instr.step d2 .movEs).rsp = c.rsp := q2.rsp_eq.trans e1
  obtain ⟨d3, q3, hrun⟩ := hrun.cons_inv hk (e2 ▸ hlow) (e2 ▸ hhigh)
  -- from here on RSP is the user's
  have e3 : (Instr.step d3 (.movImm .rsp 0x800000#64)).rsp = 0x800000 := rfl
  obtain ⟨d4, q4, hrun⟩ := hrun.cons_inv hu (by omega) (by omega)
  have e4 : (Instr.step d4 (.movImm .rcx 0x1000#64)).rsp = 0x800000 := q4.rsp_eq.trans e3
  obtain ⟨d5, q5, hrun⟩ := hrun.cons_inv hu (by omega) (by omega)
  have e5 : (Instr.step d5 (.movImm .r11 0x202#64)).rsp = 0x800000 := q5.rsp_eq.trans e4
  have q6 := hrun.nil_inv hu (by omega) (by omega)
  have r5 : d5.reg = (Instr.step d4 (.movImm .rcx 0x1000#64)).reg := q5.reg_eq
  have r6 : d.reg = (Instr.step d5 (.movImm .r11 0x202#64)).reg := q6.reg_eq
  refine ⟨?_, ?_, ?_, fun p x hx hpk hpt => ?_⟩
  · rw [r6]
    rfl
  · rw [r6]
    change d5.reg .rcx = _
    rw [r5]
    rfl
  · rw [r6]
    change d5.reg .rsp = _
    rw [r5]
    change d4.reg .rsp = _
    rw [q4.reg_eq]
    rfl
  · have ht : ¬ A.Has (.cell .ticks) x := fun h => hpt (A.disjoint hx h)
    have hup : 0x800000 ≤ x := by
      have := A.upper p
      have := hx.1
      omega
    have hno : ∀ {y : Nat}, y = c.rsp → ¬ (x < y ∧ y ≤ x + 64) := by
      rintro y rfl h
      exact hpk (A.disjoint hx ⟨by change A.kernelStack i ≤ x; omega, by change x < top A i; omega⟩)
    have m1 : d1.mem x = c.mem x := q1.mem x (hno rfl) ht
    have m2 : d2.mem x = d1.mem x := q2.mem x (hno e1) ht
    have m3 : d3.mem x = d2.mem x := q3.mem x (hno e2) ht
    have m4 : d4.mem x = d3.mem x := q4.mem x (fun h => by omega) ht
    have m5 : d5.mem x = d4.mem x := q5.mem x (fun h => by omega) ht
    have m6 : d.mem x = d5.mem x := q6.mem x (fun h => by omega) ht
    rw [m6, m5, m4, m3, m2, m1]

/-- A byte outside the shard's stack, USER_RSP, the tick counter and DISCARD_RSP is somebody
else's. -/
theorem place_of_notOwn {s : State ι} {i : ι} {x : Nat} (h : NotOwn A.toLayout s i (top A i) x) :
    ∃ p, A.Has p x ∧ p ≠ .kernelStack i ∧ p ≠ .cell .ticks ∧ p ≠ .cell .userRsp := by
  cases h with
  | kernelRsp h | rsp0 h | supervisorRsp h | savedKernelRsp h | supervisor h =>
    exact ⟨_, h, by simp, by simp, by simp⟩
  | other hne _ h => exact ⟨_, h, by simpa using hne, by simp, by simp⟩
  | above h hx => exact absurd hx (Nat.not_le.mpr h.2)

/-- The user state that SYSRETQ returns to, from a visit as the entry code began it. -/
theorem sysret_user {i : ι} {v : Visit} {c d : Processor} (hv : VisitOk A i v c.mem)
    (hif : c.interruptible = false) (hgate : v.gate = .syscall) (hrsp : c.rsp = v.callee.rsp)
    (hrun : Runs A.Irq syscallExitCode c.ret d) :
    c.ret.rip = A.dispatchReturn ∧ (d.sysretq star).rip = v.user.rip ∧
      (d.sysretq star).rflags = v.user.rflags ∧ (d.sysretq star).reg .rsp = v.user.reg .rsp ∧
      (∀ r ∈ calleeSaved, (d.sysretq star).reg r = v.user.reg r) ∧
      (d.sysretq star).reg .rax = c.reg .rax ∧ (d.sysretq star).mem = c.mem := by
  obtain ⟨hcallee, hframe⟩ := hv.syscall hgate
  have hexec : d = exec syscallExitCode c.ret := hrun.eq_exec irq_interruptible hif
  obtain ⟨u, hu, h1, h2, h3, h4, h5, -, -, h6⟩ := syscall_exit (hrsp.trans hcallee) hframe
  rw [← hexec] at hu
  rw [hu]
  refine ⟨?_, h1, h2.trans hv.flags, h3, h4, h5, h6⟩
  change c.word c.rsp = _
  rw [hrsp, hcallee]
  exact Frame.word hframe.words

/-- The user state that IRETQ returns to. -/
theorem iret_user {i : ι} {v : Visit} {c d : Processor} (hv : VisitOk A i v c.mem)
    (hif : c.interruptible = false) (hgate : v.gate = .timer) (hrsp : c.rsp = v.callee.rsp)
    (hkept : ∀ r ∈ calleeSaved, c.reg r = v.callee.reg r)
    (hrun : Runs A.Irq timerExitCode c.ret d) :
    c.ret.rip = A.preemptReturn ∧
      d.iretq = { v.user with ds := userDs, es := userDs, mem := c.mem } := by
  obtain ⟨hcallee, hframe, hsaved⟩ := hv.timer hgate
  have hexec : d = exec timerExitCode c.ret := hrun.eq_exec irq_interruptible hif
  refine ⟨?_, ?_⟩
  · change c.word c.rsp = _
    rw [hrsp, hcallee]
    exact Frame.word hframe.ret
  · rw [hexec]
    exact timer_exit (hrsp.trans hcallee) hframe fun r hr => (hkept r hr).trans (hsaved r hr)

/-! ### Every step -/

variable [DecidableEq ι]

theorem Inv.step_enter {s : State ι} {i : ι} {d : Processor} (h : Inv A s)
    (hcur : s.current = some i) (hi : s.thread i = .entering)
    (hlow : A.kernelStack i + 64 ≤ s.cpu.rsp) (hhigh : s.cpu.rsp ≤ top A i)
    (hrun : Runs A.Irq firstEntryCode s.cpu d) :
    Inv A ({ s with cpu := d.sysretq star }.setThread i .user) := by
  obtain ⟨hr11, -, -, hmem⟩ := first_entry hrun hlow hhigh
  refine h.stay hcur hcur rfl rfl (fun j hj => State.setThread_of_ne _ hj _) h.sound
    (by rw [hi]; trivial) (by rw [State.setThread_self]; trivial) (fun x hx => ?_) ?_
  · obtain ⟨p, hp, hk, ht, -⟩ := place_of_notOwn hx
    exact hmem p x hp hk ht
  · rw [State.setThread_self]
    refine ⟨sysretq_cs _, sysretq_ss _, ?_⟩
    change UserFlags (d.sysretq star).rflags
    rw [Processor.sysretq_rflags, hr11]
    unfold UserFlags
    decide

theorem Inv.step_syscall {s : State ι} {i : ι} {e : Processor} (h : Inv A s)
    (hcur : s.current = some i) (hi : s.thread i = .user) (hfwd : s.cpu.backward = false)
    (hrun : Runs A.Irq A.syscallEntryCode (s.cpu.syscall star A.syscallEntry sfmask) e) :
    Inv A ({ s with cpu := e, broken := e.backward = true }.setThread i
      (.kernel ⟨.syscall, s.cpu, e⟩)) := by
  obtain ⟨hlt, hge, -⟩ := top_spec A i
  have htop : top A i = A.kernelStack i + 4096 := rfl
  have hexec := hrun.eq_exec irq_interruptible (syscall_interruptible s.cpu A.syscallEntry)
  obtain ⟨e', he', hrsp, hframe, -, -, hif, hdf, -, hmem⟩ := syscall_entry (h.tops i hcur).1
  obtain rfl : e = e' := hexec.trans he'
  have hfwd' : e.backward = false := hdf.trans hfwd
  have huser := h.threads i
  rw [hi] at huser
  obtain ⟨hcs, hss, hflags⟩ := huser
  refine h.stay hcur hcur rfl rfl (fun j hj => State.setThread_of_ne _ hj _)
    (fun hb => Bool.false_ne_true (hfwd'.symm.trans hb))
    (by rw [hi]; trivial) (by rw [State.setThread_self]; trivial) (fun x hx => ?_) ?_
  · obtain ⟨p, hp, hk, -, hu⟩ := place_of_notOwn hx
    refine hmem x (fun h => hu (A.disjoint hp h)) fun h => hk (A.disjoint hp ?_)
    exact (has_stack i).mpr ⟨by omega, h.2⟩
  · rw [State.setThread_self]
    refine ⟨⟨hcs, hss, hflags, ?_, ?_, fun _ => ⟨hrsp, hframe⟩, fun hg => by cases hg⟩, hif,
      hfwd'⟩
    · change A.kernelStack i ≤ e.rsp
      omega
    · change e.rsp ≤ top A i
      omega

theorem Inv.step_timer {s : State ι} {i : ι} {e : Processor} (h : Inv A s)
    (hcur : s.current = some i) (hi : s.thread i = .user) (hfwd : s.cpu.backward = false)
    (hrun : Runs A.Irq A.timerEntryCode (timerUser A.toLayout s.cpu) e) :
    Inv A ({ s with
      cpu := e
      broken := (timerUser A.toLayout s.cpu).zf = true ∨ e.backward = true }.setThread i
        (.kernel ⟨.timer, s.cpu, e⟩)) := by
  obtain ⟨hlt, hge, -⟩ := top_spec A i
  have htop : top A i = A.kernelStack i + 4096 := rfl
  have huser := h.threads i
  rw [hi] at huser
  obtain ⟨hcs, hss, hflags⟩ := huser
  have hrsp0 := (h.tops i hcur).2
  obtain ⟨d, hd, hzf, hdif, -⟩ := timerUser_spec hrsp0 hcs
  have hexec := hrun.eq_exec irq_interruptible (hd ▸ hdif)
  obtain ⟨e', he', hrsp, hframe, hkept, hif, hdf, -, hmem⟩ := timer_entry hrsp0 hcs
  obtain rfl : e = e' := hexec.trans he'
  have hfwd' : e.backward = false := hdf.trans hfwd
  refine h.stay hcur hcur rfl rfl (fun j hj => State.setThread_of_ne _ hj _) ?_
    (by rw [hi]; trivial) (by rw [State.setThread_self]; trivial) (fun x hx => ?_) ?_
  · change ¬ ((timerUser A.toLayout s.cpu).zf = true ∨ e.backward = true)
    rw [hd, hzf, hfwd']
    simp
  · obtain ⟨p, hp, hk, -, -⟩ := place_of_notOwn hx
    refine hmem x fun h => hk (A.disjoint hp ?_)
    exact (has_stack i).mpr ⟨by omega, h.2⟩
  · rw [State.setThread_self]
    refine ⟨⟨hcs, hss, hflags, ?_, ?_, (fun hg => by cases hg), fun _ => ⟨hrsp, hframe, hkept⟩⟩,
      hif, hfwd'⟩
    · change A.kernelStack i ≤ e.rsp
      omega
    · change e.rsp ≤ top A i
      omega

theorem Inv.step_sysret {s : State ι} {i : ι} {v : Visit} {d : Processor} (h : Inv A s)
    (hcur : s.current = some i) (hi : s.thread i = .kernel v) (hgate : v.gate = .syscall)
    (hrsp : s.cpu.rsp = v.callee.rsp) (hrun : Runs A.Irq syscallExitCode s.cpu.ret d) :
    Inv A ({ s with cpu := d.sysretq star, broken := s.cpu.ret.rip ≠ A.dispatchReturn }.setThread i
      .user) := by
  have hok := h.threads i
  rw [hi] at hok
  obtain ⟨hrip, -, hflags, -, -, -, hmem⟩ := sysret_user hok.1 hok.2.1 hgate hrsp hrun
  refine h.stay hcur hcur rfl rfl (fun j hj => State.setThread_of_ne _ hj _) (fun hb => hb hrip)
    (by rw [hi]; trivial) (by rw [State.setThread_self]; trivial) (fun x hx => congrFun hmem x) ?_
  rw [State.setThread_self]
  refine ⟨sysretq_cs _, sysretq_ss _, ?_⟩
  change UserFlags (d.sysretq star).rflags
  rw [hflags]
  exact hok.1.flags

theorem Inv.step_iret {s : State ι} {i : ι} {v : Visit} {d : Processor} (h : Inv A s)
    (hcur : s.current = some i) (hi : s.thread i = .kernel v) (hgate : v.gate = .timer)
    (hrsp : s.cpu.rsp = v.callee.rsp) (hkept : ∀ r ∈ calleeSaved, s.cpu.reg r = v.callee.reg r)
    (hrun : Runs A.Irq timerExitCode s.cpu.ret d) :
    Inv A ({ s with cpu := d.iretq, broken := s.cpu.ret.rip ≠ A.preemptReturn }.setThread i
      .user) := by
  have hok := h.threads i
  rw [hi] at hok
  obtain ⟨hrip, huser⟩ := iret_user hok.1 hok.2.1 hgate hrsp hkept hrun
  rw [huser]
  refine h.stay hcur hcur rfl rfl (fun j hj => State.setThread_of_ne _ hj _) (fun hb => hb hrip)
    (by rw [hi]; trivial) (by rw [State.setThread_self]; trivial) (fun x hx => rfl) ?_
  rw [State.setThread_self]
  exact ⟨hok.1.cs, hok.1.ss, hok.1.flags⟩

theorem Inv.step_create {s : State ι} {i : ι} (h : Inv A s) (hcur : s.current = none)
    (hst : s.started = false) :
    Inv A ({ s with cpu := { s.cpu with
      mem := setupInitialKernelStack A.toLayout i s.cpu.mem } }.setThread i .fresh) := by
  have hidle : ∀ j, ¬ (s.thread j).Active := fun j => h.idle j (by simp [hcur])
  refine ⟨h.sound, fun j _ => ?_, fun j hj => ?_, fun j => ?_, fun hn => absurd hcur hn,
    fun _ j => ?_, fun hst' => ?_, fun _ => h.forward hcur⟩
  · by_cases hj : j = i
    · subst hj
      rw [State.setThread_self]
      exact id
    · rw [State.setThread_of_ne _ hj]
      exact hidle j
  · exact absurd (hcur.symm.trans hj) (by simp)
  · by_cases hj : j = i
    · subst hj
      rw [State.setThread_self]
      exact setup_loadable j s.cpu.mem
    · rw [State.setThread_of_ne _ hj]
      refine (h.threads j).congr (hidle j) (fun x hx => ?_) fun _ x hx => ?_
      · refine setup_of_not_own i _ (fun h => ?_) (disjoint_cells (by simpa using hj) hx)
        exact disjoint_stack_cell (.shard i) _ h hx
      · refine setup_of_not_own i _ (fun h => hj ?_) (disjoint_stack_cell (.shard j) _ hx)
        exact Place.kernelStack.inj (A.disjoint hx h)
  · by_cases hj : j = i
    · subst hj
      exact .inr (State.setThread_self _ _ _)
    · rw [State.setThread_of_ne _ hj]
      exact h.unstarted hst j
  · rw [show _ = s.started from rfl, hst] at hst'
    cases hst'

theorem Inv.step_dispatch {s : State ι} {i : ι} {v : Visit} {call d : Processor} (h : Inv A s)
    (hcur : s.current = none) (hi : s.thread i = .parked v call)
    (hkernel : s.cpu.mem.readU64 (A.cell .kernelRsp) = top A i)
    (hrsp0 : s.cpu.mem.readU64 (A.cell .rsp0) = top A i)
    (hcall : Calls A.toLayout s.cpu .supervisor .supervisorRsp (.savedKernelRsp i))
    (hrun : Runs A.Irq contextSwitch s.cpu d) :
    Inv A ({ s with
      cpu := d.ret
      current := some i
      supervisor := s.cpu
      started := true
      broken := ¬ Returned (top A i) call d.ret }.setThread i (.kernel v)) := by
  have hlow := hcall.low
  have hhigh := hcall.high
  have hok := h.threads i
  rw [hi] at hok
  obtain ⟨hv, hs, hle⟩ := hok
  have hne : (Owner.supervisor : Owner ι) ≠ .shard i := by simp
  have hsw := switched A hrun hne (by simp [Owner.cell]) (by simp) hcall.rdi hcall.rsi hlow
    (by omega) hs.loadable
  have hdf := h.forward hcur
  have hret : Returned (top A i) call d.ret := hsw.returned hlow (by omega) hne hs hdf
  -- a shard has been parked, so the supervisor was left with interrupts off
  have hif : s.cpu.interruptible = false := by
    refine h.masked ?_ hcur
    by_contra hst
    rcases h.unstarted (Bool.eq_false_iff.mpr hst) i with he | he <;> rw [hi] at he <;> cases he
  refine h.switchIn hcur rfl rfl rfl (fun j hj => State.setThread_of_ne _ hj _)
    (fun hb => hb hret) hkernel hrsp0 hcall hs.loadable hsw ?_
  rw [State.setThread_self]
  refine ⟨hv.congr fun x h1 h2 => ?_, hsw.interruptible.trans hif, hsw.backward.trans hdf⟩
  · have hx : A.Has (Owner.shard i).stack x := ⟨hv.low.trans h1, h2⟩
    have hs1 := hs.low
    refine hsw.mem x (fun hr => ?_) (disjoint_stack_cell (.shard i) _ hx) (fun hr => by omega)
      (disjoint_stack_cell (.shard i) _ hx)
    exact hne.symm (Owner.stack_inj (A.disjoint hx ⟨by omega, by omega⟩))

theorem Inv.step_first {s : State ι} {i : ι} {d : Processor} (h : Inv A s)
    (hcur : s.current = none) (hi : s.thread i = .fresh)
    (hkernel : s.cpu.mem.readU64 (A.cell .kernelRsp) = top A i)
    (hrsp0 : s.cpu.mem.readU64 (A.cell .rsp0) = top A i)
    (hcall : Calls A.toLayout s.cpu .supervisor .supervisorRsp (.savedKernelRsp i))
    (hrun : Runs A.Irq contextSwitch s.cpu d) :
    Inv A ({ s with
      cpu := d.ret
      current := some i
      supervisor := s.cpu
      started := true
      broken := ¬ (d.ret.rip = A.shardFirstEntry ∧ d.ret.rsp = top A i ∧
        d.ret.backward = false) }.setThread i .entering) := by
  obtain ⟨hlt, hge, -⟩ := top_spec A i
  have hhigh := hcall.high
  have hload := h.threads i
  rw [hi] at hload
  have hsw := switched A hrun (u := .supervisor) (v := .shard i) (by simp) (by simp [Owner.cell])
    (by simp) hcall.rdi hcall.rsi hcall.low (by omega) hload
  have hfwd : d.ret.backward = false := hsw.backward.trans (h.forward hcur)
  refine h.switchIn hcur rfl rfl rfl (fun j hj => State.setThread_of_ne _ hj _)
    (fun hb => hb ⟨hsw.same.rip, by rw [hsw.rsp]; omega, hfwd⟩) hkernel hrsp0 hcall hload hsw ?_
  rw [State.setThread_self]
  exact hfwd

/-- Both ways out of the kernel to the supervisor. -/
theorem Inv.step_leave {s : State ι} {i : ι} {v : Visit} {d : Processor} {e : Cell ι} {t : Thread}
    (h : Inv A s) (hcur : s.current = some i) (hi : s.thread i = .kernel v)
    (he : e = .savedKernelRsp i ∧ t = .parked v s.cpu ∨ e = .discardRsp ∧ t = .absent)
    (hcall : Calls A.toLayout s.cpu (.shard i) e .supervisorRsp)
    (hframe : s.cpu.rsp + 8 ≤ v.callee.rsp) (hrun : Runs A.Irq contextSwitch s.cpu d) :
    Inv A ({ s with
      cpu := d.ret
      current := none
      broken := ¬ Returned A.supervisorTop s.supervisor d.ret }.setThread i t) := by
  have hlow := hcall.low
  have hhigh := hcall.high
  have hok := h.threads i
  rw [hi] at hok
  have hsup := h.supervisor (by simp [hcur])
  have hne : (Owner.shard i : Owner ι) ≠ .supervisor := by simp
  have hec : e ≠ .supervisorRsp ∧ e ≠ .ticks := by
    obtain ⟨rfl, -⟩ | ⟨rfl, -⟩ := he <;> simp
  have hsw := switched A hrun hne hec.1 hec.2 hcall.rdi hcall.rsi hlow (by omega) hsup.loadable
  have hret : Returned A.supervisorTop s.supervisor d.ret :=
    hsw.returned (v := .supervisor) hlow (by omega) hne hsup hok.2.2
  refine h.switchOut hcur rfl (by rw [hi]; trivial) rfl (fun j hj => State.setThread_of_ne _ hj _)
    (fun hb => hb hret) (he.imp And.left And.left) hcall hok.2.1 hok.2.2 hsw ?_ ?_
  · rw [State.setThread_self]
    obtain ⟨-, rfl⟩ | ⟨-, rfl⟩ := he <;> exact id
  · rw [State.setThread_self]
    obtain ⟨rfl, rfl⟩ | ⟨-, rfl⟩ := he
    · refine ⟨hok.1.congr fun x h1 h2 => ?_, ?_, hframe⟩
      · exact hsw.mem_above (u := .shard i) (v := .supervisor) hsup.loadable hne
          ⟨hok.1.low.trans h1, h2⟩ (by omega)
      · exact Switched.suspended (u := .shard i) hsw hlow hhigh hsup.loadable hne
    · trivial

theorem Inv.step {s s' : State ι} {ev : Event ι} (h : Inv A s) (hm : Move A ev s s') : Inv A s' := by
  obtain ⟨hs, hfwd⟩ := hm
  cases hs with
  | create hcur hst _ => exact h.step_create hcur hst
  | sti hcur hst =>
    refine ⟨h.sound, h.idle, h.tops, fun j => ?_, h.supervisor, h.unstarted, fun hst' => ?_,
      fun hn => ?_⟩
    · exact (h.threads j).congr (h.idle j (by simp [hcur])) (fun _ _ => rfl) fun _ _ _ => rfl
    · exact absurd (hst.symm.trans hst') (by simp)
    · refine (BitVec.getLsbD_or ..).trans ?_
      rw [show (0x200#64 : Qword).getLsbD 10 = false by decide, Bool.or_false]
      exact h.forward hn
  | supervisor hcur hmem hif hdf =>
    refine ⟨h.sound, h.idle, fun j hj => ?_, fun j => ?_, fun hn => absurd hcur hn, h.unstarted,
      fun hst hn => hif.trans (h.masked hst hn), fun hn => hdf.trans (h.forward hn)⟩
    · exact absurd (hcur.symm.trans hj) (by simp)
    · exact (h.threads j).congr (h.idle j (by simp [hcur])) (fun x hx => hmem x (.cell hx))
        fun hne x hx => hmem x (.stack hne hx)
  | dispatch hcur hi hkernel hrsp0 hcall hrun =>
    exact h.step_dispatch hcur hi hkernel hrsp0 hcall hrun
  | first hcur hi hkernel hrsp0 hcall hrun => exact h.step_first hcur hi hkernel hrsp0 hcall hrun
  | @entering _ i c hcur hi hmem hdf =>
    have hact : (s.thread i).Active := by
      rw [hi]
      trivial
    have hok := h.threads i
    rw [hi] at hok
    refine h.stay hcur hcur rfl rfl (fun _ _ => rfl) h.sound hact hact hmem ?_
    rw [hi]
    exact hdf.trans hok
  | enter hcur hi _ hlow hhigh hrun => exact h.step_enter hcur hi hlow hhigh hrun
  | @user _ i c hcur hi hmem hcs hss hflags =>
    have hact : (s.thread i).Active := by
      rw [hi]
      trivial
    have hok := h.threads i
    rw [hi] at hok
    refine h.stay hcur hcur rfl rfl (fun _ _ => rfl) h.sound hact hact (fun x hx => ?_) ?_
    · obtain ⟨p, hp, -⟩ := place_of_notOwn hx
      exact hmem x ((A.upper p).trans hp.1)
    · rw [hi]
      exact ⟨hcs.trans hok.1, hss.trans hok.2.1, hflags⟩
  | syscall hcur hi hrun => exact h.step_syscall hcur hi (hfwd trivial) hrun
  | timer hcur hi _ hrun => exact h.step_timer hcur hi (hfwd trivial) hrun
  | @fault _ i e hcur hi hmem hif hdf hlow hhigh =>
    have hok := h.threads i
    rw [hi] at hok
    have hfwd' : e.backward = false := hdf.trans (hfwd trivial)
    refine h.stay hcur hcur rfl rfl (fun j hj => State.setThread_of_ne _ hj _)
      (fun hb => Bool.false_ne_true (hfwd'.symm.trans hb))
      (by rw [hi]; trivial) (by rw [State.setThread_self]; trivial) (fun x hx => ?_) ?_
    · obtain ⟨p, hp, hk, -⟩ := place_of_notOwn hx
      exact hmem x fun h => hk (A.disjoint hp h)
    · rw [State.setThread_self]
      exact ⟨⟨hok.1, hok.2.1, hok.2.2, hlow, hhigh, (fun hg => by cases hg), fun hg => by cases hg⟩,
        hif, hfwd'⟩
  | @kernel _ i v c hcur hi hmem hif hdf =>
    have hact : (s.thread i).Active := by
      rw [hi]
      trivial
    have hok := h.threads i
    rw [hi] at hok
    refine h.stay hcur hcur rfl rfl (fun _ _ => rfl) h.sound hact hact (fun x hx => hmem x ?_) ?_
    · cases hx with
      | kernelRsp h => exact .kernelRsp h
      | rsp0 h => exact .rsp0 h
      | supervisorRsp h => exact .supervisorRsp h
      | savedKernelRsp h => exact .savedKernelRsp h
      | supervisor h => exact .supervisor h
      | other hne hj h => exact .other hne hj h
      | above h hx => exact .above h (hok.1.high.trans hx)
    · rw [hi]
      refine ⟨hok.1.congr fun x h1 h2 => hmem x (.above ⟨hok.1.low.trans h1, h2⟩ h1), ?_, ?_⟩
      · exact hif.trans hok.2.1
      · exact hdf.trans hok.2.2
  | yield hcur hi hcall hframe hrun =>
    exact h.step_leave hcur hi (.inl ⟨rfl, rfl⟩) hcall hframe hrun
  | exit hcur hi hcall hframe hrun =>
    exact h.step_leave hcur hi (.inr ⟨rfl, rfl⟩) hcall hframe hrun
  | sysret hcur hi hgate hrsp hrun => exact h.step_sysret hcur hi hgate hrsp hrun
  | iret hcur hi hgate hrsp hkept hrun => exact h.step_iret hcur hi hgate hrsp hkept hrun
  | wild hb => exact absurd hb h.sound

end Invariant
end Coconut.Switching
