import Coconut.Asm

/-!
# Kernel stacks and the switch between them

The supervisor and every shard have a kernel stack.  What a shard was doing when it left user
mode, and what the kernel was doing for it when another shard was chosen, is on that shard's
stack and nowhere else: `syscall_entry` (`syscall.rs`) and the user path of `isr_timer`
(`idt.rs`) push the user's registers, `context_switch` (`scheduler.rs`) pushes the registers
the calling convention says a function keeps and exchanges the stack pointers.  USER_RSP,
the one static in which the entry code keeps a user's register, is overwritten by the next
shard that makes a system call.

The modules that follow the scheduler write such a stack as one value (`SavedContext`).  Here
is what stands behind it: the machine code itself, with timer interrupts between its
instructions wherever they are enabled, run by threads in any order.
-/
namespace Coconut.Switching
open Asm

/-! ## Statics and stacks -/

/-- The eight-byte statics that hold a stack pointer, and the tick counter. -/
inductive Cell (ι : Type) where
  | kernelRsp
  | userRsp
  | supervisorRsp
  | discardRsp
  /-- RSP0 of the task state segment. -/
  | rsp0
  | ticks
  /-- `SHARDS[i].saved_kernel_rsp`. -/
  | savedKernelRsp (i : ι)

inductive Place (ι : Type) where
  | cell (c : Cell ι)
  | kernelStack (i : ι)
  /-- The stack below `__stack_top`, on which `run_loop` runs. -/
  | supervisorStack

structure Layout (ι : Type) where
  cell : Cell ι → Nat
  kernelStack : ι → Nat
  supervisorLow : Nat
  supervisorTop : Nat
  syscallEntry : Qword
  shardFirstEntry : Qword
  isrTimer : Qword
  /-- The return addresses of the calls of `syscall_dispatch` and `timer_preempt`. -/
  dispatchReturn : Qword
  preemptReturn : Qword

namespace Layout
variable {ι : Type} (A : Layout ι)

def low : Place ι → Nat
  | .cell c => A.cell c
  | .kernelStack i => A.kernelStack i
  | .supervisorStack => A.supervisorLow

/-- A kernel stack is one frame. -/
def high : Place ι → Nat
  | .cell c => A.cell c + 8
  | .kernelStack i => A.kernelStack i + 4096
  | .supervisorStack => A.supervisorTop

def Has (p : Place ι) (x : Nat) : Prop := A.low p ≤ x ∧ x < A.high p

end Layout

/-- Addresses that do not collide: no byte is in two places, all are in the upper half, kernel
stacks are aligned, and the supervisor's stack is at least as large as one of them. -/
structure Addresses (ι : Type) extends Layout ι where
  disjoint : ∀ {p q : Place ι} {x : Nat}, toLayout.Has p x → toLayout.Has q x → p = q
  upper : ∀ p, 0xFFFF800000000000 ≤ toLayout.low p
  bound : ∀ p, toLayout.high p < 2 ^ 64
  aligned : ∀ i, kernelStack i % 16 = 0
  roomy : supervisorLow + 4096 ≤ supervisorTop

/-! ## The code -/

/-- The registers a function keeps for its caller, in the order in which `context_switch` pops
them. -/
def calleeSaved : List Reg := [.r15, .r14, .r13, .r12, .rbp, .rbx]

/-- `context_switch`, up to its RET. -/
def contextSwitch : List Instr :=
  calleeSaved.reverse.map .push ++ (.save .rdi .rsp :: .load .rsp .rsi :: calleeSaved.map .pop)

/-- The part of `syscall_entry` behind the call of `syscall_dispatch`, up to its SYSRETQ. -/
def syscallExitCode : List Instr :=
  [.r15, .r14, .r13, .r12, .rbp, .rbx, .r11, .rcx].map .pop ++ [.pop .rsp]

/-- The part of the user path of `isr_timer` behind the call of `timer_preempt`, up to its IRETQ. -/
def timerExitCode : List Instr :=
  [.fxrstor, .add .rsp 512#64] ++ ([.r11, .r10, .r9, .r8, .rdi, .rsi, .rdx, .rcx].map .pop ++
    [.movImm .rax 0x1B#64, .movDs, .movEs, .pop .rax])

/-- The end of `shard_first_entry`, up to its SYSRETQ.  The compiler chooses the register that
holds USER_DS; here it is RAX. -/
def firstEntryCode : List Instr :=
  [.movDs, .movEs, .movImm .rsp 0x800000#64, .movImm .rcx 0x1000#64, .movImm .r11 0x202#64]

namespace Layout
variable {ι : Type} (A : Layout ι)

/-- `syscall_entry`, up to and with the call of `syscall_dispatch`. -/
def syscallEntryCode : List Instr :=
  [.saveAt (A.cell .userRsp) .rsp, .loadAt .rsp (A.cell .kernelRsp), .pushAt (A.cell .userRsp)] ++
    ([.rcx, .r11, .rbx, .rbp, .r12, .r13, .r14, .r15].map .push ++
      [.mov .rcx .rdx, .mov .rdx .rsi, .mov .rsi .rdi, .mov .rdi .rax, .call A.dispatchReturn])

/-- The kernel path of `isr_timer` behind its test, up to its IRETQ. -/
def timerKernelPath : List Instr :=
  [.push .rax, .movImm .rax (BitVec.ofNat 64 (A.cell .ticks)), .inc .rax, .movAl 0x20#8,
    .out 0x20#8, .pop .rax]

/-- The user path of `isr_timer`, up to and with the call of `timer_preempt`. -/
def timerEntryCode : List Instr :=
  [.rax, .rcx, .rdx, .rsi, .rdi, .r8, .r9, .r10, .r11].map .push ++
    [.sub .rsp 512#64, .fxsave, .call A.preemptReturn]

/-- The first two instructions of `isr_timer`, on either stack: `none` where the jump to the
user path is taken. -/
def isrTimerKernel (c : Processor) (stack : Qword) : Option Processor :=
  let d := (Instr.test 8 3#64).step (c.interrupt stack A.isrTimer 0x08#16)
  if d.zf then some (exec A.timerKernelPath d).iretq else none

/-- A timer interrupt in the kernel, which stays on the stack it finds. -/
def Irq (c d : Processor) : Prop :=
  c.interruptible = true ∧ c.cs = 0x08#16 ∧ A.isrTimerKernel c (c.reg .rsp) = some d

end Layout

/-! ## The kernel path of the timer interrupt is quiet -/

theorem and_not_fifteen (w : Qword) : (w &&& ~~~15#64).toNat = w.toNat / 16 * 16 := by
  have hmask : ∀ i, i < 64 → (15#64).getLsbD i = decide (i < 4) := by decide
  have heq : w &&& ~~~15#64 = (w >>> 4) <<< 4 := by
    refine BitVec.eq_of_getLsbD_eq fun i hi => ?_
    rw [BitVec.getLsbD_and, BitVec.getLsbD_not, BitVec.getLsbD_shiftLeft,
      BitVec.getLsbD_ushiftRight, hmask i hi]
    by_cases h : i < 4
    · simp [h]
    · simp [h, hi, show 4 + (i - 4) = i by omega]
  rw [heq, BitVec.toNat_shiftLeft, BitVec.toNat_ushiftRight, Nat.shiftRight_eq_div_pow,
    Nat.shiftLeft_eq]
  exact Nat.mod_eq_of_lt (by have := w.isLt; omega)

section Timer
variable {ι : Type} (A : Addresses ι)

theorem toNat_cell (c : Cell ι) : (BitVec.ofNat 64 (A.cell c)).toNat = A.cell c := by
  have := A.bound (.cell c)
  simp only [Layout.high] at this
  rw [BitVec.toNat_ofNat]
  exact Nat.mod_eq_of_lt (by omega)

/-- What the handler does between its test and its IRETQ: it counts, and below its stack pointer
it has kept RAX. -/
theorem exec_timerKernelPath {c : Processor} (h8 : 8 ≤ c.rsp)
    (hfree : ∀ x, c.rsp ≤ x + 8 → x < c.rsp → ¬ A.Has (.cell .ticks) x) :
    ∃ (m : Memory) (f : Qword), exec A.timerKernelPath c = { c with rflags := f, mem := m } ∧
      ∀ x, ¬ (c.rsp ≤ x + 8 ∧ x < c.rsp) → ¬ A.Has (.cell .ticks) x → m x = c.mem x := by
  let c1 := c.push (c.reg .rax)
  let c2 := c1.set .rax (BitVec.ofNat 64 (A.cell .ticks))
  let c3 := Instr.step c2 (.inc .rax)
  let c4 := Instr.step c3 (.movAl 0x20#8)
  have hp : Pushed 0 (A.Has (.cell .ticks)) [c.reg .rax] c c1 := Pushed.push _ h8
  have hrsp : c1.rsp = c.rsp - 8 := Processor.rsp_push _ h8
  have hm3 : ∀ x, ¬ A.Has (.cell .ticks) x → c3.mem x = c1.mem x := by
    intro x hx
    refine Processor.store_mem_of_not_mem _ ?_
    rw [show c2.reg .rax = BitVec.ofNat 64 (A.cell .ticks) from c1.set_reg_self _ _,
      toNat_cell A .ticks]
    have : ¬ (A.cell .ticks ≤ x ∧ x < A.cell .ticks + 8) := hx
    omega
  have hfr : Frame c4.mem c4.rsp [c.reg .rax] := by
    refine Frame.congr hp.frame fun x h1 h2 => hm3 x (hfree x ?_ ?_)
    · change c1.rsp ≤ x at h1
      omega
    · change x < c1.rsp + 8 * 1 at h2
      omega
  have hreg : (c4.pop .rax).reg = c.reg := by
    funext r
    by_cases hr : r = .rax
    · rw [hr, Processor.pop_reg_self, hfr.word]
    · by_cases hs : r = .rsp
      · subst hs
        refine (Processor.set_reg_of_ne (by decide) _).trans ((Processor.set_reg_self _ _ _).trans ?_)
        change c.reg .rsp - 8#64 + 8#64 = c.reg .rsp
        exact BitVec.sub_add_cancel _ _
      · rw [Processor.pop_reg_of_ne hr hs]
        refine (Processor.set_reg_of_ne hr _).trans ((Processor.set_reg_of_ne hr _).trans ?_)
        exact Processor.push_reg_of_ne _ hs
  refine ⟨c3.mem, c3.rflags, ?_, fun x hx ht => (hm3 x ht).trans (hp.mem x (fun h => hx ?_) ht)⟩
  · change c4.pop .rax = _
    rw [← hreg]
    rfl
  · omega

/-- In the kernel the handler leaves every register as it was. -/
theorem irq_quiet {c d : Processor} (h : A.Irq c d) (h64 : 64 ≤ c.rsp)
    (hfree : ∀ x, c.rsp ≤ x + 64 → x < c.rsp → ¬ A.Has (.cell .ticks) x) :
    Quiet 64 (A.Has (.cell .ticks)) c d := by
  obtain ⟨-, hcs, hd⟩ := h
  have hbase := and_not_fifteen (c.reg .rsp)
  have hrsp : (c.reg .rsp).toNat = c.rsp := rfl
  have hint := c.interrupted (c.reg .rsp) A.isrTimer 0x08#16 (by omega)
  revert hd hint
  unfold Layout.isrTimerKernel
  generalize c.interrupt (c.reg .rsp) A.isrTimer 0x08#16 = d0
  intro hd hint
  let d1 := Instr.step d0 (.test 8 3#64)
  have hbase' := hint.rsp
  have hd1 : d1.rsp = d0.rsp := rfl
  obtain ⟨m, f, hexec, hm⟩ := exec_timerKernelPath A (c := d1) (by omega)
    fun x h1 h2 => hfree x (by omega) (by omega)
  -- the code segment on the stack is the kernel's
  have hzf : d1.zf = true := by
    refine (Processor.setFlags_zf _ _ _).trans ?_
    rw [Frame.word hint.frame.2, hcs]
    decide
  simp only [show (Instr.test 8 3#64).step d0 = d1 from rfl, hzf, if_true, Option.some.injEq, hexec] at hd
  have hfr : Frame m d0.rsp [c.rip, c.cs.setWidth 64, c.rflags, c.reg .rsp, c.ss.setWidth 64] := by
    refine hint.frame.congr fun x h1 h2 => hm x (fun h => by omega) (hfree x ?_ ?_)
    · omega
    · simp only [List.length_cons, List.length_nil] at h2
      omega
  have hiret := Processor.iretq_eq (c := c) (d := { d1 with rflags := f, mem := m }) hfr hint.others
  rw [hiret] at hd
  have hsame : d1.ds = c.ds ∧ d1.es = c.es ∧ d1.fx = c.fx := by
    change d0.ds = c.ds ∧ d0.es = c.es ∧ d0.fx = c.fx
    rw [hint.regs]
    exact ⟨rfl, rfl, rfl⟩
  rw [hsame.1, hsame.2.1, hsame.2.2] at hd
  subst hd
  refine ⟨rfl, fun x hx ht => ?_⟩
  exact (hm x (fun h => hx (by omega)) ht).trans (hint.mem x fun h => hx (by omega))

/-- Each place that is a stack is one in the sense of `Asm.Stack`. -/
theorem stack {lo hi : Nat} (hfree : ∀ x, lo ≤ x → x < hi → ¬ A.Has (.cell .ticks) x)
    (hb : hi < 2 ^ 64) : Stack 64 (A.Has (.cell .ticks)) A.Irq lo hi where
  free := hfree
  quiet _ _ h1 h2 h := irq_quiet A h (by omega) fun x h3 h4 => hfree x (by omega) (by omega)
  bound := hb

theorem stack_of_place {p : Place ι} (hp : p ≠ .cell .ticks) :
    Stack 64 (A.Has (.cell .ticks)) A.Irq (A.low p) (A.high p) :=
  stack A (fun _ h1 h2 h => hp (A.disjoint ⟨h1, h2⟩ h)) (A.bound p)

end Timer

/-! ## The switch -/

/-- Who has a kernel stack. -/
inductive Owner (ι : Type) where
  | supervisor
  | shard (i : ι)

namespace Owner
variable {ι : Type}

def stack : Owner ι → Place ι
  | supervisor => .supervisorStack
  | shard i => .kernelStack i

/-- Where the stack pointer is kept while another stack is in use. -/
def cell : Owner ι → Cell ι
  | supervisor => .supervisorRsp
  | shard i => .savedKernelRsp i

theorem stack_inj {u v : Owner ι} (h : u.stack = v.stack) : u = v := by
  cases u <;> cases v <;> simp_all [stack]

theorem stack_ne_cell (u : Owner ι) (c : Cell ι) : u.stack ≠ .cell c := by
  cases u <;> simp [stack]

theorem cell_ne_ticks (u : Owner ι) : u.cell ≠ .ticks := by cases u <;> simp [cell]

end Owner

/-- A stack that `context_switch` can load: its pointer is in the cell, and there the words are
that its pops and its RET take. -/
structure Loadable {ι : Type} (A : Addresses ι) (v : Owner ι) (a : Nat) (f : Reg → Qword) (w : Qword)
    (m : Memory) : Prop where
  cell : m.readU64 (A.cell v.cell) = a
  frame : Frame m a (calleeSaved.map f ++ [w])
  low : A.low v.stack + 64 ≤ a
  high : a + 56 ≤ A.high v.stack

/-- `c` has called `context_switch`, with `s` as the cell to save to, and `d` is what it returned
to. -/
structure Switched {ι : Type} (A : Addresses ι) (s : Cell ι) (a : Nat)
    (f : Reg → Qword) (w : Qword) (c d : Processor) : Prop where
  rsp : d.rsp = a + 56
  kept : ∀ r ∈ calleeSaved, d.reg r = f r
  same : SameState { c with rip := w } d
  saved : d.mem.readU64 (A.cell s) = c.rsp - 48
  frame : Frame d.mem (c.rsp - 48) (calleeSaved.map c.reg)
  mem : ∀ x, ¬ (c.rsp ≤ x + 112 ∧ x < c.rsp) → ¬ A.Has (.cell s) x →
    ¬ (a ≤ x + 64 ∧ x < a + 56) → ¬ A.Has (.cell .ticks) x → d.mem x = c.mem x

section Switch
variable {ι : Type} (A : Addresses ι)

theorem not_mem_calleeSaved : Reg.rsp ∉ calleeSaved := by decide

/-- On the old stack: six pushes, and the stack pointer goes to the cell. -/
theorem switch_save {u v : Owner ι} {s : Cell ι} {c d : Processor}
    (hrun : Runs A.Irq contextSwitch c d) (hsv : s ≠ v.cell) (hst : s ≠ .ticks)
    (hrdi : (c.reg .rdi).toNat = A.cell s) (hrsi : (c.reg .rsi).toNat = A.cell v.cell)
    (h1 : A.low u.stack + 112 ≤ c.rsp) (h2 : c.rsp ≤ A.high u.stack) :
    ∃ e, Runs A.Irq (calleeSaved.map .pop) e d ∧
      SameState c e ∧ e.rsp = c.mem.readU64 (A.cell v.cell) ∧
      e.mem.readU64 (A.cell s) = c.rsp - 48 ∧
      Frame e.mem (c.rsp - 48) (calleeSaved.map c.reg) ∧
      ∀ x, ¬ (c.rsp ≤ x + 112 ∧ x < c.rsp) → ¬ A.Has (.cell s) x → ¬ A.Has (.cell .ticks) x →
        e.mem x = c.mem x := by
  have hu := stack_of_place A (u.stack_ne_cell .ticks)
  have hcell : ∀ x, A.low u.stack ≤ x → x < A.high u.stack → ∀ e, ¬ A.Has (.cell e) x :=
    fun x h3 h4 e h => u.stack_ne_cell e (A.disjoint ⟨h3, h4⟩ h)
  have hcells : ∀ {e e' : Cell ι}, e ≠ e' → ∀ x, A.Has (.cell e) x → ¬ A.Has (.cell e') x :=
    fun hne x h h' => hne (Place.cell.inj (A.disjoint h h'))
  have hb := A.bound u.stack
  obtain ⟨d1, hp, hrun⟩ := Runs.push_inv hu calleeSaved.reverse (by decide) hrun
    (by simp only [calleeSaved, List.length_reverse, List.length_cons, List.length_nil]; omega) h2
  have hrsp := hp.rsp
  simp only [calleeSaved, List.length_reverse, List.length_map, List.length_cons,
    List.length_nil] at hrsp
  obtain ⟨d2, hq, hrun⟩ := hrun.cons_inv hu (by omega) (by omega)
  have hd2 : ∀ r, r ≠ .rsp → d2.reg r = c.reg r := fun r hr =>
    (congrFun hq.reg_eq r).trans (hp.others r hr)
  let d3 := d2.store (d2.reg .rdi).toNat (d2.reg .rsp)
  have hd3 : d3.rsp = c.rsp - 48 := by
    change d2.rsp = _
    rw [hq.rsp_eq]
    omega
  change Runs A.Irq _ d3 d at hrun
  obtain ⟨d4, hq', hrun⟩ := hrun.cons_inv hu (by omega) (by omega)
  have hrdi' : (d2.reg .rdi).toNat = A.cell s := by rw [hd2 _ (by decide), hrdi]
  have hsp : (d2.reg .rsp).toNat = c.rsp - 48 := hd3
  -- the bytes that differ after each of the four stages
  have m1 : ∀ x, ¬ (c.rsp ≤ x + 112 ∧ x < c.rsp) → ¬ A.Has (.cell .ticks) x → d1.mem x = c.mem x :=
    fun x hx => hp.mem x fun h => hx (by omega)
  have m2 : ∀ x, ¬ (c.rsp ≤ x + 112 ∧ x < c.rsp - 48) → ¬ A.Has (.cell .ticks) x →
      d2.mem x = d1.mem x := fun x hx => hq.mem x fun h => hx (by omega)
  have m3 : ∀ x, ¬ A.Has (.cell s) x → d3.mem x = d2.mem x := by
    intro x hx
    refine Processor.store_mem_of_not_mem _ ?_
    rw [hrdi']
    have : ¬ (A.cell s ≤ x ∧ x < A.cell s + 8) := hx
    omega
  have m4 : ∀ x, ¬ (c.rsp ≤ x + 112 ∧ x < c.rsp - 48) → ¬ A.Has (.cell .ticks) x →
      d4.mem x = d3.mem x := fun x hx => hq'.mem x fun h => hx (by omega)
  have hmem : ∀ x, ¬ (c.rsp ≤ x + 112 ∧ x < c.rsp) → ¬ A.Has (.cell s) x →
      ¬ A.Has (.cell .ticks) x → d4.mem x = c.mem x := fun x hx hs ht =>
    (m4 x (fun h => hx (by omega)) ht).trans ((m3 x hs).trans ((m2 x (fun h => hx (by omega)) ht).trans
      (m1 x hx ht)))
  have h23 : SameState d2 d3 := ⟨rfl, rfl, rfl, rfl, rfl, rfl, rfl⟩
  have hsame : SameState c d4 := hp.same.trans (hq.same.trans (h23.trans hq'.same))
  refine ⟨_, hrun, hsame.trans ⟨rfl, rfl, rfl, rfl, rfl, rfl, rfl⟩, ?_, ?_, ?_, hmem⟩
  · refine (congrArg BitVec.toNat (d4.set_reg_self _ _)).trans ?_
    rw [hq'.reg_eq, show d3.reg .rsi = c.reg .rsi from hd2 _ (by decide), hrsi]
    refine (Nat.mod_eq_of_lt (d4.mem.readU64_lt _)).trans (Memory.readLE_congr fun x h3 h4 => ?_)
    have hx : A.Has (.cell v.cell) x := ⟨h3, h4⟩
    exact hmem x (fun h => hcell x (by omega) (by omega) _ hx) (hcells hsv.symm x hx)
      (hcells v.cell_ne_ticks x hx)
  · refine (Memory.readLE_congr fun x h3 h4 => m4 x (fun h => ?_) ?_).trans ?_
    · exact hcell x (by omega) (by omega) s ⟨h3, h4⟩
    · exact hcells hst x ⟨h3, h4⟩
    · refine Eq.trans ?_ hsp
      rw [← hrdi']
      exact d2.mem.readU64_writeU64 (d2.reg .rsp).isLt
  · have hf : Frame d1.mem (c.rsp - 48) (calleeSaved.map c.reg) := by
      have := hp.frame
      rwa [List.map_reverse, List.reverse_reverse, show d1.rsp = c.rsp - 48 by omega] at this
    refine hf.congr fun x h3 h4 => ?_
    simp only [calleeSaved, List.length_map, List.length_cons, List.length_nil] at h4
    have hx := hcell x (by omega) (by omega)
    exact (m4 x (fun h => by omega) (hx _)).trans ((m3 x (hx _)).trans
      (m2 x (fun h => by omega) (hx _)))

/-- On the new stack: six pops and RET. -/
theorem switch_load {v : Owner ι} {a : Nat} {f : Reg → Qword} {w : Qword} {e d : Processor}
    (hrun : Runs A.Irq (calleeSaved.map .pop) e d) (hrsp : e.rsp = a)
    (hf : Frame e.mem a (calleeSaved.map f ++ [w])) (h1 : A.low v.stack + 64 ≤ a)
    (h2 : a + 56 ≤ A.high v.stack) :
    SameState { e with rip := w } d.ret ∧ d.ret.rsp = a + 56 ∧
      (∀ r ∈ calleeSaved, d.ret.reg r = f r) ∧
      ∀ x, ¬ (a ≤ x + 64 ∧ x < a + 56) → ¬ A.Has (.cell .ticks) x → d.ret.mem x = e.mem x := by
  have hv := stack_of_place A (v.stack_ne_cell .ticks)
  have hb := A.bound v.stack
  subst hrsp
  rw [← List.append_nil (calleeSaved.map Instr.pop)] at hrun
  obtain ⟨d1, hp, hrun⟩ := Runs.pop_inv hv calleeSaved f (by decide) hrun hf.left h1
    (by simp only [calleeSaved, List.length_cons, List.length_nil]; omega)
  have hd1 := hp.rsp
  simp only [calleeSaved, List.length_cons, List.length_nil] at hd1
  have hq := hrun.nil_inv hv (by omega) (by omega)
  have hrsp := hq.rsp_eq
  -- the return address is above the stack pointer all the time
  have hw : Frame d.mem d.rsp [w] := by
    have hr : Frame e.mem (e.rsp + 48) [w] := hf.right rfl
    rw [hrsp, hd1]
    refine hr.congr fun x h3 h4 => ?_
    simp only [List.length_cons, List.length_nil] at h4
    have ht := hv.free x (by omega) (by omega)
    exact (hq.mem x (fun h => by omega) ht).trans (hp.mem x (fun h => by omega) ht)
  have hsame := hp.same.trans hq.same
  refine ⟨⟨hw.word, hsame.rflags, hsame.cs, hsame.ss, hsame.ds, hsame.es, hsame.fx⟩, ?_,
    fun r hr => ?_, fun x hx ht => ?_⟩
  · rw [Processor.rsp_ret (by omega)]
    omega
  · have hne : r ≠ .rsp := fun h => not_mem_calleeSaved (h ▸ hr)
    exact (Processor.ret_reg_of_ne hne).trans ((congrFun hq.reg_eq r).trans (hp.loaded r hr))
  · exact (hq.mem x (fun h => hx (by omega)) ht).trans (hp.mem x (fun h => hx (by omega)) ht)

theorem switched {u v : Owner ι} {s : Cell ι} {a : Nat} {f : Reg → Qword} {w : Qword}
    {c d : Processor} (hrun : Runs A.Irq contextSwitch c d) (huv : u ≠ v) (hsv : s ≠ v.cell)
    (hst : s ≠ .ticks) (hrdi : (c.reg .rdi).toNat = A.cell s)
    (hrsi : (c.reg .rsi).toNat = A.cell v.cell) (h1 : A.low u.stack + 112 ≤ c.rsp)
    (h2 : c.rsp ≤ A.high u.stack) (hv : Loadable A v a f w c.mem) :
    Switched A s a f w c d.ret := by
  have hlow := hv.low
  have hhigh := hv.high
  have hcell : ∀ (o : Owner ι) (x : Nat), A.low o.stack ≤ x → x < A.high o.stack →
      ∀ e, ¬ A.Has (.cell e) x := fun o x h3 h4 e h => o.stack_ne_cell e (A.disjoint ⟨h3, h4⟩ h)
  have hother : ∀ x, A.low u.stack ≤ x → x < A.high u.stack → A.low v.stack ≤ x →
      x < A.high v.stack → False := fun x h3 h4 h5 h6 =>
    huv (Owner.stack_inj (A.disjoint ⟨h3, h4⟩ ⟨h5, h6⟩))
  obtain ⟨e, hrun, he, hrsp, hsaved, hframe, hmem⟩ := switch_save A hrun hsv hst hrdi hrsi h1 h2
  rw [hv.cell] at hrsp
  have hf : Frame e.mem a (calleeSaved.map f ++ [w]) := by
    refine hv.frame.congr fun x h3 h4 => ?_
    simp only [calleeSaved, List.length_append, List.length_map, List.length_cons,
      List.length_nil] at h4
    have hx := hcell v x (by omega) (by omega)
    exact hmem x (fun h => hother x (by omega) (by omega) (by omega) (by omega)) (hx _) (hx _)
  obtain ⟨hsame, hrsp', hkept, hmem'⟩ := switch_load A hrun hrsp hf hlow hhigh
  have hce : SameState { c with rip := w } { e with rip := w } :=
    ⟨rfl, he.rflags, he.cs, he.ss, he.ds, he.es, he.fx⟩
  refine ⟨hrsp', hkept, hce.trans hsame, ?_, ?_, ?_⟩
  · refine (Memory.readLE_congr fun x h3 h4 => hmem' x (fun h => ?_) fun ht => ?_).trans hsaved
    · exact hcell v x (by omega) (by omega) s ⟨h3, h4⟩
    · exact hst (Place.cell.inj (A.disjoint ⟨h3, h4⟩ ht))
  · refine hframe.congr fun x h3 h4 => ?_
    simp only [calleeSaved, List.length_map, List.length_cons, List.length_nil] at h4
    exact hmem' x (fun h => hother x (by omega) (by omega) (by omega) (by omega))
      (hcell u x (by omega) (by omega) _)
  · exact fun x h3 h4 h5 h6 => (hmem' x h5 h6).trans (hmem x h3 h4 h6)

end Switch
end Coconut.Switching
