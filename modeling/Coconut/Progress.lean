import Coconut.Resumption
import Coconut.Segments
import Coconut.Roster

/-!
# What the threads can do next

The invariant of `Threads` says what a step may not do.  Here it is shown to be enough for the
steps that the scheduler relies on: a shard in user mode can come into the kernel by each gate,
from there it can return, be parked or end, and the supervisor can enter a shard that is fresh
or parked.  The registers with which a system call is made and answered are those that the
model of the system gives (`Carries`).
-/
namespace Coconut.Switching
open Asm Segments

/-! ## Processors -/

section
variable {ι : Type} {A : Addresses ι}

/-- A processor that calls `context_switch(save, load)` with the stack pointer `rsp`. -/
def calling (A : Addresses ι) (save load : Cell ι) (rsp : Nat) (c : Processor) : Processor :=
  ((c.set .rdi (BitVec.ofNat 64 (A.cell save))).set .rsi (BitVec.ofNat 64 (A.cell load))).set .rsp
    (BitVec.ofNat 64 rsp)

theorem rsp_calling {rsp : Nat} (h : rsp < 2 ^ 64) (save load : Cell ι) (c : Processor) :
    (calling A save load rsp c).rsp = rsp :=
  (BitVec.toNat_ofNat ..).trans (Nat.mod_eq_of_lt h)

theorem calls_calling {o : Owner ι} {rsp : Nat} (save load : Cell ι) (c : Processor)
    (hlow : A.low o.stack + 112 ≤ rsp) (hhigh : rsp + 8 ≤ A.high o.stack) :
    Calls A.toLayout (calling A save load rsp c) o save load := by
  have hb := A.bound o.stack
  have hrsp := rsp_calling (A := A) (show rsp < 2 ^ 64 by omega) save load c
  exact ⟨toNat_cell A save, toNat_cell A load, by omega, by omega⟩

/-- What `run_loop` does before it switches to shard `i`: it sets both stack pointers and calls
`context_switch` on its own stack. -/
def prepare (A : Addresses ι) (i : ι) (c : Processor) : Processor :=
  calling A .supervisorRsp (.savedKernelRsp i) (A.supervisorTop - 8)
    ((c.store (A.cell .kernelRsp) (BitVec.ofNat 64 (top A i))).store (A.cell .rsp0)
      (BitVec.ofNat 64 (top A i)))

theorem cells_disjoint {e e' : Cell ι} (h : e ≠ e') :
    A.cell e + 8 ≤ A.cell e' ∨ A.cell e' + 8 ≤ A.cell e := by
  by_contra hn
  have h1 : A.Has (.cell e) (max (A.cell e) (A.cell e')) :=
    ⟨le_max_left .., by change _ < A.cell e + 8; omega⟩
  have h2 : A.Has (.cell e') (max (A.cell e) (A.cell e')) :=
    ⟨le_max_right .., by change _ < A.cell e' + 8; omega⟩
  exact h (Place.cell.inj (A.disjoint h1 h2))

theorem prepare_mem {s : State ι} (i : ι) {y : Nat} (hy : OfShards A.toLayout s y) (c : Processor) :
    (prepare A i c).mem y = c.mem y := by
  have hk : ¬ A.Has (.cell .kernelRsp) y ∧ ¬ A.Has (.cell .rsp0) y := by
    cases hy with
    | cell h => exact ⟨disjoint_cells (by simp) h, disjoint_cells (by simp) h⟩
    | @stack j _ h => exact ⟨disjoint_stack_cell (.shard j) _ h, disjoint_stack_cell (.shard j) _ h⟩
  have h1 : ¬ (A.cell .kernelRsp ≤ y ∧ y < A.cell .kernelRsp + 8) := hk.1
  have h2 : ¬ (A.cell .rsp0 ≤ y ∧ y < A.cell .rsp0 + 8) := hk.2
  exact (Processor.store_mem_of_not_mem _ (by omega)).trans
    (Processor.store_mem_of_not_mem _ (by omega))

theorem prepare_tops (A : Addresses ι) (i : ι) (c : Processor) :
    (prepare A i c).mem.readU64 (A.cell .kernelRsp) = top A i ∧
      (prepare A i c).mem.readU64 (A.cell .rsp0) = top A i := by
  have hlt := (top_spec A i).1
  have hv : (BitVec.ofNat 64 (top A i)).toNat = top A i :=
    (BitVec.toNat_ofNat ..).trans (Nat.mod_eq_of_lt hlt)
  simp only [prepare, calling, Processor.set_mem, Processor.store, hv]
  refine ⟨(Memory.readU64_writeU64_of_disjoint _ (cells_disjoint (by simp))).trans ?_, ?_⟩
  · exact Memory.readU64_writeU64 _ hlt
  · exact Memory.readU64_writeU64 _ hlt

/-- The first instruction of the Rust function that a fault handler calls, in the simplest case:
on an empty stack. -/
def faultEntry (A : Addresses ι) (i : ι) (c : Processor) : Processor :=
  { c.set .rsp (BitVec.ofNat 64 (top A i)) with rflags := c.rflags &&& ~~~0x200#64 }

theorem rsp_faultEntry (A : Addresses ι) (i : ι) (c : Processor) :
    (faultEntry A i c).rsp = top A i :=
  (BitVec.toNat_ofNat ..).trans (Nat.mod_eq_of_lt (top_spec A i).1)

theorem faultEntry_flags (A : Addresses ι) (i : ι) (c : Processor) :
    (faultEntry A i c).interruptible = false ∧ (faultEntry A i c).backward = c.backward := by
  constructor
  · refine (BitVec.getLsbD_and ..).trans ?_
    rw [show (~~~0x200#64 : Qword).getLsbD 9 = false by decide, Bool.and_false]
  · refine (BitVec.getLsbD_and ..).trans ?_
    rw [show (~~~0x200#64 : Qword).getLsbD 10 = true by decide, Bool.and_true]
    rfl

/-- The registers with which a system call is made. -/
def callRegs : Option Action → Reg → Qword
  | some (.syscall nr _ _ _ _), .rax => nr.toBitVec
  | some (.syscall _ a0 _ _ _), .rdi => a0.toBitVec
  | some (.syscall _ _ a1 _ _), .rsi => a1.toBitVec
  | some (.syscall _ _ _ a2 _), .rdx => a2.toBitVec
  | _, _ => 0#64

end

/-! ## Steps for an action -/

section
variable {ι : Type} [DecidableEq ι]

/-- A step, for the action `a` of the system and the system call `x` that it answers: the call
is made with the arguments of `a`, and answered with the result of `x`. -/
structure Carries (A : Addresses ι) (a : Option Action) (x : Option Coconut.Returned) (ev : Event ι)
    (s s' : State ι) : Prop extends Move A ev s s' where
  calls : ∀ i nr a0 a1 a2 tsc, ev = .syscall i → a = some (.syscall nr a0 a1 a2 tsc) →
    [Reg.rax, .rdi, .rsi, .rdx].map s.cpu.reg = [nr, a0, a1, a2].map UInt64.toBitVec
  answers : ∀ i y, ev = .sysret i → x = some y → s.cpu.reg .rax = BitVec.ofNat 64 y.result

variable {A : Addresses ι} {a : Option Action} {x : Option Coconut.Returned} {i : ι}
  {s s' : State ι} {ev : Event ι}

/-- A step that neither enters the kernel nor answers a call. -/
theorem Step.carries (h : Step A ev s s') (hn : ¬ ev.Enters) (hr : ∀ i, ev ≠ .sysret i) :
    Carries A a x ev s s' :=
  ⟨⟨h, fun he => absurd he hn⟩, fun _ _ _ _ _ _ he => absurd (he ▸ trivial) hn,
    fun i _ he => absurd he (hr i)⟩

theorem path_inv {evs : List (Event ι)} (hp : Path (Carries A a x) s evs s') (h : Inv A s) :
    Inv A s' := hp.preserves (fun h hc => h.step hc.toMove) h

/-! ## Steps that change nothing -/

theorem supervisor_waits (hcur : s.current = none) : Carries A a x .supervisor s s :=
  Step.carries (.supervisor hcur (fun _ _ => rfl) rfl rfl) id fun _ h => by cases h

theorem user_waits (h : Inv A s) (hcur : s.current = some i) (hi : s.thread i = .user) :
    Carries A a x (.user i) s s := by
  have hok := h.threads i
  rw [hi] at hok
  exact Step.carries (.user hcur hi (fun _ _ => rfl) rfl rfl hok.2.2) id fun _ h => by cases h

/-! ## Into the kernel -/

/-- User code has loaded the registers of a call. -/
theorem exists_user (a : Option Action) (x : Option Coconut.Returned) (hcur : s.current = some i)
    (hi : s.thread i = .user) :
    ∃ s', Carries A a x (.user i) s s' ∧ s'.current = some i ∧ s'.thread i = .user ∧
      s'.cpu.rflags = 0x202#64 ∧ s'.cpu.reg = callRegs a := by
  have hflags : UserFlags 0x202#64 := by
    unfold UserFlags
    decide
  exact ⟨{ s with cpu := { s.cpu with rflags := 0x202#64, reg := callRegs a } },
    Step.carries (.user hcur hi (fun _ _ => rfl) rfl rfl hflags) id fun _ h => (by cases h),
    hcur, hi, rfl, rfl⟩

/-- What is left of the stack for the Rust code behind a gate. -/
def Roomy (A : Addresses ι) (i : ι) (v : Visit) : Prop := A.kernelStack i + 2056 ≤ v.callee.rsp

theorem exists_syscall (h : Inv A s) (hcur : s.current = some i) (hi : s.thread i = .user)
    (hreg : s.cpu.reg = callRegs a) (hfwd : s.cpu.backward = false) :
    ∃ s' v, Carries A a x (.syscall i) s s' ∧ s'.current = some i ∧ s'.thread i = .kernel v ∧
      v.gate = .syscall ∧ Roomy A i v := by
  have hstep : Step A (.syscall i) s _ := .syscall hcur hi (Runs.of_exec _ _ _)
  have hm : Move A (.syscall i) s _ := ⟨hstep, fun _ => hfwd⟩
  have hok := (h.step hm).threads i
  rw [State.setThread_self] at hok
  refine ⟨_, _, ⟨hm, ?_, fun i y h => by cases h⟩, hcur, State.setThread_self _ _ _, rfl, ?_⟩
  · rintro j nr a0 a1 a2 tsc - rfl
    rw [hreg]
    rfl
  · unfold Roomy
    rw [(hok.1.syscall rfl).1, top]
    omega

theorem exists_timer (h : Inv A s) (hcur : s.current = some i) (hi : s.thread i = .user)
    (hif : s.cpu.interruptible = true) (hfwd : s.cpu.backward = false) :
    ∃ s' v, Carries A a x (.timer i) s s' ∧ s'.current = some i ∧ s'.thread i = .kernel v ∧
      v.gate = .timer ∧ Roomy A i v := by
  have hstep : Step A (.timer i) s _ := .timer hcur hi hif (Runs.of_exec _ _ _)
  have hm : Move A (.timer i) s _ := ⟨hstep, fun _ => hfwd⟩
  have hok := (h.step hm).threads i
  rw [State.setThread_self] at hok
  refine ⟨_, _, ⟨hm, (fun _ _ _ _ _ _ h => by cases h), fun i y h => by cases h⟩, hcur,
    State.setThread_self _ _ _, rfl, ?_⟩
  unfold Roomy
  rw [(hok.1.timer rfl).1, top]
  omega

theorem exists_fault (hcur : s.current = some i) (hi : s.thread i = .user)
    (hfwd : s.cpu.backward = false) :
    ∃ s' v, Carries A a x (.fault i) s s' ∧ s'.current = some i ∧ s'.thread i = .kernel v ∧
      v.gate = .fault ∧ Roomy A i v := by
  have htop : top A i = A.kernelStack i + 4096 := rfl
  have hrsp := rsp_faultEntry A i s.cpu
  obtain ⟨hif, hdf⟩ := faultEntry_flags A i s.cpu
  have hstep : Step A (.fault i) s _ := .fault (e := faultEntry A i s.cpu) hcur hi
    (fun _ _ => rfl) hif hdf (by omega) (Nat.le_of_eq hrsp)
  refine ⟨_, _,
    ⟨⟨hstep, fun _ => hfwd⟩, (fun _ _ _ _ _ _ h => by cases h), fun i y h => by cases h⟩, hcur, State.setThread_self _ _ _, rfl, ?_⟩
  change A.kernelStack i + 2056 ≤ (faultEntry A i s.cpu).rsp
  omega

/-- A shard in user mode can come into the kernel by each gate. -/
theorem exists_entry (g : Gate) (a : Option Action) (x : Option Coconut.Returned) (h : Inv A s)
    (hcur : s.current = some i) (hi : s.thread i = .user) :
    ∃ s' v, Path (Carries A a x) s [.user i, g.event i] s' ∧ s'.current = some i ∧
      s'.thread i = .kernel v ∧ v.gate = g ∧ Roomy A i v := by
  obtain ⟨s1, h1, hcur1, hi1, hflags, hreg⟩ := exists_user (A := A) a x hcur hi
  have hinv1 := h.step h1.toMove
  have hif : s1.cpu.interruptible = true := by
    rw [Processor.interruptible, hflags]
    decide
  have hfwd : s1.cpu.backward = false := by
    rw [Processor.backward, hflags]
    decide
  obtain ⟨s', v, hs, hrest⟩ : ∃ s' v, Carries A a x (g.event i) s1 s' ∧ s'.current = some i ∧
      s'.thread i = .kernel v ∧ v.gate = g ∧ Roomy A i v := by
    cases g with
    | syscall => exact exists_syscall hinv1 hcur1 hi1 hreg hfwd
    | timer => exact exists_timer hinv1 hcur1 hi1 hif hfwd
    | fault => exact exists_fault hcur1 hi1 hfwd
  exact ⟨s', v, .cons h1 (.cons hs (.nil _)), hrest⟩

/-! ## Out of the kernel -/

theorem kernel_calls {v : Visit} (hcur : s.current = some i) (hi : s.thread i = .kernel v)
    (save load : Cell ι) :
    ∃ s', Carries A a x (.kernel i) s s' ∧ s'.current = some i ∧ s'.thread i = .kernel v ∧
      s'.cpu.rsp = A.kernelStack i + 2048 ∧ Calls A.toLayout s'.cpu (.shard i) save load := by
  obtain ⟨hlt, -, -⟩ := top_spec A i
  have htop : top A i = A.kernelStack i + 4096 := rfl
  refine ⟨{ s with cpu := calling A save load (A.kernelStack i + 2048) s.cpu },
    Step.carries (.kernel hcur hi (fun _ _ => rfl) rfl rfl) id fun _ h => (by cases h), hcur, hi,
    rsp_calling (by omega) save load _, calls_calling save load _ ?_ ?_⟩
  · change A.kernelStack i + 112 ≤ _
    omega
  · change _ ≤ A.kernelStack i + 4096
    omega

/-- A shard in the kernel can be parked. -/
theorem exists_yield {v : Visit} (hcur : s.current = some i) (hi : s.thread i = .kernel v)
    (hroom : Roomy A i v) : ∃ s', Path (Carries A a x) s [.kernel i, .yield i] s' := by
  obtain ⟨s1, h1, hcur1, hi1, hrsp, hcalls⟩ := kernel_calls (A := A) (a := a) (x := x) hcur hi
    (.savedKernelRsp i) .supervisorRsp
  unfold Roomy at hroom
  exact ⟨_, .cons h1 (.cons (Step.carries (.yield hcur1 hi1 hcalls (by omega) (Runs.of_exec _ _ _))
    id fun _ h => by cases h) (.nil _))⟩

/-- It can end. -/
theorem exists_exit {v : Visit} (hcur : s.current = some i) (hi : s.thread i = .kernel v)
    (hroom : Roomy A i v) : ∃ s', Path (Carries A a x) s [.kernel i, .exit i] s' := by
  obtain ⟨s1, h1, hcur1, hi1, hrsp, hcalls⟩ := kernel_calls (A := A) (a := a) (x := x) hcur hi
    .discardRsp .supervisorRsp
  unfold Roomy at hroom
  exact ⟨_, .cons h1 (.cons (Step.carries (.exit hcur1 hi1 hcalls (by omega) (Runs.of_exec _ _ _))
    id fun _ h => by cases h) (.nil _))⟩

/-- The Rust function returns with `rax`. -/
theorem kernel_returns {v : Visit} (hcur : s.current = some i) (hi : s.thread i = .kernel v)
    (rax : Qword) :
    ∃ s', Carries A a x (.kernel i) s s' ∧ s'.current = some i ∧ s'.thread i = .kernel v ∧
      ∀ r, s'.cpu.reg r = if r = .rax then rax else v.callee.reg r :=
  ⟨{ s with cpu := { s.cpu with reg := fun r => if r = .rax then rax else v.callee.reg r } },
    Step.carries (.kernel hcur hi (fun _ _ => rfl) rfl rfl) id fun _ h => (by cases h), hcur, hi,
    fun _ => rfl⟩

/-- A system call can be answered. -/
theorem exists_sysret {v : Visit} (hcur : s.current = some i) (hi : s.thread i = .kernel v)
    (hgate : v.gate = .syscall) : ∃ s', Path (Carries A a x) s [.kernel i, .sysret i] s' := by
  obtain ⟨s1, h1, hcur1, hi1, hreg⟩ := kernel_returns (A := A) (a := a) (x := x) hcur hi
    (BitVec.ofNat 64 ((x.map (·.result)).getD 0))
  have hrsp : s1.cpu.rsp = v.callee.rsp := congrArg BitVec.toNat (hreg .rsp)
  have hstep : Step A (.sysret i) s1 _ := .sysret hcur1 hi1 hgate hrsp (Runs.of_exec _ _ _)
  refine ⟨_, .cons h1 (.cons
    ⟨⟨hstep, fun h => h.elim⟩, (fun _ _ _ _ _ _ h => by cases h), ?_⟩ (.nil _))⟩
  rintro j y - rfl
  exact hreg .rax

/-- A preempted shard can be resumed. -/
theorem exists_iret {v : Visit} (hcur : s.current = some i) (hi : s.thread i = .kernel v)
    (hgate : v.gate = .timer) : ∃ s', Path (Carries A a x) s [.kernel i, .iret i] s' := by
  obtain ⟨s1, h1, hcur1, hi1, hreg⟩ := kernel_returns (A := A) (a := a) (x := x) hcur hi 0#64
  have hrsp : s1.cpu.rsp = v.callee.rsp := congrArg BitVec.toNat (hreg .rsp)
  have hkept : ∀ r ∈ calleeSaved, s1.cpu.reg r = v.callee.reg r := fun r hr =>
    (hreg r).trans (if_neg (by revert r; decide))
  exact ⟨_, .cons h1 (.cons (Step.carries (.iret hcur1 hi1 hgate hrsp hkept (Runs.of_exec _ _ _)) id
    fun _ h => by cases h) (.nil _))⟩

/-! ## Out of the supervisor -/

/-- The supervisor is about to switch to shard `i`, which stays as it is. -/
theorem supervisor_calls (hcur : s.current = none) (i : ι) :
    ∃ s', Carries A a x .supervisor s s' ∧ s'.current = none ∧ s'.thread = s.thread ∧
      s'.cpu.mem.readU64 (A.cell .kernelRsp) = top A i ∧
      s'.cpu.mem.readU64 (A.cell .rsp0) = top A i ∧
      Calls A.toLayout s'.cpu .supervisor .supervisorRsp (.savedKernelRsp i) := by
  have hroom := A.roomy
  obtain ⟨h1, h2⟩ := prepare_tops A i s.cpu
  refine ⟨{ s with cpu := prepare A i s.cpu },
    Step.carries (.supervisor hcur (fun y hy => prepare_mem i hy _) rfl rfl) id
      fun _ h => (by cases h), hcur, rfl, h1, h2, calls_calling _ _ _ ?_ ?_⟩
  · change A.supervisorLow + 112 ≤ _
    omega
  · change _ ≤ A.supervisorTop
    omega

/-- A parked shard can go on in the kernel. -/
theorem exists_dispatch {v : Visit} {call : Processor} (hcur : s.current = none)
    (hi : s.thread i = .parked v call) :
    ∃ s', Path (Carries A a x) s [.supervisor, .dispatch i] s' ∧ s'.current = some i ∧
      s'.thread i = .kernel v := by
  obtain ⟨s1, h1, hcur1, hth1, hk, hr, hcalls⟩ := supervisor_calls (A := A) (a := a) (x := x) hcur i
  have hi1 : s1.thread i = .parked v call := (congrFun hth1 i).trans hi
  exact ⟨_, .cons h1 (.cons (Step.carries (.dispatch hcur1 hi1 hk hr hcalls (Runs.of_exec _ _ _)) id
    fun _ h => by cases h) (.nil _)), rfl, State.setThread_self _ _ _⟩

/-- A fresh shard can enter user mode. -/
theorem exists_first (hcur : s.current = none) (hi : s.thread i = .fresh) :
    ∃ s', Path (Carries A a x) s [.supervisor, .first i, .entering i, .enter i] s' := by
  obtain ⟨hlt, -, -⟩ := top_spec A i
  have htop : top A i = A.kernelStack i + 4096 := rfl
  obtain ⟨s1, h1, hcur1, hth1, hk, hr, hcalls⟩ := supervisor_calls (A := A) (a := a) (x := x) hcur i
  have hi1 : s1.thread i = .fresh := (congrFun hth1 i).trans hi
  obtain ⟨s2, h2, hcur2, hi2⟩ : ∃ s2, Carries A a x (.first i) s1 s2 ∧ s2.current = some i ∧
      s2.thread i = .entering :=
    ⟨_, Step.carries (.first hcur1 hi1 hk hr hcalls (Runs.of_exec _ _ _)) id
      fun _ h => (by cases h), rfl, State.setThread_self _ _ _⟩
  -- the code before SYSRETQ leaves its stack pointer on the kernel stack
  let c := (s2.cpu.set .rax 0x1B#64).set .rsp (BitVec.ofNat 64 (top A i))
  have hrsp : c.rsp = top A i := (BitVec.toNat_ofNat ..).trans (Nat.mod_eq_of_lt hlt)
  have hrax : (c.reg .rax).setWidth 16 = userDs := (by decide : (0x1B#64).setWidth 16 = userDs)
  have h3 : Carries A a x (.entering i) s2 { s2 with cpu := c } :=
    Step.carries (.entering hcur2 hi2 (fun _ _ => rfl) rfl) id fun _ h => by cases h
  exact ⟨_, .cons h1 (.cons h2 (.cons h3 (.cons (Step.carries (.enter hcur2 hi2 hrax
    (show _ ≤ c.rsp by omega) (show c.rsp ≤ _ by omega) (Runs.of_exec _ _ _)) id
    fun _ h => by cases h) (.nil _))))⟩

/-! ## The beginning -/

/-- The shards of a list are created. -/
theorem exists_boot {s : State ι} (hcur : s.current = none) (hst : s.started = false)
    (l : List ι) (hl : l.Nodup) (habs : ∀ i ∈ l, s.thread i = .absent) :
    ∃ s', Path (Move A) s (l.map .create) s' ∧ s'.current = none ∧
      ∀ i, s'.thread i = if i ∈ l then .fresh else s.thread i := by
  induction l generalizing s with
  | nil => exact ⟨s, .nil s, hcur, fun i => rfl⟩
  | cons i l ih =>
    obtain ⟨hnot, hl⟩ := List.nodup_cons.mp hl
    obtain ⟨s1, h1, hcur1, hst1, hth1⟩ : ∃ s1, Step A (.create i) s s1 ∧ s1.current = none ∧
        s1.started = false ∧ ∀ j, s1.thread j = if j = i then .fresh else s.thread j :=
      ⟨_, .create hcur hst (habs i List.mem_cons_self), hcur, hst, fun _ => rfl⟩
    obtain ⟨s', hp, hcur', hth⟩ := ih hcur1 hst1 hl fun j hj => by
      rw [hth1, if_neg (by rintro rfl; exact hnot hj)]
      exact habs j (List.mem_cons_of_mem _ hj)
    refine ⟨s', .cons ⟨h1, fun h => h.elim⟩ hp, hcur', fun j => ?_⟩
    rw [hth j, hth1 j]
    by_cases hji : j = i
    · subst hji
      rw [if_neg hnot, if_pos rfl, if_pos List.mem_cons_self]
    · simp only [List.mem_cons, hji, false_or, if_false]

end
end Coconut.Switching
