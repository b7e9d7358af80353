import Coconut.Switching

/-!
# What entry code saves and exit code restores

`syscall_entry` (`syscall.rs`) and the user path of `isr_timer` (`idt.rs`) on one kernel stack:
what each leaves on the stack when it calls into Rust (`SyscallFrame`, `TimerFrame`), and that
the second half of each, run on such a stack, gives the user's state back.  Both run with
interrupts disabled.
-/
namespace Coconut.Switching
open Asm

/-- STAR and SFMASK as `syscall::init` writes them. -/
def star : Qword := 0x10#64 <<< 48 ||| 0x08#64 <<< 32

def sfmask : Qword := 0x200#64 ||| 0x100#64

/-- USER_CS and USER_DS. -/
def userCs : BitVec 16 := 0x20#16 ||| 3#16

def userDs : BitVec 16 := 0x18#16 ||| 3#16

/-- The flags a user runs with: SYSRETQ can restore all that are set. -/
def UserFlags (f : Qword) : Prop := f &&& 0x3C7FD7#64 ||| 2#64 = f

section
variable {ι : Type} (A : Addresses ι) (i : ι)

/-- `kernel_stack_top`. -/
def top : Nat := A.kernelStack i + 4096

/-- The stack `syscall_dispatch` is called on, for the user state `c`. -/
structure SyscallFrame (c : Processor) (m : Memory) : Prop where
  words : Frame m (top A i - 80) (A.dispatchReturn :: (calleeSaved.map c.reg ++
    [c.rflags, c.rip, c.reg .rsp]))

/-- The stack `timer_preempt` is called on. -/
structure TimerFrame (c : Processor) (m : Memory) : Prop where
  ret : Frame m (top A i - 632) [A.preemptReturn]
  fx : ∀ k : Fin 512, m (top A i - 624 + k) = c.fx k
  words : Frame m (top A i - 112)
    ([Reg.r11, .r10, .r9, .r8, .rdi, .rsi, .rdx, .rcx, .rax].map c.reg ++
      [c.rip, c.cs.setWidth 64, c.rflags, c.reg .rsp, c.ss.setWidth 64])

end

section Syscall
variable {ι : Type} {A : Addresses ι} {i : ι} {c : Processor}

theorem top_spec (A : Addresses ι) (i : ι) :
    top A i < 2 ^ 64 ∧ 0xFFFF800000000000 + 4096 ≤ top A i ∧ top A i % 16 = 0 := by
  have h1 := A.bound (.kernelStack i)
  have h2 := A.upper (.kernelStack i)
  have h3 := A.aligned i
  simp only [Layout.low, Layout.high] at h1 h2
  unfold top
  omega

/-- SYSCALL masks interrupts. -/
theorem syscall_interruptible (c : Processor) (entry : Qword) :
    (c.syscall star entry sfmask).interruptible = false := by
  change (c.rflags &&& ~~~sfmask).getLsbD 9 = false
  rw [BitVec.getLsbD_and, show (~~~sfmask).getLsbD 9 = false by decide, Bool.and_false]

/-- It does not clear the direction flag. -/
theorem syscall_backward (c : Processor) (entry : Qword) :
    (c.syscall star entry sfmask).backward = c.backward := by
  change (c.rflags &&& ~~~sfmask).getLsbD 10 = c.rflags.getLsbD 10
  rw [BitVec.getLsbD_and, show (~~~sfmask).getLsbD 10 = true by decide, Bool.and_true]

/-- The first three instructions: the user's stack pointer goes through USER_RSP onto the kernel
stack. -/
theorem syscall_stack (hk : c.mem.readU64 (A.cell .kernelRsp) = top A i) (is : List Instr) :
    ∃ e, exec (.saveAt (A.cell .userRsp) .rsp :: .loadAt .rsp (A.cell .kernelRsp) ::
        .pushAt (A.cell .userRsp) :: is) c = exec is e ∧
      e.rsp + 8 = top A i ∧ Frame e.mem e.rsp [c.reg .rsp] ∧ SameState c e ∧
      (∀ r, r ≠ .rsp → e.reg r = c.reg r) ∧
      ∀ x, ¬ A.Has (.cell .userRsp) x → ¬ (top A i ≤ x + 8 ∧ x < top A i) → e.mem x = c.mem x := by
  obtain ⟨hlt, hge, -⟩ := top_spec A i
  let c1 := c.store (A.cell .userRsp) (c.reg .rsp)
  let c2 := c1.set .rsp (c1.word (A.cell .kernelRsp))
  have hm1 : ∀ x, ¬ A.Has (.cell .userRsp) x → c1.mem x = c.mem x := by
    intro x hx
    have : ¬ (A.cell .userRsp ≤ x ∧ x < A.cell .userRsp + 8) := hx
    exact Processor.store_mem_of_not_mem _ (by omega)
  have hrsp : c2.rsp = top A i := by
    refine (congrArg BitVec.toNat (c1.set_reg_self _ _)).trans ?_
    refine (Nat.mod_eq_of_lt (c1.mem.readU64_lt _)).trans (Eq.trans ?_ hk)
    refine Memory.readLE_congr fun x h1 h2 => hm1 x fun h => ?_
    have hx : A.Has (.cell .kernelRsp) x := ⟨h1, h2⟩
    exact absurd (A.disjoint hx h) (by simp)
  have hw : c2.word (A.cell .userRsp) = c.reg .rsp :=
    Frame.word (c := c2) (c.frame_store (A.cell .userRsp) (c.reg .rsp))
  have hp : Pushed 0 (fun _ => False) [c.reg .rsp] c2 (c2.push (c.reg .rsp)) :=
    Pushed.push _ (by omega)
  have h3 := hp.rsp
  simp only [List.length_cons, List.length_nil] at h3
  refine ⟨c2.push (c.reg .rsp), congrArg (exec is) (congrArg c2.push hw), by omega, hp.frame, ?_, ?_, ?_⟩
  · exact SameState.trans (d := c2) ⟨rfl, rfl, rfl, rfl, rfl, rfl, rfl⟩ hp.same
  · exact fun r hr => (hp.others r hr).trans (Processor.set_reg_of_ne hr _)
  · exact fun x hx hx' => (hp.mem x (fun h => hx' (by omega)) id).trans (hm1 x hx)

/-- What the call of `syscall_dispatch` finds. -/
theorem syscall_entry (hk : c.mem.readU64 (A.cell .kernelRsp) = top A i) :
    ∃ e, exec A.syscallEntryCode (c.syscall star A.syscallEntry sfmask) = e ∧
      e.rsp = top A i - 80 ∧ SyscallFrame A i c e.mem ∧
      (∀ r ∈ calleeSaved, e.reg r = c.reg r) ∧
      [Reg.rdi, .rsi, .rdx, .rcx].map e.reg = [Reg.rax, .rdi, .rsi, .rdx].map c.reg ∧
      e.interruptible = false ∧ e.backward = c.backward ∧ e.cs = 0x08#16 ∧
      ∀ x, ¬ A.Has (.cell .userRsp) x → ¬ (top A i ≤ x + 80 ∧ x < top A i) → e.mem x = c.mem x := by
  obtain ⟨hlt, hge, -⟩ := top_spec A i
  let c0 := c.syscall star A.syscallEntry sfmask
  obtain ⟨e1, he1, hrsp1, hf1, hs1, ho1, hm1⟩ := syscall_stack (c := c0) hk
    ([Reg.rcx, .r11, .rbx, .rbp, .r12, .r13, .r14, .r15].map .push ++
      [.mov .rcx .rdx, .mov .rdx .rsi, .mov .rsi .rdi, .mov .rdi .rax, .call A.dispatchReturn])
  have hreg1 : ∀ r, r ≠ .rsp → r ≠ .rcx → r ≠ .r11 → e1.reg r = c.reg r := fun r h1 h2 h3 =>
    (ho1 r h1).trans (c.syscall_reg_of_ne h2 h3 _ _ _)
  obtain ⟨e2, hp2, he2⟩ := exec_push (c := e1) [.rcx, .r11, .rbx, .rbp, .r12, .r13, .r14, .r15]
    (by decide) [.mov .rcx .rdx, .mov .rdx .rsi, .mov .rsi .rdi, .mov .rdi .rax,
      .call A.dispatchReturn] (by simp only [List.length_cons, List.length_nil]; omega)
  have hrsp2 := hp2.rsp
  simp only [List.length_reverse, List.length_map, List.length_cons, List.length_nil] at hrsp2
  let e3 := (((e2.set .rcx (e2.reg .rdx)).set .rdx (e2.reg .rsi)).set .rsi (e2.reg .rdi)).set .rdi
    (e2.reg .rax)
  have hp3 : Pushed 0 (fun _ => False) [A.dispatchReturn] e3 (e3.push A.dispatchReturn) :=
    Pushed.push _ (by change 8 ≤ e2.rsp; omega)
  have hrsp3 : (e3.push A.dispatchReturn).rsp + 8 * 1 = e2.rsp := hp3.rsp
  have hexec : exec A.syscallEntryCode c0 = e3.push A.dispatchReturn := he1.trans he2
  have hwords : ([Reg.rcx, .r11, .rbx, .rbp, .r12, .r13, .r14, .r15].map e1.reg).reverse =
      calleeSaved.map c.reg ++ [c.rflags, c.rip] := by
    have hr11 : e1.reg .r11 = c.rflags := ho1 _ (by decide)
    have hrcx : e1.reg .rcx = c.rip := ho1 _ (by decide)
    simp only [calleeSaved, List.map_cons, List.map_nil, List.reverse_cons, List.reverse_nil,
      List.nil_append, List.cons_append, hr11, hrcx]
    rw [hreg1 .rbx, hreg1 .rbp, hreg1 .r12, hreg1 .r13, hreg1 .r14, hreg1 .r15] <;> decide
  have hreg2 : ∀ r, r ≠ .rsp → r ≠ .rcx → r ≠ .r11 → e2.reg r = c.reg r := fun r h1 h2 h3 =>
    (hp2.others r h1).trans (hreg1 r h1 h2 h3)
  have hm3 : ∀ x, top A i ≤ x + 72 → (e3.push A.dispatchReturn).mem x = e2.mem x := fun x hx =>
    hp3.mem x (fun h => by change _ ∧ x < e2.rsp at h; omega) id
  have hm2 : ∀ x, top A i ≤ x + 8 → e2.mem x = e1.mem x := fun x hx =>
    hp2.mem x (fun h => by omega) id
  refine ⟨_, hexec, by omega, ⟨?_⟩, ?_, ?_, ?_, ?_, ?_, ?_⟩
  · have hr : Frame (e3.push A.dispatchReturn).mem (top A i - 80) [A.dispatchReturn] := by
      rw [show top A i - 80 = (e3.push A.dispatchReturn).rsp by omega]
      exact hp3.frame
    have hs : Frame (e3.push A.dispatchReturn).mem (top A i - 72)
        (calleeSaved.map c.reg ++ [c.rflags, c.rip]) := by
      rw [show top A i - 72 = e2.rsp by omega, ← hwords]
      exact hp2.frame.congr fun x h1 _ => hm3 x (by omega)
    have hu : Frame (e3.push A.dispatchReturn).mem (top A i - 8) [c.reg .rsp] := by
      rw [show top A i - 8 = e1.rsp by omega]
      exact hf1.congr fun x h1 _ => (hm3 x (by omega)).trans (hm2 x (by omega))
    have h := hr.append (hs.append hu (by simp [calleeSaved]; omega)) (by simp; omega)
    rwa [List.append_assoc] at h
  · intro r hr
    have hne : r ≠ .rsp ∧ r ≠ .rcx ∧ r ≠ .r11 ∧ r ≠ .rdx ∧ r ≠ .rsi ∧ r ≠ .rdi := by
      revert r; decide
    obtain ⟨h1, h2, h3, h4, h5, h6⟩ := hne
    rw [Processor.push_reg_of_ne _ h1, Processor.set_reg_of_ne h6, Processor.set_reg_of_ne h5,
      Processor.set_reg_of_ne h4, Processor.set_reg_of_ne h2, hreg2 r h1 h2 h3]
  · have hargs : [Reg.rdi, .rsi, .rdx, .rcx].map (e3.push A.dispatchReturn).reg =
        [Reg.rax, .rdi, .rsi, .rdx].map e2.reg := rfl
    rw [hargs]
    simp only [List.map_cons, List.map_nil]
    rw [hreg2 .rax, hreg2 .rdi, hreg2 .rsi, hreg2 .rdx] <;> decide
  · rw [← hexec, exec_interruptible]
    exact syscall_interruptible c _
  · rw [← hexec, exec_backward]
    exact syscall_backward c _
  · change e2.cs = _
    rw [hp2.same.cs, hs1.cs]
    rfl
  · intro x hx hx'
    have h3 : (e3.push A.dispatchReturn).mem x = e2.mem x :=
      hp3.mem x (fun h => hx' (by change _ ∧ x < e2.rsp at h; omega)) id
    exact h3.trans ((hp2.mem x (fun h => hx' (by omega)) id).trans
      (hm1 x hx fun h => hx' (by omega)))

theorem sysretq_cs (c : Processor) : (c.sysretq star).cs = userCs :=
  (by decide : (star >>> 48).setWidth 16 + 16#16 ||| 3#16 = userCs)

theorem sysretq_ss (c : Processor) : (c.sysretq star).ss = userDs :=
  (by decide : (star >>> 48).setWidth 16 + 8#16 ||| 3#16 = userDs)

/-- What SYSRETQ returns to, from the stack that the entry code left. -/
theorem syscall_exit {d : Processor} (hrsp : d.rsp = top A i - 80) (hf : SyscallFrame A i c d.mem) :
    ∃ u, (exec syscallExitCode d.ret).sysretq star = u ∧ u.rip = c.rip ∧
      u.rflags = c.rflags &&& 0x3C7FD7#64 ||| 2#64 ∧ u.reg .rsp = c.reg .rsp ∧
      (∀ r ∈ calleeSaved, u.reg r = c.reg r) ∧ u.reg .rax = d.reg .rax ∧
      u.cs = userCs ∧ u.ss = userDs ∧ u.mem = d.mem := by
  obtain ⟨hlt, hge, -⟩ := top_spec A i
  let f : Reg → Qword := fun r => if r = .r11 then c.rflags else if r = .rcx then c.rip else c.reg r
  have hd : d.ret.rsp = top A i - 72 := by
    rw [Processor.rsp_ret (by omega)]
    omega
  have hwords : Frame d.ret.mem d.ret.rsp
      ([Reg.r15, .r14, .r13, .r12, .rbp, .rbx, .r11, .rcx].map f ++ [c.reg .rsp]) := by
    rw [hd, show top A i - 72 = top A i - 80 + 8 by omega]
    exact hf.words.2
  obtain ⟨e, hp, hmem, hexec⟩ := exec_pop (c := d.ret)
    [.r15, .r14, .r13, .r12, .rbp, .rbx, .r11, .rcx] f (by decide) [.pop .rsp] hwords.left
    (by simp only [List.length_cons, List.length_nil]; omega)
  have hlast : Frame e.mem e.rsp [c.reg .rsp] := by
    rw [hmem, hp.rsp]
    exact hwords.right rfl
  have hreg : ∀ r, r ≠ .rsp → (e.pop .rsp).reg r = e.reg r := fun r hr =>
    Processor.pop_reg_of_ne hr hr
  have hpop : exec syscallExitCode d.ret = e.pop .rsp := hexec
  rw [hpop]
  refine ⟨_, rfl, ?_, ?_, ?_, ?_, ?_, sysretq_cs _, sysretq_ss _, hmem⟩
  · rw [Processor.sysretq_rip, hreg _ (by decide), hp.loaded .rcx (by decide)]
    rfl
  · have hr11 : (e.pop .rsp).reg .r11 = c.rflags :=
      (hreg _ (by decide)).trans (hp.loaded .r11 (by decide))
    rw [Processor.sysretq_rflags, hr11]
  · rw [Processor.sysretq_reg, Processor.pop_reg_self, hlast.word]
  · intro r hr
    have hne : r ≠ .rsp ∧ r ≠ .r11 ∧ r ≠ .rcx ∧
        r ∈ [Reg.r15, .r14, .r13, .r12, .rbp, .rbx, .r11, .rcx] := by
      revert r; decide
    rw [Processor.sysretq_reg, hreg r hne.1, hp.loaded r hne.2.2.2]
    exact (if_neg hne.2.1).trans (if_neg hne.2.2.1)
  · rw [Processor.sysretq_reg, hreg _ (by decide), hp.others .rax (by decide) (by decide),
      Processor.ret_reg_of_ne (by decide)]

end Syscall

section Timer
variable {ι : Type} {A : Addresses ι} {i : ι} {c : Processor}

/-- `isr_timer` from user mode, up to the jump to its user path. -/
def timerUser (A : Layout ι) (c : Processor) : Processor :=
  (Instr.test 8 3#64).step (c.interrupt (c.word (A.cell .rsp0)) A.isrTimer 0x08#16)

/-- The handler is on the kernel stack, and the jump is taken. -/
theorem timerUser_spec (hk : c.mem.readU64 (A.cell .rsp0) = top A i) (hcs : c.cs = userCs) :
    ∃ d, timerUser A.toLayout c = d ∧ d.zf = false ∧ d.interruptible = false ∧
      d.backward = c.backward ∧ d.cs = 0x08#16 ∧ d.fx = c.fx ∧ d.rsp = top A i - 40 ∧
      (∀ r, r ≠ .rsp → d.reg r = c.reg r) ∧
      Frame d.mem (top A i - 40)
        [c.rip, c.cs.setWidth 64, c.rflags, c.reg .rsp, c.ss.setWidth 64] ∧
      ∀ x, ¬ (top A i ≤ x + 40 ∧ x < top A i) → d.mem x = c.mem x := by
  obtain ⟨hlt, hge, hal⟩ := top_spec A i
  have hword : c.word (A.cell .rsp0) = BitVec.ofNat 64 (top A i) := congrArg (BitVec.ofNat 64) hk
  have hbase : (c.word (A.cell .rsp0) &&& ~~~15#64).toNat = top A i := by
    rw [and_not_fifteen, hword, BitVec.toNat_ofNat, Nat.mod_eq_of_lt hlt]
    omega
  have hint := c.interrupted (c.word (A.cell .rsp0)) A.isrTimer 0x08#16 (by omega)
  rw [hbase] at hint
  unfold timerUser
  generalize c.interrupt (c.word (A.cell .rsp0)) A.isrTimer 0x08#16 = d at hint ⊢
  have hrsp := hint.rsp
  have hfr := hint.frame
  rw [show d.rsp = top A i - 40 by omega] at hfr
  refine ⟨_, rfl, ?_, ?_, ?_, ?_, ?_, ?_, hint.others, hfr,
    fun x hx => hint.mem x fun h => hx (by omega)⟩
  · refine (Processor.setFlags_zf _ _ _).trans ?_
    rw [Frame.word hint.frame.2, hcs]
    decide
  · rw [Instr.step_interruptible, Processor.interruptible, hint.regs]
    change (c.rflags &&& ~~~0x14300#64).getLsbD 9 = false
    rw [BitVec.getLsbD_and, show (~~~0x14300#64 : Qword).getLsbD 9 = false by decide, Bool.and_false]
  · refine (Instr.step_getLsbD _ _ (by decide)).trans ?_
    rw [hint.regs]
    change (c.rflags &&& ~~~0x14300#64).getLsbD 10 = c.rflags.getLsbD 10
    rw [BitVec.getLsbD_and, show (~~~0x14300#64 : Qword).getLsbD 10 = true by decide, Bool.and_true]
  · change d.cs = _
    rw [hint.regs]
  · change d.fx = _
    rw [hint.regs]
  · change d.rsp = _
    omega

/-- What the call of `timer_preempt` finds. -/
theorem timer_entry (hk : c.mem.readU64 (A.cell .rsp0) = top A i) (hcs : c.cs = userCs) :
    ∃ e, exec A.timerEntryCode (timerUser A.toLayout c) = e ∧ e.rsp = top A i - 632 ∧
      TimerFrame A i c e.mem ∧ (∀ r ∈ calleeSaved, e.reg r = c.reg r) ∧
      e.interruptible = false ∧ e.backward = c.backward ∧ e.cs = 0x08#16 ∧
      ∀ x, ¬ (top A i ≤ x + 632 ∧ x < top A i) → e.mem x = c.mem x := by
  obtain ⟨hlt, hge, -⟩ := top_spec A i
  obtain ⟨d, hd, -, hif, hdf, hdcs, hfx, hrsp, hreg, hfr, hmem⟩ := timerUser_spec hk hcs
  rw [hd]
  obtain ⟨e1, hp1, he1⟩ := exec_push (c := d) [.rax, .rcx, .rdx, .rsi, .rdi, .r8, .r9, .r10, .r11]
    (by decide) [.sub .rsp 512#64, .fxsave, .call A.preemptReturn]
    (by simp only [List.length_cons, List.length_nil]; omega)
  have hrsp1 := hp1.rsp
  simp only [List.length_reverse, List.length_map, List.length_cons, List.length_nil] at hrsp1
  let e2 := Instr.step e1 (.sub .rsp 512#64)
  let e3 := e2.fxsave e2.rsp
  have hrsp2 : e2.rsp = top A i - 624 := by
    have h512 : (512#64 : Qword).toNat = 512 := rfl
    exact (Processor.rsp_sub (by omega)).trans (by omega)
  have hm3 : ∀ x, ¬ (top A i ≤ x + 624 ∧ x + 112 < top A i) → e3.mem x = e1.mem x := by
    intro x hx
    exact Processor.fxsave_mem_of_not_mem (by rw [hrsp2]; omega)
  have hp4 : Pushed 0 (fun _ => False) [A.preemptReturn] e3 (e3.push A.preemptReturn) :=
    Pushed.push _ (by change 8 ≤ e2.rsp; omega)
  have hrsp4 : (e3.push A.preemptReturn).rsp + 8 * 1 = e2.rsp := hp4.rsp
  have hm4 : ∀ x, top A i ≤ x + 624 → (e3.push A.preemptReturn).mem x = e3.mem x := fun x hx =>
    hp4.mem x (fun h => by change _ ∧ x < e2.rsp at h; omega) id
  have hexec : exec A.timerEntryCode d = e3.push A.preemptReturn := he1
  refine ⟨_, hexec, by omega, ⟨?_, ?_, ?_⟩, ?_, ?_, ?_, ?_, ?_⟩
  · rw [show top A i - 632 = (e3.push A.preemptReturn).rsp by omega]
    exact hp4.frame
  · intro k
    have hfx2 : e2.fx = c.fx := hp1.same.fx.trans hfx
    rw [hm4 _ (by omega), ← hfx2, ← hrsp2]
    exact Processor.fxsave_mem e2 e2.rsp k
  · have hwords : ([Reg.rax, .rcx, .rdx, .rsi, .rdi, .r8, .r9, .r10, .r11].map d.reg).reverse =
        [Reg.r11, .r10, .r9, .r8, .rdi, .rsi, .rdx, .rcx, .rax].map c.reg := by
      rw [← List.map_reverse]
      exact List.map_congr_left fun r hr => hreg r (by revert r; decide)
    have hf1 := hp1.frame
    rw [hwords, show e1.rsp = top A i - 112 by omega] at hf1
    refine (hf1.congr fun x h1 _ => ?_).append (hfr.congr fun x h1 _ => ?_) (by simp; omega)
    · exact (hm4 x (by omega)).trans (hm3 x (by omega))
    · exact (hm4 x (by omega)).trans ((hm3 x (by omega)).trans (hp1.mem x (fun h => by omega) id))
  · intro r hr
    have hne : r ≠ .rsp := fun h => not_mem_calleeSaved (h ▸ hr)
    rw [Processor.push_reg_of_ne _ hne]
    exact (Processor.set_reg_of_ne hne _).trans ((hp1.others r hne).trans (hreg r hne))
  · rw [← hexec, exec_interruptible, hif]
  · rw [← hexec, exec_backward, hdf]
  · change e1.cs = _
    rw [hp1.same.cs, hdcs]
  · intro x hx
    have h4 : (e3.push A.preemptReturn).mem x = e3.mem x :=
      hp4.mem x (fun h => hx (by change _ ∧ x < e2.rsp at h; omega)) id
    exact h4.trans ((hm3 x (fun h => hx (by omega))).trans
      ((hp1.mem x (fun h => hx (by omega)) id).trans (hmem x fun h => hx (by omega))))

/-- What IRETQ returns to: the state that was interrupted. -/
theorem timer_exit {d : Processor} (hrsp : d.rsp = top A i - 632) (hf : TimerFrame A i c d.mem)
    (hkept : ∀ r ∈ calleeSaved, d.reg r = c.reg r) :
    (exec timerExitCode d.ret).iretq = { c with ds := userDs, es := userDs, mem := d.mem } := by
  obtain ⟨hlt, hge, -⟩ := top_spec A i
  have hd : d.ret.rsp = top A i - 624 := by
    rw [Processor.rsp_ret (by omega)]
    omega
  let e1 := Instr.step (d.ret.fxrstor d.ret.rsp) (.add .rsp 512#64)
  have hrsp1 : e1.rsp = top A i - 112 := by
    have h512 : (512#64 : Qword).toNat = 512 := rfl
    have hsame : (d.ret.fxrstor d.ret.rsp).rsp = d.ret.rsp := rfl
    exact (Processor.rsp_add (by omega)).trans (by omega)
  have hreg1 : ∀ r, r ≠ .rsp → e1.reg r = d.reg r := fun r hr =>
    (Processor.set_reg_of_ne hr _).trans
      ((congrFun (Processor.fxrstor_reg _ _) r).trans (Processor.ret_reg_of_ne hr))
  have hw1 : Frame e1.mem e1.rsp ([Reg.r11, .r10, .r9, .r8, .rdi, .rsi, .rdx, .rcx].map c.reg ++
      ([c.reg .rax] ++ [c.rip, c.cs.setWidth 64, c.rflags, c.reg .rsp, c.ss.setWidth 64])) := by
    rw [hrsp1]
    exact hf.words
  obtain ⟨e2, hp2, hmem2, he2⟩ := exec_pop (c := e1)
    [.r11, .r10, .r9, .r8, .rdi, .rsi, .rdx, .rcx] c.reg (by decide)
    [.movImm .rax 0x1B#64, .movDs, .movEs, .pop .rax] hw1.left
    (by simp only [List.length_cons, List.length_nil]; omega)
  have hrsp2 := hp2.rsp
  simp only [List.length_cons, List.length_nil] at hrsp2
  have hw2 : Frame e2.mem e2.rsp ([c.reg .rax] ++
      [c.rip, c.cs.setWidth 64, c.rflags, c.reg .rsp, c.ss.setWidth 64]) := by
    rw [hmem2, hrsp2]
    exact hw1.right rfl
  let e3 := exec [.movImm .rax 0x1B#64, .movDs, .movEs] e2
  have hsegs : e3.ds = userDs ∧ e3.es = userDs :=
    (by decide : (0x1B#64).setWidth 16 = userDs ∧ (0x1B#64).setWidth 16 = userDs)
  have hcode : exec timerExitCode d.ret =
      exec ([Reg.r11, .r10, .r9, .r8, .rdi, .rsi, .rdx, .rcx].map .pop ++
        [.movImm .rax 0x1B#64, .movDs, .movEs, .pop .rax]) e1 := by
    rw [timerExitCode, List.cons_append, List.cons_append, List.nil_append, exec_cons, exec_cons]
    rfl
  have hexec : exec timerExitCode d.ret = e3.pop .rax := hcode.trans he2
  have hrsp4 : (e3.pop .rax).rsp = e2.rsp + 8 := Processor.rsp_pop (c := e3) (by decide) (by
    change e2.rsp + 8 < _
    omega)
  have hreg4 : ∀ r, r ≠ .rsp → (e3.pop .rax).reg r = c.reg r := by
    intro r hr
    by_cases hrax : r = .rax
    · subst hrax
      exact (Processor.pop_reg_self e3 .rax).trans (Frame.word hw2.left)
    · rw [Processor.pop_reg_of_ne hrax hr]
      change (e2.set .rax 0x1B#64).reg r = c.reg r
      rw [Processor.set_reg_of_ne hrax]
      by_cases hin : r ∈ [Reg.r11, .r10, .r9, .r8, .rdi, .rsi, .rdx, .rcx]
      · exact hp2.loaded r hin
      · rw [hp2.others r hin hr, hreg1 r hr]
        exact hkept r (by revert hr hrax hin; cases r <;> decide)
  have hiret := Processor.iretq_eq (c := c) (d := e3.pop .rax) (by rw [hrsp4]; exact hw2.right rfl)
    hreg4
  rw [hexec, hiret]
  have hfx : (e3.pop .rax).fx = c.fx := by
    change e2.fx = c.fx
    rw [hp2.same.fx]
    funext k
    exact (congrArg (fun a => d.mem (a + k)) hd).trans (hf.fx k)
  have hmem : (e3.pop .rax).mem = d.mem := hmem2
  rw [hfx, hmem, show (e3.pop .rax).ds = userDs from hsegs.1,
    show (e3.pop .rax).es = userDs from hsegs.2]

end Timer
end Coconut.Switching
