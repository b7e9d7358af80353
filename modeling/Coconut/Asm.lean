import Coconut.ByteMemory

/-!
# Straight-line x86-64 code

Registers, the instructions that entry code and context switches are made of, and the
transfers between privilege levels.  A block is a list of instructions (`exec`); while
interrupts are enabled a handler may run between any two of them (`Runs`).

A handler that gives back every register leaves traces in two places only: in the bytes
just below the stack pointer, which belong to nobody, and in what it counts.  `Quiet` says
that two processors differ there at most.  Code that keeps what it needs at or above its
stack pointer does not notice (`Runs.cons_inv`); for the two patterns of such code, pushing a
list of registers and popping one, `Runs.push_inv` and `Runs.pop_inv` say what is left.
-/
namespace Asm

inductive Reg where
  | rax | rbx | rcx | rdx | rsi | rdi | rbp | rsp
  | r8 | r9 | r10 | r11 | r12 | r13 | r14 | r15
  deriving DecidableEq, Repr

abbrev Qword := BitVec 64

/-- The processor with the memory it addresses. -/
structure Processor where
  reg : Reg → Qword
  rip : Qword
  rflags : Qword
  cs : BitVec 16
  ss : BitVec 16
  ds : BitVec 16
  es : BitVec 16
  /-- The 512 bytes FXSAVE stores. -/
  fx : Fin 512 → UInt8
  mem : Memory

namespace Processor
variable (c : Processor)

/-- RSP, as an address. -/
def rsp : Nat := (c.reg .rsp).toNat

def set (r : Reg) (v : Qword) : Processor :=
  { c with reg := fun x => if x = r then v else c.reg x }

/-- The word at an address. -/
def word (a : Nat) : Qword := BitVec.ofNat 64 (c.mem.readU64 a)

def store (a : Nat) (v : Qword) : Processor := { c with mem := c.mem.writeU64 a v.toNat }

def push (v : Qword) : Processor :=
  (c.set .rsp (c.reg .rsp - 8#64)).store (c.reg .rsp - 8#64).toNat v

/-- The word on top of the stack is loaded after RSP has been moved past it. -/
def pop (r : Reg) : Processor := (c.set .rsp (c.reg .rsp + 8#64)).set r (c.word c.rsp)

/-- RET. -/
def ret : Processor := { c.set .rsp (c.reg .rsp + 8#64) with rip := c.word c.rsp }

/-- FXSAVE to an address. -/
def fxsave (a : Nat) : Processor :=
  { c with mem := fun x => if h : a ≤ x ∧ x < a + 512 then c.fx ⟨x - a, by omega⟩ else c.mem x }

/-- FXRSTOR from an address. -/
def fxrstor (a : Nat) : Processor := { c with fx := fun k => c.mem (a + k) }

end Processor

/-- Nothing differs but general registers and memory. -/
structure SameState (c d : Processor) : Prop where
  rip : d.rip = c.rip
  rflags : d.rflags = c.rflags
  cs : d.cs = c.cs
  ss : d.ss = c.ss
  ds : d.ds = c.ds
  es : d.es = c.es
  fx : d.fx = c.fx

theorem SameState.refl (c : Processor) : SameState c c := ⟨rfl, rfl, rfl, rfl, rfl, rfl, rfl⟩

theorem SameState.trans {c d e : Processor} (h : SameState c d) (h' : SameState d e) :
    SameState c e :=
  ⟨h'.rip.trans h.rip, h'.rflags.trans h.rflags, h'.cs.trans h.cs, h'.ss.trans h.ss,
    h'.ds.trans h.ds, h'.es.trans h.es, h'.fx.trans h.fx⟩

/-! ## Instructions -/

/-- CF, PF, AF, ZF, SF and OF of RFLAGS. -/
structure Status where
  carry : Bool
  adjust : Bool
  overflow : Bool

/-- RFLAGS after an operation with result `r`: the status flags are set, the rest stays. -/
def Status.flags (t : Status) (r old : Qword) : Qword :=
  old &&& ~~~0x8D5#64 ||| (bif t.carry then 0x1#64 else 0#64) |||
    (bif (List.range 8).foldl (fun p k => p ^^ r.getLsbD k) true then 0x4#64 else 0#64) |||
    (bif t.adjust then 0x10#64 else 0#64) ||| (bif r == 0#64 then 0x40#64 else 0#64) |||
    (bif r.msb then 0x80#64 else 0#64) ||| (bif t.overflow then 0x800#64 else 0#64)

namespace Processor
variable (c : Processor)

/-- The zero flag. -/
def zf : Bool := c.rflags.getLsbD 6

/-- The interrupt flag. -/
def interruptible : Bool := c.rflags.getLsbD 9

/-- The direction flag: string instructions go to lower addresses. -/
def backward : Bool := c.rflags.getLsbD 10

def setFlags (t : Status) (r : Qword) : Processor := { c with rflags := t.flags r c.rflags }

end Processor

/-- The status of `a + b` and of `a - b`. -/
def Status.ofAdd (a b : Qword) : Status :=
  { carry := decide (2 ^ 64 ≤ a.toNat + b.toNat)
    adjust := (a ^^^ b ^^^ (a + b)).getLsbD 4
    overflow := a.msb == b.msb && (a + b).msb != a.msb }

def Status.ofSub (a b : Qword) : Status :=
  { carry := decide (a.toNat < b.toNat)
    adjust := (a ^^^ b ^^^ (a - b)).getLsbD 4
    overflow := a.msb != b.msb && (a - b).msb != a.msb }

inductive Instr where
  | push (r : Reg)
  /-- `push QWORD PTR [a]`. -/
  | pushAt (a : Nat)
  | pop (r : Reg)
  | mov (dst src : Reg)
  | movImm (dst : Reg) (v : Qword)
  /-- `mov dst, [base]`. -/
  | load (dst base : Reg)
  /-- `mov [base], src`. -/
  | save (base src : Reg)
  /-- `mov dst, [a]` and `mov [a], src` for the address of a static. -/
  | loadAt (dst : Reg) (a : Nat)
  | saveAt (a : Nat) (src : Reg)
  | add (dst : Reg) (v : Qword)
  | sub (dst : Reg) (v : Qword)
  /-- `inc qword ptr [base]`. -/
  | inc (base : Reg)
  /-- `test qword ptr [rsp + o], v`. -/
  | test (o : Nat) (v : Qword)
  /-- `mov al, v`. -/
  | movAl (v : BitVec 8)
  /-- `out port, al`. -/
  | out (port : BitVec 8)
  /-- `fxsave [rsp]`, `fxrstor [rsp]`. -/
  | fxsave
  | fxrstor
  /-- `mov ds, ax`, `mov es, ax`. -/
  | movDs
  | movEs
  /-- The push of a call that will return to `next`. -/
  | call (next : Qword)

def Instr.step (c : Processor) : Instr → Processor
  | push r => c.push (c.reg r)
  | pushAt a => c.push (c.word a)
  | pop r => c.pop r
  | mov dst src => c.set dst (c.reg src)
  | movImm dst v => c.set dst v
  | load dst base => c.set dst (c.word (c.reg base).toNat)
  | save base src => c.store (c.reg base).toNat (c.reg src)
  | loadAt dst a => c.set dst (c.word a)
  | saveAt a src => c.store a (c.reg src)
  | add dst v => (c.set dst (c.reg dst + v)).setFlags (.ofAdd (c.reg dst) v) (c.reg dst + v)
  | sub dst v => (c.set dst (c.reg dst - v)).setFlags (.ofSub (c.reg dst) v) (c.reg dst - v)
  | inc base =>
    let v := c.word (c.reg base).toNat
    -- INC leaves the carry flag
    (c.store (c.reg base).toNat (v + 1#64)).setFlags
      { Status.ofAdd v 1#64 with carry := c.rflags.getLsbD 0 } (v + 1#64)
  | test o v => c.setFlags ⟨false, false, false⟩ (c.word (c.rsp + o) &&& v)
  | movAl v => c.set .rax (c.reg .rax &&& ~~~0xFF#64 ||| v.setWidth 64)
  | out _ => c
  | fxsave => c.fxsave c.rsp
  | fxrstor => c.fxrstor c.rsp
  | movDs => { c with ds := (c.reg .rax).setWidth 16 }
  | movEs => { c with es := (c.reg .rax).setWidth 16 }
  | call next => c.push next

/-- A block, uninterrupted. -/
def exec (is : List Instr) (c : Processor) : Processor := is.foldl Instr.step c

@[simp] theorem exec_nil (c : Processor) : exec [] c = c := rfl

@[simp] theorem exec_cons (i : Instr) (is : List Instr) (c : Processor) :
    exec (i :: is) c = exec is (i.step c) := rfl

/-- A block, with handlers run between its instructions. -/
inductive Runs (irq : Processor → Processor → Prop) : List Instr → Processor → Processor → Prop
  | nil (c : Processor) : Runs irq [] c c
  | cons {i : Instr} {is : List Instr} {c c' : Processor} (rest : Runs irq is (i.step c) c') :
      Runs irq (i :: is) c c'
  | irq {is : List Instr} {c d c' : Processor} (handler : irq c d) (rest : Runs irq is d c') :
      Runs irq is c c'

/-- What is not a status flag stays. -/
theorem Processor.setFlags_getLsbD (c : Processor) (t : Status) (r : Qword) {k : Nat}
    (hk : (~~~0x8D5#64 : Qword).getLsbD k = true) :
    (c.setFlags t r).rflags.getLsbD k = c.rflags.getLsbD k := by
  have hbit : ∀ (b : Bool) (w : Qword), w &&& ~~~0x8D5#64 = 0#64 →
      (bif b then w else 0#64).getLsbD k = false := by
    rintro (_ | _) w hw
    · exact BitVec.getLsbD_zero
    · have hand := congrArg (BitVec.getLsbD · k) hw
      simpa only [BitVec.getLsbD_and, hk, Bool.and_true, BitVec.getLsbD_zero, cond_true] using hand
  simp only [setFlags, Status.flags, BitVec.getLsbD_or, BitVec.getLsbD_and, hk, Bool.and_true]
  rw [hbit _ _ (by decide), hbit _ _ (by decide), hbit _ _ (by decide), hbit _ _ (by decide),
    hbit _ _ (by decide), hbit _ _ (by decide)]
  simp only [Bool.or_false]

theorem Processor.setFlags_zf (c : Processor) (t : Status) (r : Qword) :
    (c.setFlags t r).zf = (r == 0#64) := by
  have hbit : ∀ (b : Bool) (w : Qword), w.getLsbD 6 = false →
      (bif b then w else 0#64).getLsbD 6 = false := by
    rintro (_ | _) w hw
    · exact BitVec.getLsbD_zero
    · exact hw
  have hzero : (bif r == 0#64 then 0x40#64 else 0#64 : Qword).getLsbD 6 = (r == 0#64) := by
    cases r == 0#64 <;> rfl
  simp only [zf, setFlags, Status.flags, BitVec.getLsbD_or, BitVec.getLsbD_and]
  rw [hzero, hbit _ _ (by decide), hbit _ _ (by decide), hbit _ _ (by decide), hbit _ _ (by decide),
    hbit _ _ (by decide), show (~~~0x8D5#64 : Qword).getLsbD 6 = false by decide]
  simp only [Bool.and_false, Bool.or_false, Bool.false_or]

theorem Instr.step_getLsbD (i : Instr) (c : Processor) {k : Nat}
    (hk : (~~~0x8D5#64 : Qword).getLsbD k = true) :
    (i.step c).rflags.getLsbD k = c.rflags.getLsbD k := by
  cases i with
  | add | sub | inc | test => exact Processor.setFlags_getLsbD _ _ _ hk
  | push | pushAt | pop | mov | movImm | load | save | loadAt | saveAt | movAl | out | fxsave
  | fxrstor | movDs | movEs | call => rfl

theorem exec_getLsbD {k : Nat} (hk : (~~~0x8D5#64 : Qword).getLsbD k = true) (is : List Instr) :
    ∀ c : Processor, (exec is c).rflags.getLsbD k = c.rflags.getLsbD k := by
  induction is with
  | nil => exact fun _ => rfl
  | cons i is ih => exact fun c => (ih _).trans (i.step_getLsbD c hk)

theorem Instr.step_interruptible (i : Instr) (c : Processor) :
    (i.step c).interruptible = c.interruptible := i.step_getLsbD c (by decide)

theorem exec_interruptible (is : List Instr) (c : Processor) :
    (exec is c).interruptible = c.interruptible := exec_getLsbD (by decide) is c

theorem exec_backward (is : List Instr) (c : Processor) : (exec is c).backward = c.backward :=
  exec_getLsbD (by decide) is c

/-- With interrupts disabled a block runs as it is written. -/
theorem Runs.eq_exec {irq : Processor → Processor → Prop}
    (hirq : ∀ c d, irq c d → c.interruptible = true) {is : List Instr} {c c' : Processor}
    (h : Runs irq is c c') (hc : c.interruptible = false) : c' = exec is c := by
  induction h with
  | nil => rfl
  | cons _ ih => exact ih ((Instr.step_interruptible _ _).trans hc)
  | irq handler _ _ => rw [hirq _ _ handler] at hc; cases hc

theorem Runs.of_exec (irq : Processor → Processor → Prop) (is : List Instr) (c : Processor) :
    Runs irq is c (exec is c) := by
  induction is generalizing c with
  | nil => exact .nil c
  | cons i is ih => exact .cons (ih _)

/-! ## Changing privilege -/

namespace Processor
variable (c : Processor)

/-- The processor takes an interrupt: it aligns the stack given, pushes the five words IRETQ
pops and clears TF, IF, NT and RF. -/
def interrupt (stack handler : Qword) (selector : BitVec 16) : Processor :=
  let s := ((((c.set .rsp (stack &&& ~~~15#64)).push (c.ss.setWidth 64)).push (c.reg .rsp)).push
    c.rflags).push (c.cs.setWidth 64)
  { s.push c.rip with rip := handler, cs := selector, rflags := c.rflags &&& ~~~0x14300#64 }

/-- IRETQ. -/
def iretq : Processor :=
  { c with
    rip := c.word c.rsp
    cs := (c.word (c.rsp + 8)).setWidth 16
    rflags := c.word (c.rsp + 16)
    reg := fun x => if x = .rsp then c.word (c.rsp + 24) else c.reg x
    ss := (c.word (c.rsp + 32)).setWidth 16 }

/-- SYSCALL: RIP and RFLAGS go to RCX and R11; the stack stays. -/
def syscall (star lstar sfmask : Qword) : Processor :=
  { (c.set .rcx c.rip).set .r11 c.rflags with
    rip := lstar
    rflags := c.rflags &&& ~~~sfmask
    cs := (star >>> 32).setWidth 16 &&& 0xFFFC#16
    ss := (star >>> 32).setWidth 16 + 8#16 }

@[simp] theorem syscall_rcx (star lstar sfmask : Qword) :
    (c.syscall star lstar sfmask).reg .rcx = c.rip := rfl

@[simp] theorem syscall_r11 (star lstar sfmask : Qword) :
    (c.syscall star lstar sfmask).reg .r11 = c.rflags := rfl

theorem syscall_reg_of_ne {r : Reg} (h1 : r ≠ .rcx) (h2 : r ≠ .r11) (star lstar sfmask : Qword) :
    (c.syscall star lstar sfmask).reg r = c.reg r :=
  (if_neg h2).trans (if_neg h1)

/-- SYSRETQ. -/
def sysretq (star : Qword) : Processor :=
  { c with
    rip := c.reg .rcx
    rflags := c.reg .r11 &&& 0x3C7FD7#64 ||| 2#64
    cs := (star >>> 48).setWidth 16 + 16#16 ||| 3#16
    ss := (star >>> 48).setWidth 16 + 8#16 ||| 3#16 }

theorem sysretq_rip (star : Qword) : (c.sysretq star).rip = c.reg .rcx := rfl

theorem sysretq_rflags (star : Qword) :
    (c.sysretq star).rflags = c.reg .r11 &&& 0x3C7FD7#64 ||| 2#64 := rfl

theorem sysretq_reg (star : Qword) : (c.sysretq star).reg = c.reg := rfl

end Processor

/-! ## Words in memory -/

/-- The words from address `a` on. -/
def Frame (m : Memory) : Nat → List Qword → Prop
  | _, [] => True
  | a, w :: ws => m.readU64 a = w.toNat ∧ Frame m (a + 8) ws

theorem Frame.congr {m m' : Memory} {ws : List Qword} : ∀ {a : Nat}, Frame m a ws →
    (∀ x, a ≤ x → x < a + 8 * ws.length → m' x = m x) → Frame m' a ws := by
  induction ws with
  | nil => exact fun _ _ => trivial
  | cons w ws ih =>
    intro a h hsame
    rw [List.length_cons] at hsame
    refine ⟨(Memory.readLE_congr fun x h1 h2 => hsame x h1 (by omega)).trans h.1, ih h.2 ?_⟩
    exact fun x h1 h2 => hsame x (by omega) (by omega)

theorem Frame.append {m : Memory} {ws vs : List Qword} {b : Nat} : ∀ {a : Nat}, Frame m a ws →
    Frame m b vs → a + 8 * ws.length = b → Frame m a (ws ++ vs) := by
  induction ws with
  | nil =>
    rintro a - h rfl
    exact h
  | cons w ws ih =>
    intro a h hv hb
    rw [List.length_cons] at hb
    exact ⟨h.1, ih h.2 hv (by omega)⟩

theorem Frame.left {m : Memory} {ws vs : List Qword} : ∀ {a : Nat}, Frame m a (ws ++ vs) →
    Frame m a ws := by
  induction ws with
  | nil => exact fun _ => trivial
  | cons w ws ih => exact fun h => ⟨h.1, ih h.2⟩

theorem Frame.right {m : Memory} {ws vs : List Qword} {b : Nat} : ∀ {a : Nat},
    Frame m a (ws ++ vs) → a + 8 * ws.length = b → Frame m b vs := by
  induction ws with
  | nil =>
    rintro a h rfl
    exact h
  | cons w ws ih =>
    intro a h hb
    rw [List.length_cons] at hb
    exact ih h.2 (by omega)

theorem Frame.word {c : Processor} {a : Nat} {w : Qword} {ws : List Qword}
    (h : Frame c.mem a (w :: ws)) : c.word a = w := by
  rw [Processor.word, h.1, BitVec.ofNat_toNat, BitVec.setWidth_eq]

/-! ## What handlers leave -/

section Quiet
variable (depth : Nat) (counter : Nat → Prop)

/-- Nothing differs but bytes at most `depth` below the stack pointer and the counter. -/
structure Quiet (c d : Processor) : Prop where
  regs : d = { c with mem := d.mem }
  mem : ∀ x, ¬ (x < c.rsp ∧ c.rsp ≤ x + depth) → ¬ counter x → d.mem x = c.mem x

/-- The bytes from `lo` to `hi` are a stack: handlers that find `depth` bytes free on it are
quiet, and what they count is elsewhere. -/
structure Stack (irq : Processor → Processor → Prop) (lo hi : Nat) : Prop where
  free : ∀ x, lo ≤ x → x < hi → ¬ counter x
  quiet : ∀ c d, lo + depth ≤ c.rsp → c.rsp ≤ hi → irq c d → Quiet depth counter c d
  bound : hi < 2 ^ 64

variable {depth counter} {irq : Processor → Processor → Prop} {c d c' : Processor} {is : List Instr}

theorem Quiet.refl (c : Processor) : Quiet depth counter c c := ⟨rfl, fun _ _ _ => rfl⟩

theorem Quiet.same (h : Quiet depth counter c d) : SameState c d := by
  rw [h.regs]
  exact ⟨rfl, rfl, rfl, rfl, rfl, rfl, rfl⟩

theorem Quiet.reg_eq (h : Quiet depth counter c d) : d.reg = c.reg := by rw [h.regs]

theorem Quiet.rsp_eq (h : Quiet depth counter c d) : d.rsp = c.rsp := by
  simp only [Processor.rsp, h.reg_eq]

theorem Quiet.trans {e : Processor} (h : Quiet depth counter c d) (h' : Quiet depth counter d e) :
    Quiet depth counter c e := by
  refine ⟨h'.regs.trans (by rw [h.regs]), fun x hx hc => ?_⟩
  have hx' : ¬ (x < d.rsp ∧ d.rsp ≤ x + depth) := by rwa [h.rsp_eq]
  exact (h'.mem x hx' hc).trans (h.mem x hx hc)

theorem Quiet.frame (h : Quiet depth counter c d) {a : Nat} {ws : List Qword} (hf : Frame c.mem a ws)
    (ha : c.rsp ≤ a) (hc : ∀ x, a ≤ x → x < a + 8 * ws.length → ¬ counter x) : Frame d.mem a ws :=
  hf.congr fun x h1 h2 => h.mem x (fun hx => by omega) (hc x h1 h2)

variable {lo hi : Nat} (hs : Stack depth counter irq lo hi)
include hs

theorem Runs.nil_inv (h : Runs irq [] c c') (h1 : lo + depth ≤ c.rsp) (h2 : c.rsp ≤ hi) :
    Quiet depth counter c c' := by
  generalize his : ([] : List Instr) = is at h
  induction h with
  | nil => exact Quiet.refl _
  | cons _ _ => cases his
  | irq handler _ ih =>
    have hq := hs.quiet _ _ h1 h2 handler
    exact hq.trans (ih (hq.rsp_eq ▸ h1) (hq.rsp_eq ▸ h2) his)

/-- Before its first instruction a block may be interrupted, and then it goes on. -/
theorem Runs.cons_inv {i : Instr} (h : Runs irq (i :: is) c c') (h1 : lo + depth ≤ c.rsp)
    (h2 : c.rsp ≤ hi) : ∃ d, Quiet depth counter c d ∧ Runs irq is (i.step d) c' := by
  generalize hj : i :: is = js at h
  induction h with
  | nil => cases hj
  | cons rest _ =>
    obtain ⟨rfl, rfl⟩ := List.cons.inj hj
    exact ⟨_, Quiet.refl _, rest⟩
  | irq handler _ ih =>
    have hq := hs.quiet _ _ h1 h2 handler
    obtain ⟨d, hq', hr⟩ := ih (hq.rsp_eq ▸ h1) (hq.rsp_eq ▸ h2) hj
    exact ⟨d, hq.trans hq', hr⟩

end Quiet

/-! ## Pushing and popping a list of registers -/

namespace Processor
variable {c : Processor}

@[simp] theorem set_reg_self (c : Processor) (r : Reg) (v : Qword) : (c.set r v).reg r = v :=
  if_pos rfl

theorem set_reg_of_ne {r x : Reg} (h : x ≠ r) (v : Qword) : (c.set r v).reg x = c.reg x := if_neg h

@[simp] theorem set_mem (c : Processor) (r : Reg) (v : Qword) : (c.set r v).mem = c.mem := rfl

@[simp] theorem store_reg (c : Processor) (a : Nat) (v : Qword) : (c.store a v).reg = c.reg := rfl

theorem store_mem_of_not_mem {a x : Nat} (v : Qword) (h : x < a ∨ a + 8 ≤ x) :
    (c.store a v).mem x = c.mem x := c.mem.writeLE_of_not_mem h

theorem frame_store (c : Processor) (a : Nat) (v : Qword) : Frame (c.store a v).mem a [v] :=
  ⟨c.mem.readU64_writeU64 v.isLt, trivial⟩

theorem toNat_sub_eight (h : 8 ≤ c.rsp) : (c.reg .rsp - 8#64).toNat = c.rsp - 8 :=
  BitVec.toNat_sub_of_le h

theorem toNat_add_eight (h : c.rsp + 8 < 2 ^ 64) : (c.reg .rsp + 8#64).toNat = c.rsp + 8 :=
  BitVec.toNat_add_of_lt h

theorem rsp_push (v : Qword) (h : 8 ≤ c.rsp) : (c.push v).rsp = c.rsp - 8 := toNat_sub_eight h

theorem push_reg_of_ne {r : Reg} (v : Qword) (h : r ≠ .rsp) : (c.push v).reg r = c.reg r :=
  set_reg_of_ne h _

theorem pop_reg_self (c : Processor) (r : Reg) : (c.pop r).reg r = c.word c.rsp := if_pos rfl

theorem pop_reg_of_ne {r x : Reg} (h : x ≠ r) (hx : x ≠ .rsp) : (c.pop r).reg x = c.reg x :=
  (set_reg_of_ne h _).trans (set_reg_of_ne hx _)

theorem rsp_pop {r : Reg} (hr : r ≠ .rsp) (h : c.rsp + 8 < 2 ^ 64) : (c.pop r).rsp = c.rsp + 8 :=
  (congrArg BitVec.toNat ((set_reg_of_ne hr.symm _).trans (set_reg_self c _ _))).trans
    (toNat_add_eight h)

theorem rsp_sub {v : Qword} (h : v.toNat ≤ c.rsp) :
    (Instr.step c (.sub .rsp v)).rsp = c.rsp - v.toNat :=
  (congrArg BitVec.toNat (c.set_reg_self .rsp _)).trans (BitVec.toNat_sub_of_le h)

theorem rsp_add {v : Qword} (h : c.rsp + v.toNat < 2 ^ 64) :
    (Instr.step c (.add .rsp v)).rsp = c.rsp + v.toNat :=
  (congrArg BitVec.toNat (c.set_reg_self .rsp _)).trans (BitVec.toNat_add_of_lt h)

theorem ret_reg (c : Processor) :
    c.ret.reg = fun x => if x = .rsp then c.reg .rsp + 8#64 else c.reg x := rfl

theorem ret_reg_of_ne {r : Reg} (h : r ≠ .rsp) : c.ret.reg r = c.reg r := by
  rw [ret_reg]
  exact if_neg h

theorem rsp_ret (h : c.rsp + 8 < 2 ^ 64) : c.ret.rsp = c.rsp + 8 := by
  unfold rsp
  rw [ret_reg]
  exact toNat_add_eight h

@[simp] theorem fxrstor_reg (c : Processor) (a : Nat) : (c.fxrstor a).reg = c.reg := rfl

theorem fxsave_mem_of_not_mem {a x : Nat} (h : ¬ (a ≤ x ∧ x < a + 512)) :
    (c.fxsave a).mem x = c.mem x := dif_neg h

theorem fxsave_mem (c : Processor) (a : Nat) (k : Fin 512) : (c.fxsave a).mem (a + k) = c.fx k := by
  have hin : a ≤ a + k ∧ a + k < a + 512 := by omega
  have hk : (⟨a + k - a, by omega⟩ : Fin 512) = k := Fin.ext (Nat.add_sub_cancel_left ..)
  simp only [fxsave, dif_pos hin, hk]

end Processor

section Blocks
variable (depth : Nat) (counter : Nat → Prop)

/-- `c'` is `c` with the words `ws` on its stack. -/
structure Pushed (ws : List Qword) (c c' : Processor) : Prop where
  rsp : c'.rsp + 8 * ws.length = c.rsp
  same : SameState c c'
  others : ∀ r, r ≠ .rsp → c'.reg r = c.reg r
  frame : Frame c'.mem c'.rsp ws
  mem : ∀ x, ¬ (c'.rsp ≤ x + depth ∧ x < c.rsp) → ¬ counter x → c'.mem x = c.mem x

/-- `c'` is `c` with the registers `rs` loaded, with the values `f`, from its stack. -/
structure Popped (rs : List Reg) (f : Reg → Qword) (c c' : Processor) : Prop where
  rsp : c'.rsp = c.rsp + 8 * rs.length
  same : SameState c c'
  loaded : ∀ r ∈ rs, c'.reg r = f r
  others : ∀ r, r ∉ rs → r ≠ .rsp → c'.reg r = c.reg r
  mem : ∀ x, ¬ (c.rsp ≤ x + depth ∧ x < c'.rsp) → ¬ counter x → c'.mem x = c.mem x

variable {depth counter} {irq : Processor → Processor → Prop} {c c' d e : Processor}
  {is : List Instr}

theorem Quiet.pushed (h : Quiet depth counter c d) : Pushed depth counter [] c d where
  rsp := h.rsp_eq
  same := h.same
  others _ _ := congrFun h.reg_eq _
  frame := trivial
  mem x hx := h.mem x fun h' => hx (by rw [h.rsp_eq]; omega)

theorem Pushed.push (v : Qword) (hd : 8 ≤ c.rsp) : Pushed depth counter [v] c (c.push v) where
  rsp := by
    rw [Processor.rsp_push v hd, List.length_singleton]
    omega
  same := ⟨rfl, rfl, rfl, rfl, rfl, rfl, rfl⟩
  others _ h := Processor.push_reg_of_ne v h
  frame := Processor.frame_store _ _ _
  mem x hx _ := by
    refine Processor.store_mem_of_not_mem v ?_
    rw [Processor.toNat_sub_eight hd]
    rw [Processor.rsp_push v hd] at hx
    omega

/-- What stands on the stack stays there while more is pushed. -/
theorem Pushed.trans {ws vs : List Qword} (h : Pushed depth counter ws c d)
    (h' : Pushed depth counter vs d e) (hc : ∀ x, e.rsp ≤ x → x < c.rsp → ¬ counter x) :
    Pushed depth counter (vs ++ ws) c e := by
  have hd := h.rsp
  have he := h'.rsp
  refine ⟨?_, h.same.trans h'.same, ?_, ?_, ?_⟩
  · rw [List.length_append]
    omega
  · exact fun r hr => (h'.others r hr).trans (h.others r hr)
  · refine h'.frame.append (h.frame.congr ?_) h'.rsp
    exact fun x h1 h2 => h'.mem x (fun hx => by omega) (hc x (by omega) (by omega))
  · intro x hx hx'
    refine (h'.mem x (fun h2 => hx ⟨h2.1, by omega⟩) hx').trans ?_
    exact h.mem x (fun h2 => hx ⟨by omega, h2.2⟩) hx'

variable {lo hi : Nat} (hs : Stack depth counter irq lo hi)
include hs

/-- An instruction that pushes a word. -/
theorem Runs.push_one_inv {i : Instr} {v : Qword} (h : Runs irq (i :: is) c c')
    (hstep : ∀ d, Quiet depth counter c d → i.step d = d.push v) (h1 : lo + depth + 8 ≤ c.rsp)
    (h2 : c.rsp ≤ hi) : ∃ d, Pushed depth counter [v] c d ∧ Runs irq is d c' := by
  obtain ⟨d, hq, hr⟩ := h.cons_inv hs (by omega) h2
  rw [hstep d hq] at hr
  have h8 : 8 ≤ d.rsp := by
    rw [hq.rsp_eq]
    omega
  have hp : Pushed depth counter [v] d (d.push v) := Pushed.push v h8
  have hrsp := hp.rsp
  rw [List.length_singleton, hq.rsp_eq] at hrsp
  exact ⟨_, hq.pushed.trans hp fun x h3 h4 => hs.free x (by omega) (by omega), hr⟩

theorem Runs.push_inv (rs : List Reg) (hne : .rsp ∉ rs) : ∀ {c : Processor},
    Runs irq (rs.map .push ++ is) c c' → lo + depth + 8 * rs.length ≤ c.rsp → c.rsp ≤ hi →
    ∃ d, Pushed depth counter (rs.map c.reg).reverse c d ∧ Runs irq is d c' := by
  induction rs with
  | nil => exact fun {c} h _ _ => ⟨c, (Quiet.refl c).pushed, h⟩
  | cons r rs ih =>
    intro c h h1 h2
    rw [List.length_cons] at h1
    obtain ⟨d, hp, hr⟩ := Runs.push_one_inv hs h (v := c.reg r)
      (fun d hq => congrArg d.push (congrFun hq.reg_eq r)) (by omega) h2
    have hrsp := hp.rsp
    rw [List.length_singleton] at hrsp
    obtain ⟨e, hp', hr'⟩ := ih (fun h => hne (List.mem_cons_of_mem _ h)) hr (by omega) (by omega)
    have hmap : rs.map d.reg = rs.map c.reg :=
      List.map_congr_left fun x hx =>
        hp.others x (by rintro rfl; exact hne (List.mem_cons_of_mem _ hx))
    have hrsp' := hp'.rsp
    rw [List.length_reverse, List.length_map] at hrsp'
    refine ⟨e, ?_, hr'⟩
    rw [List.map_cons, List.reverse_cons, ← hmap]
    exact hp.trans hp' fun x h3 h4 => hs.free x (by omega) (by omega)

theorem Runs.pop_inv (rs : List Reg) (f : Reg → Qword) (hne : .rsp ∉ rs) : ∀ {c : Processor},
    Runs irq (rs.map .pop ++ is) c c' → Frame c.mem c.rsp (rs.map f) → lo + depth ≤ c.rsp →
    c.rsp + 8 * rs.length ≤ hi → ∃ d, Popped depth counter rs f c d ∧ Runs irq is d c' := by
  induction rs with
  | nil =>
    intro c h _ _ _
    exact ⟨c, ⟨rfl, .refl c, fun r hr => absurd hr List.not_mem_nil, fun _ _ _ => rfl,
      fun _ _ _ => rfl⟩, h⟩
  | cons r rs ih =>
    intro c h hf h1 h2
    have hb := hs.bound
    rw [List.length_cons] at h2
    obtain ⟨d, hq, hr⟩ := h.cons_inv hs h1 (by omega)
    change Runs irq _ (d.pop r) _ at hr
    have hr' : r ≠ .rsp := fun h => hne (h ▸ List.mem_cons_self)
    have hrsp : (d.pop r).rsp = c.rsp + 8 := by
      rw [Processor.rsp_pop hr' (by rw [hq.rsp_eq]; omega), hq.rsp_eq]
    have hf' : Frame d.mem c.rsp (f r :: rs.map f) :=
      hq.frame hf le_rfl fun x h3 h4 => hs.free x (by omega) (by simp at h4; omega)
    have hw : (d.pop r).reg r = f r := by
      rw [Processor.pop_reg_self, hq.rsp_eq]
      exact hf'.word
    obtain ⟨e, hp, hr''⟩ := ih (fun h => hne (List.mem_cons_of_mem _ h)) hr
      (by rw [hrsp]; exact hf'.2) (by omega) (by omega)
    have hersp := hp.rsp
    have hpop : SameState d (d.pop r) := ⟨rfl, rfl, rfl, rfl, rfl, rfl, rfl⟩
    refine ⟨e, ⟨?_, hq.same.trans (hpop.trans hp.same), ?_, ?_, ?_⟩, hr''⟩
    · rw [hp.rsp, hrsp, List.length_cons]
      omega
    · intro x hx
      -- a register popped twice has the value of its last pop, which `f` also gives
      by_cases hx' : x ∈ rs
      · exact hp.loaded x hx'
      · obtain rfl | hx := List.mem_cons.mp hx
        · exact (hp.others x hx' hr').trans hw
        · exact absurd hx hx'
    · intro x hx hx'
      rw [List.mem_cons, not_or] at hx
      exact (hp.others x hx.2 hx').trans ((Processor.pop_reg_of_ne hx.1 hx').trans
        (congrFun hq.reg_eq x))
    · intro x hx hx'
      refine (hp.mem x (fun h3 => hx ⟨by omega, h3.2⟩) hx').trans ?_
      exact hq.mem x (fun h3 => hx ⟨h3.2, by omega⟩) hx'

end Blocks

/-! ## The same without interrupts -/

section Exec
variable {c : Processor} {is : List Instr}

theorem Stack.whole : Stack 0 (fun _ => False) (fun _ _ => False) 0 (2 ^ 64 - 1) :=
  ⟨fun _ _ _ => id, fun _ _ _ _ h => h.elim, by decide⟩

theorem Runs.exec_eq {c' : Processor} (h : Runs (fun _ _ => False) is c c') : c' = exec is c := by
  induction h with
  | nil => rfl
  | cons _ ih => exact ih
  | irq handler _ _ => exact handler.elim

theorem exec_push (rs : List Reg) (hne : .rsp ∉ rs) (is : List Instr) (h : 8 * rs.length ≤ c.rsp) :
    ∃ d, Pushed 0 (fun _ => False) (rs.map c.reg).reverse c d ∧
      exec (rs.map .push ++ is) c = exec is d := by
  have hlt : c.rsp < 2 ^ 64 := (c.reg .rsp).isLt
  obtain ⟨d, hp, hr⟩ := Runs.push_inv Stack.whole rs hne (Runs.of_exec _ (rs.map .push ++ is) c)
    (by omega) (by omega)
  exact ⟨d, hp, hr.exec_eq⟩

theorem exec_pop_mem (rs : List Reg) : ∀ c : Processor, (exec (rs.map .pop) c).mem = c.mem := by
  induction rs with
  | nil => exact fun _ => rfl
  | cons r rs ih => exact fun c => ih (c.pop r)

theorem exec_pop (rs : List Reg) (f : Reg → Qword) (hne : .rsp ∉ rs) (is : List Instr)
    (hf : Frame c.mem c.rsp (rs.map f)) (h : c.rsp + 8 * rs.length < 2 ^ 64) :
    ∃ d, Popped 0 (fun _ => False) rs f c d ∧ d.mem = c.mem ∧
      exec (rs.map .pop ++ is) c = exec is d := by
  obtain ⟨d, hp, hr⟩ := Runs.pop_inv Stack.whole rs f hne (Runs.of_exec _ (rs.map .pop ++ []) c) hf
    (by omega) (by omega)
  rw [List.append_nil] at hr
  have hd : exec (rs.map .pop) c = d := hr.exec_eq
  exact ⟨d, hp, hd ▸ exec_pop_mem rs c, hd ▸ List.foldl_append⟩

end Exec

/-! ## Interrupt frames -/

/-- `d` is at the first instruction of a handler that interrupted `c`, on a stack that was
empty down to `base`. -/
structure Interrupted (handler : Qword) (selector : BitVec 16) (base : Nat) (c d : Processor) :
    Prop where
  rsp : d.rsp + 40 = base
  regs : d = { c with
    reg := d.reg, mem := d.mem, rip := handler, cs := selector,
    rflags := c.rflags &&& ~~~0x14300#64 }
  others : ∀ r, r ≠ .rsp → d.reg r = c.reg r
  frame : Frame d.mem d.rsp [c.rip, c.cs.setWidth 64, c.rflags, c.reg .rsp, c.ss.setWidth 64]
  mem : ∀ x, ¬ (d.rsp ≤ x ∧ x < base) → d.mem x = c.mem x

theorem Pushed.foldl (ws : List Qword) : ∀ {c : Processor}, 8 * ws.length ≤ c.rsp →
    Pushed 0 (fun _ => False) ws.reverse c (ws.foldl Processor.push c) := by
  induction ws with
  | nil => exact fun {c} _ => (Quiet.refl c).pushed
  | cons w ws ih =>
    intro c h
    rw [List.length_cons] at h
    have hp : Pushed 0 (fun _ => False) [w] c (c.push w) := Pushed.push w (by omega)
    have hrsp := Processor.rsp_push (c := c) w (by omega)
    rw [List.reverse_cons]
    exact hp.trans (ih (by omega)) fun _ _ _ => id

theorem Processor.interrupted (c : Processor) (stack handler : Qword) (selector : BitVec 16)
    (h : 40 ≤ (stack &&& ~~~15#64).toNat) :
    Interrupted handler selector (stack &&& ~~~15#64).toNat c
      (c.interrupt stack handler selector) := by
  have hc : (c.set .rsp (stack &&& ~~~15#64)).rsp = (stack &&& ~~~15#64).toNat :=
    congrArg BitVec.toNat (c.set_reg_self _ _)
  have hp := Pushed.foldl [c.ss.setWidth 64, c.reg .rsp, c.rflags, c.cs.setWidth 64, c.rip]
    (hc ▸ h)
  refine ⟨hp.rsp.trans hc, rfl, ?_, hp.frame, ?_⟩
  · exact fun r hr => (hp.others r hr).trans (set_reg_of_ne hr _)
  · exact fun x hx => hp.mem x (fun h => hx ⟨h.1, hc ▸ h.2⟩) id

/-- IRETQ takes everything back that the interrupt had saved. -/
theorem Processor.iretq_eq {c d : Processor}
    (hf : Frame d.mem d.rsp [c.rip, c.cs.setWidth 64, c.rflags, c.reg .rsp, c.ss.setWidth 64])
    (hr : ∀ r, r ≠ .rsp → d.reg r = c.reg r) :
    d.iretq = { c with ds := d.ds, es := d.es, fx := d.fx, mem := d.mem } := by
  obtain ⟨h1, h2, h3, h4, h5, -⟩ := hf
  have hreg : (fun x => if x = .rsp then c.reg .rsp else d.reg x) = c.reg := by
    funext x
    by_cases hx : x = .rsp
    · rw [if_pos hx, hx]
    · rw [if_neg hx, hr x hx]
  simp only [iretq, word, h1, h2, h3, h4, h5, BitVec.ofNat_toNat, BitVec.setWidth_eq, hreg,
    BitVec.setWidth_setWidth_of_le, show (16 : Nat) ≤ 64 by omega]

end Asm
