import Coconut.Mmio
import Coconut.Pci

/-!
# Probing BARs on the device

`probe_bars` as it runs: it saves the command register and turns decoding off, writes all
ones to one BAR register after the other, reads back which bits took them, and puts back
what it found.  A write reaches only the writable bits of a register (`Wired`); so each
register comes out as it went in (`probeRegister_run`), and the loop sees what
`BarRegisters` records (`probeLoop_run`).

A device has a row of BARs, of one or two registers each, that fill its six registers
(`Implements`).  Its type bits are wired, and so are the bits below its size.
-/
namespace Coconut.Pci

/-- An entry of the array `probe_bars` returns. -/
structure BarSlot extends BarInfo where
  isMemory : Bool

/-- `BarInfo::empty()`. -/
def BarSlot.empty : BarSlot := ⟨⟨0#64, 0#64, false, false⟩, false⟩

/-- Write all ones to a register, read the mask, put the original value back. -/
def probeRegister (wires : Wiring) (dev : PciDevice) (offset : Nat) :
    StateM Host (BitVec 32 × BitVec 32) := do
  let original ← configRead32 wires dev.bus dev.device dev.function offset
  configWrite32 wires dev.bus dev.device dev.function offset 0xFFFFFFFF#32
  let mask ← configRead32 wires dev.bus dev.device dev.function offset
  configWrite32 wires dev.bus dev.device dev.function offset original
  return (original, mask)

/-- The loop over the BAR registers, from register `i` on. -/
def probeLoop (wires : Wiring) (dev : PciDevice) (i : Nat) (bars : List BarSlot) :
    StateM Host (List BarSlot) :=
  if _hi : i < 6 then do
    let (original, mask) ← probeRegister wires dev (0x10 + i * 4)
    if mask = 0#32 ∨ mask = 0xFFFFFFFF#32 then probeLoop wires dev (i + 1) bars
    -- I/O BARs are skipped
    else if original &&& 1#32 ≠ 0#32 then probeLoop wires dev (i + 1) bars
    else
      let prefetchable := original &&& 8#32 != 0#32
      let is64bit := (original >>> 1) &&& 3#32 == 2#32
      if is64bit ∧ i < 5 then do
        let (highOriginal, highMask) ← probeRegister wires dev (0x10 + (i + 1) * 4)
        let fullMask : BitVec 64 := (highMask.setWidth 64 <<< 32) ||| (barBits mask).setWidth 64
        if fullMask = 0#64 then probeLoop wires dev (i + 2) bars
        else
          let base : BitVec 64 :=
            (highOriginal.setWidth 64 <<< 32) ||| (barBits original).setWidth 64
          let bar : BarSlot := ⟨⟨base, ~~~fullMask + 1#64, true, prefetchable⟩, true⟩
          probeLoop wires dev (i + 2) (bars.set i bar)
      else
        let memMask := barBits mask
        if memMask = 0#32 then probeLoop wires dev (i + 1) bars
        else
          let bar : BarSlot := ⟨⟨(barBits original).setWidth 64, (~~~memMask).setWidth 64 + 1#64,
            false, prefetchable⟩, true⟩
          probeLoop wires dev (i + 1) (bars.set i bar)
  else return bars
termination_by 6 - i

/-- Probe BAR sizes using the standard write-all-ones technique. -/
def probeBars (wires : Wiring) (dev : PciDevice) : StateM Host (List BarSlot) := do
  let cmd ← configRead32 wires dev.bus dev.device dev.function 0x04
  configWrite32 wires dev.bus dev.device dev.function 0x04 (cmd &&& ~~~3#32)
  let bars ← probeLoop wires dev 0 (List.replicate 6 BarSlot.empty)
  configWrite32 wires dev.bus dev.device dev.function 0x04 cmd
  return bars

/-! ## One register -/

/-- The device is on the bus. -/
structure PciDevice.Addressable (dev : PciDevice) : Prop where
  bus : dev.bus < 256
  device : dev.device < 32
  function : dev.function < 8

/-- BAR register `i` takes the bits of `w` from a write and keeps the others. -/
def Wired (wires : Wiring) (dev : PciDevice) (i : Nat) (w : BitVec 32) : Prop :=
  ∀ old v, wires (dev.register (0x10 + i * 4)) old v = (v &&& w) ||| (old &&& ~~~w)

/-- What a register with the writable bits `w` returns after all ones. -/
def readback (x w : BitVec 32) : BitVec 32 := w ||| (x &&& ~~~w)

theorem allOnes_written (x w : BitVec 32) : (0xFFFFFFFF#32 &&& w) ||| (x &&& ~~~w) = readback x w := by
  rw [readback, show (0xFFFFFFFF#32 : BitVec 32) = BitVec.allOnes 32 from rfl, BitVec.allOnes_and]

theorem restored (x w : BitVec 32) : (x &&& w) ||| (readback x w &&& ~~~w) = x := by
  apply BitVec.eq_of_getLsbD_eq
  intro i hi
  simp only [readback, BitVec.getLsbD_or, BitVec.getLsbD_and, BitVec.getLsbD_not, hi, decide_true,
    Bool.true_and]
  cases x.getLsbD i <;> cases w.getLsbD i <;> rfl

/-- What the loop finds in the BAR registers, `w i` being the writable bits of register `i`. -/
def barRegisters (h : Host) (dev : PciDevice) (w : Nat → BitVec 32) : BarRegisters where
  original i := h.regs (dev.register (0x10 + i * 4))
  mask i := readback (h.regs (dev.register (0x10 + i * 4))) (w i)

variable {wires : Wiring} {dev : PciDevice}

theorem run_bind {α β : Type} (x : StateM Host α) (f : α → StateM Host β) (h : Host) :
    (x >>= f).run h = (f (x.run h).1).run (x.run h).2 := rfl

/-- A probed register is left as it was. -/
theorem probeRegister_run (hdev : dev.Addressable) {i : Nat} (hi : i < 6) {w : Nat → BitVec 32}
    (hw : Wired wires dev i (w i)) (h : Host) : ∃ a,
      (probeRegister wires dev (0x10 + i * 4)).run h =
        (((barRegisters h dev w).original i, (barRegisters h dev w).mask i),
          { h with address := a }) := by
  have read : ∀ g : Host, (configRead32 wires dev.bus dev.device dev.function (0x10 + i * 4)).run g =
      (g.regs (dev.register (0x10 + i * 4)), { g with address := _ }) := fun g =>
    configRead32_run wires hdev.bus hdev.device hdev.function (by omega)
  have write : ∀ (g : Host) v,
      (configWrite32 wires dev.bus dev.device dev.function (0x10 + i * 4) v).run g =
        ((), Host.set { g with address := _ } (dev.register (0x10 + i * 4))
          (wires (dev.register (0x10 + i * 4)) (g.regs (dev.register (0x10 + i * 4))) v)) := fun g v =>
    configWrite32_run wires hdev.bus hdev.device hdev.function (by omega) v
  have taken : ∀ old v, wires (dev.register (0x10 + i * 4)) old v =
      (v &&& w i) ||| (old &&& ~~~w i) := hw
  refine ⟨configAddr dev.bus dev.device dev.function (0x10 + i * 4), ?_⟩
  unfold probeRegister
  simp only [run_bind, read, write, Host.set_regs_self, taken, allOnes_written, restored]
  exact congrArg (Prod.mk _) (Host.set_restore
    { h with address := configAddr dev.bus dev.device dev.function (0x10 + i * 4) } _ _)

/-! ## The loop -/

theorem probeBar_step (regs : BarRegisters) (i : Nat) : 1 ≤ (probeBar regs i).2 := by
  unfold probeBar
  simp only
  split
  · exact Nat.le_refl _
  split
  · exact Nat.le_refl _
  split
  · split <;> exact Nat.le_succ _
  · split <;> exact Nat.le_refl _

/-- Enter what a round has found. -/
def place (bars : List BarSlot) (i : Nat) : Option BarInfo → List BarSlot
  | none => bars
  | some bar => bars.set i ⟨bar, true⟩

/-- The array that the rounds of `probeBar` fill. -/
def slotsFrom (regs : BarRegisters) (i : Nat) (bars : List BarSlot) : List BarSlot :=
  if _hi : i < 6 then
    slotsFrom regs (i + (probeBar regs i).2) (place bars i (probeBar regs i).1)
  else bars
termination_by 6 - i
decreasing_by
  have := probeBar_step regs i
  omega

/-- A round that ends at `probeBar`'s answer goes on from there. -/
theorem slotsFrom_eq {regs : BarRegisters} {i : Nat} (hi : i < 6) {bar : Option BarInfo} {step : Nat}
    (hbar : probeBar regs i = (bar, step)) (bars : List BarSlot) :
    slotsFrom regs i bars = slotsFrom regs (i + step) (place bars i bar) := by
  rw [slotsFrom, dif_pos hi, hbar]

/-- The loop computes what `probeBar` says and leaves the registers as they were. -/
theorem probeLoop_run (hdev : dev.Addressable) {w : Nat → BitVec 32}
    (hw : ∀ i < 6, Wired wires dev i (w i)) : ∀ (n i : Nat), 6 - i = n → ∀ (bars : List BarSlot) (h : Host),
      ∃ a, (probeLoop wires dev i bars).run h =
        (slotsFrom (barRegisters h dev w) i bars, { h with address := a }) := by
  intro n
  induction n using Nat.strong_induction_on with
  | _ n ih =>
    intro i hn bars h
    by_cases hi : i < 6
    · obtain ⟨a, ha⟩ := probeRegister_run hdev hi (hw i hi) h
      have next : ∀ (step : Nat) (bars : List BarSlot) (b : BitVec 32), 1 ≤ step → ∃ a',
          (probeLoop wires dev (i + step) bars).run { h with address := b } =
            (slotsFrom (barRegisters h dev w) (i + step) bars, { h with address := a' }) :=
        fun step bars b hstep => ih (6 - (i + step)) (by omega) (i + step) rfl bars
          { h with address := b }
      have high : i < 5 → ∃ a', (probeRegister wires dev (0x10 + (i + 1) * 4)).run
          { h with address := a } = (((barRegisters h dev w).original (i + 1),
            (barRegisters h dev w).mask (i + 1)), { h with address := a' }) :=
        fun hi' => probeRegister_run hdev (by omega) (hw (i + 1) (by omega)) { h with address := a }
      generalize barRegisters h dev w = regs at ha next high ⊢
      rw [probeLoop, dif_pos hi, run_bind, ha]
      by_cases hskip : regs.mask i = 0#32 ∨ regs.mask i = 0xFFFFFFFF#32
      · rw [slotsFrom_eq hi (if_pos hskip)]
        simp only [if_pos hskip]
        exact next 1 bars a (Nat.le_refl _)
      by_cases hio : regs.original i &&& 1#32 ≠ 0#32
      · rw [slotsFrom_eq hi ((if_neg hskip).trans (if_pos hio))]
        simp only [if_neg hskip, if_pos hio]
        exact next 1 bars a (Nat.le_refl _)
      by_cases hwide : ((regs.original i >>> 1) &&& 3#32 == 2#32) ∧ i < 5
      · obtain ⟨a', ha'⟩ := high hwide.2
        simp only [if_neg hskip, if_neg hio, if_pos hwide, run_bind, ha']
        by_cases hzero : ((regs.mask (i + 1)).setWidth 64 <<< 32) |||
            (barBits (regs.mask i)).setWidth 64 = 0#64
        · rw [slotsFrom_eq hi (((if_neg hskip).trans (if_neg hio)).trans
            ((if_pos hwide).trans (if_pos hzero)))]
          simp only [if_pos hzero]
          exact next 2 bars a' (by decide)
        · rw [slotsFrom_eq hi (((if_neg hskip).trans (if_neg hio)).trans
            ((if_pos hwide).trans (if_neg hzero)))]
          simp only [if_neg hzero]
          exact next 2 _ a' (by decide)
      · simp only [if_neg hskip, if_neg hio, if_neg hwide]
        by_cases hzero : barBits (regs.mask i) = 0#32
        · rw [slotsFrom_eq hi (((if_neg hskip).trans (if_neg hio)).trans
            ((if_neg hwide).trans (if_pos hzero)))]
          simp only [if_pos hzero]
          exact next 1 bars a (Nat.le_refl _)
        · rw [slotsFrom_eq hi (((if_neg hskip).trans (if_neg hio)).trans
            ((if_neg hwide).trans (if_neg hzero)))]
          simp only [if_neg hzero]
          exact next 1 _ a (Nat.le_refl _)
    · refine ⟨h.address, ?_⟩
      rw [probeLoop, dif_neg hi, slotsFrom, dif_neg hi]
      rfl

/-! ## What a device implements -/

/-- A base address register as a device implements it.  A memory BAR takes `2 ^ k` bytes. -/
inductive Bar where
  | unimplemented
  /-- An I/O BAR with the writable bits `w`. -/
  | io (w base : BitVec 32)
  /-- A 32-bit memory BAR; the second flag asks for an address below 1 MiB. -/
  | mem32 (k : Nat) (base : BitVec 32) (prefetchable low : Bool)
  | mem64 (k : Nat) (base : BitVec 64) (prefetchable : Bool)

/-- The bits from `k` on. -/
def sizeMask (n k : Nat) : BitVec n := BitVec.allOnes n <<< k

/-- The type bits of a 32-bit memory BAR. -/
def typeBits32 (prefetchable low : Bool) : BitVec 32 :=
  (if prefetchable then 8#32 else 0#32) ||| if low then 2#32 else 0#32

/-- The type bits of a 64-bit memory BAR. -/
def typeBits64 (prefetchable : Bool) : BitVec 32 := (if prefetchable then 8#32 else 0#32) ||| 4#32

namespace Bar

/-- What the registers of a BAR hold, and which of their bits can be written. -/
def registers : Bar → List (BitVec 32 × BitVec 32)
  | unimplemented => [(0#32, 0#32)]
  | io w base => [(base ||| 1#32, w)]
  | mem32 k base prefetchable low => [(base ||| typeBits32 prefetchable low, sizeMask 32 k)]
  | mem64 k base prefetchable =>
    [(base.setWidth 32 ||| typeBits64 prefetchable, (sizeMask 64 k).setWidth 32),
      ((base >>> 32).setWidth 32, (sizeMask 64 k >>> 32).setWidth 32)]

/-- The sizes PCI allows, with a base that is a multiple of the size. -/
def Legal : Bar → Prop
  | unimplemented => True
  | io w base => w &&& 3#32 = 0#32 ∧ base &&& ~~~w = 0#32
  | mem32 k base _ _ => 4 ≤ k ∧ k ≤ 31 ∧ 2 ^ k ∣ base.toNat
  | mem64 k base _ => 4 ≤ k ∧ k ≤ 63 ∧ 2 ^ k ∣ base.toNat

/-- What `probe_bars` should report for the registers of a BAR. -/
def slots : Bar → List BarSlot
  | unimplemented | io _ _ => [BarSlot.empty]
  | mem32 k base prefetchable _ =>
    [⟨⟨base.setWidth 64, BitVec.twoPow 64 k, false, prefetchable⟩, true⟩]
  | mem64 k base prefetchable =>
    [⟨⟨base, BitVec.twoPow 64 k, true, prefetchable⟩, true⟩, BarSlot.empty]

end Bar

/-! ## Bits of a memory BAR -/

theorem getLsbD_of_dvd {n k i : Nat} {x : BitVec n} (h : 2 ^ k ∣ x.toNat) (hi : i < k) :
    x.getLsbD i = false := by
  obtain ⟨m, hm⟩ := h
  rw [← BitVec.testBit_toNat, hm, Nat.testBit_two_pow_mul, decide_eq_false (by omega), Bool.false_and]

theorem getLsbD_sizeMask (n k i : Nat) : (sizeMask n k).getLsbD i = (decide (i < n) && decide (k ≤ i)) := by
  rw [sizeMask, BitVec.getLsbD_shiftLeft, BitVec.getLsbD_allOnes]
  by_cases hk : k ≤ i
  · rw [decide_eq_false (Nat.not_lt.mpr hk), decide_eq_true hk]
    by_cases hn : i < n
    · rw [decide_eq_true hn, decide_eq_true (show i - k < n by omega)]
      rfl
    · rw [decide_eq_false hn]
      rfl
  · rw [decide_eq_true (Nat.lt_of_not_le hk), decide_eq_false hk, Bool.not_true, Bool.and_false,
      Bool.false_and]

/-- The negated size mask is the size. -/
theorem not_sizeMask (n k : Nat) : ~~~sizeMask n k + 1#n = BitVec.twoPow n k := by
  rw [sizeMask, BitVec.shiftLeft_eq_mul_twoPow, ← BitVec.neg_one_eq_allOnes, BitVec.neg_mul,
    BitVec.one_mul, ← BitVec.neg_eq_not_add, BitVec.neg_neg]

theorem not_sizeMask_setWidth {k : Nat} (hk : k ≤ 31) :
    (~~~sizeMask 32 k).setWidth 64 + 1#64 = BitVec.twoPow 64 k := by
  have hpow : 2 ^ k ≤ 2 ^ 31 := Nat.pow_le_pow_right (by decide) hk
  have hsize := congrArg BitVec.toNat (not_sizeMask 32 k)
  have hlt := (~~~sizeMask 32 k).isLt
  have hpos := Nat.two_pow_pos k
  rw [BitVec.toNat_add, BitVec.toNat_twoPow, BitVec.toNat_ofNat, Nat.mod_eq_of_lt (by omega)] at hsize
  apply BitVec.eq_of_toNat_eq
  rw [BitVec.toNat_add, BitVec.toNat_setWidth, BitVec.toNat_twoPow, BitVec.toNat_ofNat]
  omega

/-- The low four bits are clear. -/
def LowClear (b : BitVec 32) : Prop := ∀ i < 4, b.getLsbD i = false

theorem LowClear.and {b c : BitVec 32} (hb : LowClear b) (hc : ∀ i, 4 ≤ i → c.getLsbD i = false) :
    b &&& c = 0#32 := by
  apply BitVec.eq_of_getLsbD_eq
  intro i _
  rw [BitVec.getLsbD_and, BitVec.getLsbD_zero]
  by_cases hi : i < 4
  · rw [hb i hi, Bool.false_and]
  · rw [hc i (by omega), Bool.and_false]

/-- A value below 16 has no bit from 4 on. -/
theorem getLsbD_of_lt {c : BitVec 32} (h : c.toNat < 16) (i : Nat) (hi : 4 ≤ i) : c.getLsbD i = false := by
  rw [← BitVec.testBit_toNat]
  exact Nat.testBit_lt_two_pow (Nat.lt_of_lt_of_le h (show 2 ^ 4 ≤ 2 ^ i from Nat.pow_le_pow_right (by decide) hi))

/-- What the type bits answer to a test does not depend on the address bits. -/
theorem LowClear.or_and {b f c : BitVec 32} (hb : LowClear b) (hc : c.toNat < 16) :
    (b ||| f) &&& c = f &&& c := by
  rw [BitVec.and_comm, BitVec.and_or_distrib_left, BitVec.and_comm, hb.and (getLsbD_of_lt hc),
    BitVec.zero_or, BitVec.and_comm]

theorem LowClear.barBits_or {b f : BitVec 32} (hb : LowClear b) (hf : f.toNat < 16) :
    barBits (b ||| f) = b := by
  have hmask : (0xFFFFFFF0#32 : BitVec 32) = sizeMask 32 4 := rfl
  apply BitVec.eq_of_getLsbD_eq
  intro i hi
  rw [barBits, hmask, BitVec.getLsbD_and, BitVec.getLsbD_or, getLsbD_sizeMask]
  by_cases hlow : i < 4
  · rw [hb i hlow, decide_eq_false (show ¬ 4 ≤ i by omega), Bool.and_false, Bool.and_false]
  · rw [getLsbD_of_lt hf i (by omega), Bool.or_false, decide_eq_true hi,
      decide_eq_true (show 4 ≤ i by omega), Bool.and_true, Bool.and_true]

/-- Address bits that reach no wired bit read back as the size mask, with the type bits
below it. -/
theorem readback_or {b w : BitVec 32} (hb : ∀ i < 32, w.getLsbD i = false → b.getLsbD i = false)
    (f : BitVec 32) : readback (b ||| f) w = w ||| f := by
  apply BitVec.eq_of_getLsbD_eq
  intro i hi
  simp only [readback, BitVec.getLsbD_or, BitVec.getLsbD_and, BitVec.getLsbD_not, hi, decide_true,
    Bool.true_and]
  cases hw : w.getLsbD i with
  | false => rw [hb i hi hw, Bool.false_or, Bool.false_or, Bool.not_false, Bool.and_true]
  | true => rw [Bool.true_or, Bool.true_or]

theorem readback_base {b w : BitVec 32} (hb : ∀ i < 32, w.getLsbD i = false → b.getLsbD i = false) :
    readback b w = w := by
  have h := readback_or hb 0#32
  rwa [BitVec.or_zero, BitVec.or_zero] at h

/-- The two halves of a 64-bit address, put together as `probe_bars` does. -/
theorem join_halves (x : BitVec 64) :
    (((x >>> 32).setWidth 32).setWidth 64 <<< 32) ||| ((x.setWidth 32).setWidth 64) = x := by
  apply BitVec.eq_of_getLsbD_eq
  intro i hi
  simp only [BitVec.getLsbD_or, BitVec.getLsbD_shiftLeft, BitVec.getLsbD_setWidth,
    BitVec.getLsbD_ushiftRight]
  by_cases hlow : i < 32
  · simp [hlow, hi]
  · have hadd : 32 + (i - 32) = i := by omega
    simp [hlow, hi, hadd, show i - 32 < 64 by omega, show i - 32 < 32 by omega]

/-! ## One round on each kind of BAR -/

variable {regs : BarRegisters} {i : Nat}

/-- The registers from `i` on hold these values and have these writable bits. -/
def Lies (regs : BarRegisters) (i : Nat) (l : List (BitVec 32 × BitVec 32)) : Prop :=
  ∀ j x w, l[j]? = some (x, w) → regs.original (i + j) = x ∧ regs.mask (i + j) = readback x w

theorem Lies.head {x w : BitVec 32} {l : List (BitVec 32 × BitVec 32)} (h : Lies regs i ((x, w) :: l)) :
    regs.original i = x ∧ regs.mask i = readback x w := h 0 x w rfl

theorem Lies.tail {p : BitVec 32 × BitVec 32} {l : List (BitVec 32 × BitVec 32)}
    (h : Lies regs i (p :: l)) : Lies regs (i + 1) l := by
  intro j x w hj
  rw [Nat.add_right_comm, Nat.add_assoc]
  exact h (j + 1) x w hj

theorem probeBar_unimplemented (h : Lies regs i Bar.unimplemented.registers) :
    probeBar regs i = (none, 1) := by
  have hmask : regs.mask i = 0#32 := h.head.2
  exact if_pos (.inl hmask)

theorem probeBar_io {w base : BitVec 32} (h : Lies regs i (Bar.io w base).registers) :
    probeBar regs i = (none, 1) := by
  have hio : regs.original i &&& 1#32 ≠ 0#32 := by
    intro hzero
    have hbit := congrArg (fun x => BitVec.getLsbD x 0) hzero
    rw [h.head.1] at hbit
    simp at hbit
  unfold probeBar
  simp only [if_pos hio, ite_self]

/-- A memory BAR is not taken for an unimplemented one or for I/O. -/
theorem memory_bar {b c f : BitVec 32} (hc : LowClear c) (hb : LowClear b) (hf : f.toNat < 16)
    (heven : f &&& 1#32 = 0#32) (hne : c = 0#32 → f ≠ 0#32) (horiginal : regs.original i = b ||| f)
    (hmask : regs.mask i = c ||| f) :
    ¬ (regs.mask i = 0#32 ∨ regs.mask i = 0xFFFFFFFF#32) ∧ ¬ regs.original i &&& 1#32 ≠ 0#32 := by
  refine ⟨?_, ?_⟩
  · rintro (hzero | hones)
    · rw [hmask] at hzero
      have hc0 : c = 0#32 := by rw [← hc.barBits_or hf, hzero]; rfl
      rw [hc0, BitVec.zero_or] at hzero
      exact hne hc0 hzero
    · have hbit : (c ||| f) &&& 1#32 = 1#32 := by rw [← hmask, hones]; rfl
      rw [hc.or_and (by decide), heven] at hbit
      exact absurd hbit (by decide)
  · rw [horiginal, hb.or_and (by decide), heven]
    exact not_not.mpr rfl

/-- The type field of a register. -/
theorem type_field {b f : BitVec 32} (hb : LowClear b) :
    ((b ||| f) >>> 1) &&& 3#32 = (f &&& 6#32) >>> 1 := by
  rw [← hb.or_and (show (6#32 : BitVec 32).toNat < 16 by decide), BitVec.ushiftRight_and_distrib]
  rfl

theorem lowClear_sizeMask {k : Nat} (hk : 4 ≤ k) : LowClear ((sizeMask 64 k).setWidth 32) := by
  intro i hi
  rw [BitVec.getLsbD_setWidth, getLsbD_sizeMask, decide_eq_false (show ¬ k ≤ i by omega),
    Bool.and_false, Bool.and_false]

theorem probeBar_mem32 {k : Nat} {base : BitVec 32} {prefetchable low : Bool}
    (hlegal : (Bar.mem32 k base prefetchable low).Legal)
    (h : Lies regs i (Bar.mem32 k base prefetchable low).registers) :
    probeBar regs i =
      (some ⟨base.setWidth 64, BitVec.twoPow 64 k, false, prefetchable⟩, 1) := by
  obtain ⟨hk4, hk31, haligned⟩ := hlegal
  obtain ⟨horiginal, hmask⟩ := h.head
  have hb : LowClear base := fun j hj => getLsbD_of_dvd haligned (by omega)
  have hw : LowClear (sizeMask 32 k) := fun j hj => by
    rw [getLsbD_sizeMask, decide_eq_false (show ¬ k ≤ j by omega), Bool.and_false]
  have hf : (typeBits32 prefetchable low).toNat < 16 := by
    cases prefetchable <;> cases low <;> decide
  rw [readback_or (fun j hj hbit => getLsbD_of_dvd haligned (by
    rw [getLsbD_sizeMask, decide_eq_true hj, Bool.true_and] at hbit
    exact Nat.lt_of_not_le (of_decide_eq_false hbit)))] at hmask
  have htop : sizeMask 32 k ≠ 0#32 := fun hzero => by
    have hbit := getLsbD_sizeMask 32 k 31
    rw [hzero, decide_eq_true hk31] at hbit
    exact absurd hbit (by decide)
  have heven : typeBits32 prefetchable low &&& 1#32 = 0#32 := by
    cases prefetchable <;> cases low <;> decide
  obtain ⟨hskip, hio⟩ := memory_bar hw hb hf heven (fun h0 => absurd h0 htop) horiginal hmask
  have hwide : ¬ (((regs.original i >>> 1) &&& 3#32 == 2#32) = true ∧ i < 5) := by
    rw [horiginal, type_field hb]
    cases prefetchable <;> cases low <;> exact fun hc => absurd hc.1 (by decide)
  have hpf : (regs.original i &&& 8#32 != 0#32) = prefetchable := by
    rw [horiginal, hb.or_and (by decide)]
    cases prefetchable <;> cases low <;> decide
  have hbits : barBits (regs.mask i) = sizeMask 32 k := by rw [hmask, hw.barBits_or hf]
  unfold probeBar
  simp only [if_neg hskip, if_neg hio, if_neg hwide, hbits, if_neg htop, hpf,
    not_sizeMask_setWidth hk31]
  rw [horiginal, hb.barBits_or hf]

theorem probeBar_mem64 {k : Nat} {base : BitVec 64} {prefetchable : Bool}
    (hlegal : (Bar.mem64 k base prefetchable).Legal) (hi : i < 5)
    (h : Lies regs i (Bar.mem64 k base prefetchable).registers) :
    probeBar regs i = (some ⟨base, BitVec.twoPow 64 k, true, prefetchable⟩, 2) := by
  obtain ⟨hk4, hk63, haligned⟩ := hlegal
  obtain ⟨horiginal, hmask⟩ := h.head
  obtain ⟨hhigh, hhighMask⟩ := h.tail.head
  have hb : LowClear (base.setWidth 32) := fun j hj => by
    rw [BitVec.getLsbD_setWidth, getLsbD_of_dvd haligned (by omega), Bool.and_false]
  have hw := lowClear_sizeMask hk4
  have hf : (typeBits64 prefetchable).toNat < 16 := by cases prefetchable <;> decide
  -- a bit of the mask that is clear lies below the size, in either half
  have hclear : ∀ j < 64, (sizeMask 64 k).getLsbD j = false → base.getLsbD j = false := by
    intro j hj hbit
    rw [getLsbD_sizeMask, decide_eq_true hj, Bool.true_and] at hbit
    exact getLsbD_of_dvd haligned (Nat.lt_of_not_le (of_decide_eq_false hbit))
  rw [readback_or (fun j hj hbit => by
    rw [BitVec.getLsbD_setWidth, decide_eq_true hj, Bool.true_and] at hbit ⊢
    exact hclear j (by omega) hbit)] at hmask
  have hhighMask' : regs.mask (i + 1) = (sizeMask 64 k >>> 32).setWidth 32 := by
    rw [hhighMask]
    refine readback_base fun j hj hbit => ?_
    rw [BitVec.getLsbD_setWidth, decide_eq_true hj, Bool.true_and, BitVec.getLsbD_ushiftRight] at hbit ⊢
    exact hclear (32 + j) (by omega) hbit
  have heven : typeBits64 prefetchable &&& 1#32 = 0#32 := by cases prefetchable <;> decide
  obtain ⟨hskip, hio⟩ := memory_bar hw hb hf heven (fun _ => by cases prefetchable <;> decide)
    horiginal hmask
  have hwide : ((regs.original i >>> 1) &&& 3#32 == 2#32) = true ∧ i < 5 := by
    rw [horiginal, type_field hb]
    refine ⟨?_, hi⟩
    cases prefetchable <;> decide
  have hpf : (regs.original i &&& 8#32 != 0#32) = prefetchable := by
    rw [horiginal, hb.or_and (by decide)]
    cases prefetchable <;> decide
  have hbits : barBits (regs.mask i) = (sizeMask 64 k).setWidth 32 := by rw [hmask, hw.barBits_or hf]
  have htop : sizeMask 64 k ≠ 0#64 := fun hzero => by
    have hbit := getLsbD_sizeMask 64 k 63
    rw [hzero, decide_eq_true hk63] at hbit
    exact absurd hbit (by decide)
  unfold probeBar
  simp only [if_neg hskip, if_neg hio, if_pos hwide, hbits, hhighMask', join_halves, if_neg htop, hpf,
    not_sizeMask]
  rw [horiginal, hb.barBits_or hf, hhigh, join_halves]

/-! ## The whole device -/

theorem Lies.append {l l' : List (BitVec 32 × BitVec 32)} (h : Lies regs i (l ++ l')) :
    Lies regs i l ∧ Lies regs (i + l.length) l' := by
  refine ⟨fun j x w hj => ?_, fun j x w hj => ?_⟩
  · obtain ⟨hlt, -⟩ := List.getElem?_eq_some_iff.mp hj
    exact h j x w (by rwa [List.getElem?_append_left hlt])
  · rw [Nat.add_assoc]
    exact h (l.length + j) x w
      (by rwa [List.getElem?_append_right (Nat.le_add_right _ _), Nat.add_sub_cancel_left])

theorem Bar.length_slots (b : Bar) : b.slots.length = b.registers.length := by
  cases b <;> rfl

theorem Bar.registers_pos (b : Bar) : 1 ≤ b.registers.length := by
  cases b <;> exact Nat.le_add_left _ _

/-- An empty slot in front of empty slots. -/
theorem place_tail (acc : List BarSlot) (bar : BarInfo) (n : Nat) :
    place (acc ++ List.replicate (n + 1) BarSlot.empty) acc.length (some bar) =
      (acc ++ [⟨bar, true⟩]) ++ List.replicate n BarSlot.empty := by
  rw [place, List.replicate_succ, List.set_append_right _ _ (Nat.le_refl _), Nat.sub_self,
    List.set_cons_zero, List.append_assoc, List.singleton_append]

/-- One BAR: the loop enters what it is and goes on behind it. -/
theorem slotsFrom_bar {b : Bar} (hlegal : b.Legal) {acc : List BarSlot}
    (h : Lies regs acc.length b.registers) {n : Nat} (hn : acc.length + b.registers.length + n = 6) :
    slotsFrom regs acc.length
        (acc ++ List.replicate (b.registers.length + n) BarSlot.empty) =
      slotsFrom regs (acc ++ b.slots).length
        ((acc ++ b.slots) ++ List.replicate n BarSlot.empty) := by
  have hpos := b.registers_pos
  have hlen : (acc ++ b.slots).length = acc.length + b.registers.length := by
    rw [List.length_append, Bar.length_slots]
  rw [hlen]
  have skip : probeBar regs acc.length = (none, 1) → b.registers.length = 1 →
      b.slots = [BarSlot.empty] → slotsFrom regs acc.length
        (acc ++ List.replicate (b.registers.length + n) BarSlot.empty) =
      slotsFrom regs (acc.length + b.registers.length)
        ((acc ++ b.slots) ++ List.replicate n BarSlot.empty) := by
    intro hbar hone hslots
    rw [slotsFrom_eq (by omega) hbar, hone, hslots, Nat.add_comm 1 n, List.replicate_succ,
      List.append_assoc, List.singleton_append]
    rfl
  cases b with
  | unimplemented => exact skip (probeBar_unimplemented h) rfl rfl
  | io w base => exact skip (probeBar_io h) rfl rfl
  | mem32 k base prefetchable low =>
    rw [slotsFrom_eq (by omega) (probeBar_mem32 hlegal h),
      show (Bar.mem32 k base prefetchable low).registers.length + n = n + 1 from Nat.add_comm 1 n,
      place_tail]
    rfl
  | mem64 k base prefetchable =>
    have htwo : (Bar.mem64 k base prefetchable).registers.length = 2 := rfl
    rw [slotsFrom_eq (by omega) (probeBar_mem64 hlegal (by omega) h),
      show (Bar.mem64 k base prefetchable).registers.length + n = (n + 1) + 1 from Nat.add_comm 2 n,
      place_tail, List.replicate_succ, List.append_assoc acc, List.append_assoc acc]
    rfl

/-- The row of BARs that the loop has still before it. -/
theorem slotsFrom_layout : ∀ {bars : List Bar} {acc : List BarSlot}, (∀ b ∈ bars, b.Legal) →
    Lies regs acc.length (bars.flatMap Bar.registers) →
    acc.length + (bars.flatMap Bar.registers).length = 6 →
    slotsFrom regs acc.length
        (acc ++ List.replicate (bars.flatMap Bar.registers).length BarSlot.empty) =
      acc ++ bars.flatMap Bar.slots := by
  intro bars
  induction bars with
  | nil =>
    intro acc _ _ hlen
    rw [slotsFrom, dif_neg (by simp only [List.flatMap_nil, List.length_nil] at hlen; omega)]
    rfl
  | cons b bars ih =>
    intro acc hlegal hlies hlen
    rw [List.flatMap_cons] at hlies hlen
    obtain ⟨hfirst, hrest⟩ := hlies.append
    rw [List.length_append] at hlen
    have hacc : (acc ++ b.slots).length = acc.length + b.registers.length := by
      rw [List.length_append, Bar.length_slots]
    rw [List.flatMap_cons, List.length_append,
      slotsFrom_bar (hlegal b List.mem_cons_self) hfirst (by omega),
      ih (fun b' hb' => hlegal b' (List.mem_cons_of_mem _ hb')) (by rwa [hacc])
        (by rw [hacc]; omega), List.flatMap_cons, List.append_assoc]

/-! ## The list of memory BARs -/

/-- The memory BAR a slot reports. -/
def BarSlot.memory? (slot : BarSlot) : Option BarInfo :=
  if slot.isMemory then some slot.toBarInfo else none

theorem probeBar_fits (regs : BarRegisters) {i : Nat} (hi : i < 6) : i + (probeBar regs i).2 ≤ 6 := by
  unfold probeBar
  simp only
  split
  · exact hi
  split
  · exact hi
  split
  · split <;> (simp only; omega)
  · split <;> exact hi

/-- The slot that a round fills, whether it finds a BAR or not. -/
def filled : Option BarInfo → BarSlot
  | none => BarSlot.empty
  | some bar => ⟨bar, true⟩

theorem memory?_filled (bar : Option BarInfo) : (filled bar).memory? = bar := by
  cases bar <;> rfl

theorem place_filled (acc : List BarSlot) (bar : Option BarInfo) (n : Nat) :
    place (acc ++ List.replicate (n + 1) BarSlot.empty) acc.length bar =
      (acc ++ [filled bar]) ++ List.replicate n BarSlot.empty := by
  cases bar with
  | none => rw [place, List.replicate_succ, List.append_assoc]; rfl
  | some bar => exact place_tail acc bar n

/-- `probeFrom` lists the memory BARs of the array. -/
theorem probeFrom_eq_slots (regs : BarRegisters) {fuel : Nat} : ∀ (acc : List BarSlot) {m : Nat},
    acc.length + m = 6 → m ≤ fuel →
    (slotsFrom regs acc.length (acc ++ List.replicate m BarSlot.empty)).filterMap BarSlot.memory? =
      acc.filterMap BarSlot.memory? ++ probeFrom regs fuel acc.length := by
  induction fuel with
  | zero =>
    intro acc m hacc hm
    obtain rfl : m = 0 := by omega
    rw [slotsFrom, dif_neg (by omega), List.replicate_zero, List.append_nil, probeFrom, List.append_nil]
  | succ fuel ih =>
    intro acc m hacc hm
    by_cases hi : acc.length < 6
    · obtain ⟨n, rfl⟩ : ∃ n, m = n + 1 := ⟨m - 1, by omega⟩
      have hstep := probeBar_step regs acc.length
      have hfits := probeBar_fits regs hi
      cases hbar : probeBar regs acc.length with
      | mk bar step =>
        rw [hbar] at hstep hfits
        obtain ⟨k, rfl⟩ : ∃ k, step = k + 1 := ⟨step - 1, by simp only at hstep; omega⟩
        simp only at hfits
        have hrow : (acc ++ [filled bar]) ++ List.replicate n BarSlot.empty =
            (acc ++ [filled bar] ++ List.replicate k BarSlot.empty) ++
              List.replicate (n - k) BarSlot.empty := by
          rw [List.append_assoc (acc ++ [filled bar]), ← List.replicate_add,
            Nat.add_sub_cancel' (by omega)]
        have hlen : (acc ++ [filled bar] ++ List.replicate k BarSlot.empty).length =
            acc.length + (k + 1) := by
          simp only [List.length_append, List.length_singleton, List.length_replicate]
          omega
        have hempty : (List.replicate k BarSlot.empty).filterMap BarSlot.memory? = [] := by
          rw [List.filterMap_replicate]
          rfl
        rw [slotsFrom_eq hi hbar, place_filled, hrow, ← hlen, ih _ (by omega) (by omega), probeFrom,
          if_pos hi, hbar, hlen, List.filterMap_append, List.filterMap_append, hempty, List.append_nil,
          List.append_assoc]
        congr 1
        rw [List.filterMap_cons, memory?_filled]
        cases bar <;> rfl
    · obtain rfl : m = 0 := by omega
      rw [slotsFrom, dif_neg hi, probeFrom, if_neg hi, List.replicate_zero, List.append_nil,
        List.append_nil]

/-- What the mapping of MMIO regions works with is what `probe_bars` reports. -/
theorem probeBars_eq_slots (regs : BarRegisters) : Coconut.probeBars regs =
    (slotsFrom regs 0 (List.replicate 6 BarSlot.empty)).filterMap BarSlot.memory? :=
  (probeFrom_eq_slots regs [] rfl (Nat.le_refl 6)).symm

/-! ## Devices -/

/-- A device whose six BAR registers hold this row of BARs, and whose command register
takes some of its bits from a write and keeps the others. -/
structure Implements (wires : Wiring) (h : Host) (dev : PciDevice) (bars : List Bar) : Prop where
  addressable : dev.Addressable
  legal : ∀ b ∈ bars, b.Legal
  fills : (bars.flatMap Bar.registers).length = 6
  holds : ∀ i x w, (bars.flatMap Bar.registers)[i]? = some (x, w) →
    h.regs (dev.register (0x10 + i * 4)) = x ∧ Wired wires dev i w
  command : ∃ w : BitVec 32, ∀ old v, (wires (dev.register 0x04) old v).setWidth 16 =
    ((v &&& w) ||| (old &&& ~~~w)).setWidth 16

theorem Implements.wired {wires : Wiring} {h : Host} {dev : PciDevice} {bars : List Bar}
    (hdev : Implements wires h dev bars) : ∃ w : Nat → BitVec 32, (∀ i < 6, Wired wires dev i (w i)) ∧
      ∀ g : Host, (∀ i < 6, g.regs (dev.register (0x10 + i * 4)) = h.regs (dev.register (0x10 + i * 4))) →
        Lies (barRegisters g dev w) 0 (bars.flatMap Bar.registers) := by
  refine ⟨fun i => ((bars.flatMap Bar.registers).getD i (0#32, 0#32)).2, ?_, ?_⟩
  · intro i hi
    change Wired wires dev i ((bars.flatMap Bar.registers).getD i (0#32, 0#32)).2
    rw [List.getD_eq_getElem?_getD, List.getElem?_eq_getElem (by rw [hdev.fills]; exact hi)]
    exact (hdev.holds i _ _ (List.getElem?_eq_getElem _)).2
  · intro g hg j x w hj
    obtain ⟨hlt, -⟩ := List.getElem?_eq_some_iff.mp hj
    rw [hdev.fills] at hlt
    have hx : g.regs (dev.register (0x10 + j * 4)) = x := (hg j hlt).trans (hdev.holds j x w hj).1
    rw [Nat.zero_add]
    refine ⟨hx, ?_⟩
    change readback (g.regs (dev.register (0x10 + j * 4)))
      ((bars.flatMap Bar.registers).getD j (0#32, 0#32)).2 = _
    rw [hx, List.getD_eq_getElem?_getD, hj, Option.getD_some]

theorem bar_ne_command (dev : PciDevice) (i : Nat) :
    dev.register (0x10 + i * 4) ≠ dev.register 0x04 := by
  intro heq
  have hindex := congrArg Register.index heq
  simp only [PciDevice.register] at hindex
  omega

/-- The command register takes back what was read from it. -/
theorem command_restored {f : BitVec 32 → BitVec 32 → BitVec 32} {w : BitVec 32}
    (hf : ∀ old v, (f old v).setWidth 16 = ((v &&& w) ||| (old &&& ~~~w)).setWidth 16)
    (cmd v : BitVec 32) : (f (f cmd v) cmd).setWidth 16 = cmd.setWidth 16 := by
  have bit : ∀ old v, ∀ j < 16, (f old v).getLsbD j =
      ((v.getLsbD j && w.getLsbD j) || (old.getLsbD j && !w.getLsbD j)) := by
    intro old v j hj
    have hbit := congrArg (fun x => BitVec.getLsbD x j) (hf old v)
    simpa [BitVec.getLsbD_setWidth, hj, show j < 32 by omega] using hbit
  apply BitVec.eq_of_getLsbD_eq
  intro j hj
  rw [BitVec.getLsbD_setWidth, BitVec.getLsbD_setWidth, decide_eq_true hj, Bool.true_and,
    Bool.true_and, bit _ _ j hj, bit _ _ j hj]
  cases w.getLsbD j <;> simp

/-- `probe_bars` decodes exactly: each memory BAR stands at its own index with its base,
size, width and prefetchability, every other slot is empty, and the BAR registers and the
command register are as they were. -/
theorem probe_bars_exact {wires : Wiring} {h : Host} {dev : PciDevice} {bars : List Bar}
    (hdev : Implements wires h dev bars) : ∃ h', (probeBars wires dev).run h =
      (bars.flatMap Bar.slots, h') ∧
      (∀ i < 6, h'.regs (dev.register (0x10 + i * 4)) = h.regs (dev.register (0x10 + i * 4))) ∧
      (h'.regs (dev.register 0x04)).setWidth 16 = (h.regs (dev.register 0x04)).setWidth 16 := by
  obtain ⟨hbus, hdevice, hfunction⟩ := hdev.addressable
  obtain ⟨w, hw, hlies⟩ := hdev.wired
  obtain ⟨wc, hcommand⟩ := hdev.command
  have read : ∀ g : Host, (configRead32 wires dev.bus dev.device dev.function 0x04).run g =
      (g.regs (dev.register 0x04), { g with address := _ }) := fun g =>
    configRead32_run wires hbus hdevice hfunction (by decide)
  have write : ∀ (g : Host) v, (configWrite32 wires dev.bus dev.device dev.function 0x04 v).run g =
      ((), Host.set { g with address := _ } (dev.register 0x04)
        (wires (dev.register 0x04) (g.regs (dev.register 0x04)) v)) := fun g v =>
    configWrite32_run wires hbus hdevice hfunction (by decide) v
  -- decoding is off while the loop runs
  generalize hoff : Host.set ⟨configAddr dev.bus dev.device dev.function 0x04, h.regs⟩
    (dev.register 0x04) (wires (dev.register 0x04) (h.regs (dev.register 0x04))
      (h.regs (dev.register 0x04) &&& ~~~3#32)) = off
  have hbars : ∀ i < 6, off.regs (dev.register (0x10 + i * 4)) = h.regs (dev.register (0x10 + i * 4)) := by
    intro i _
    rw [← hoff, Host.set_regs_of_ne _ _ (bar_ne_command dev i)]
  obtain ⟨a, ha⟩ := probeLoop_run hdev.addressable hw 6 0 rfl (List.replicate 6 BarSlot.empty) off
  have hslots : slotsFrom (barRegisters off dev w) 0 (List.replicate 6 BarSlot.empty) =
      bars.flatMap Bar.slots := by
    have hlayout : slotsFrom (barRegisters off dev w) ([] : List BarSlot).length
        ([] ++ List.replicate (bars.flatMap Bar.registers).length BarSlot.empty) = _ :=
      slotsFrom_layout hdev.legal (hlies off hbars) (by rw [hdev.fills]; rfl)
    rwa [hdev.fills] at hlayout
  refine ⟨Host.set ⟨configAddr dev.bus dev.device dev.function 0x04, off.regs⟩ (dev.register 0x04)
    (wires (dev.register 0x04) (off.regs (dev.register 0x04)) (h.regs (dev.register 0x04))), ?_, ?_, ?_⟩
  · unfold probeBars
    simp only [run_bind, read, write, hoff, ha, hslots]
    rfl
  · intro i hi
    rw [Host.set_regs_of_ne _ _ (bar_ne_command dev i)]
    exact hbars i hi
  · rw [Host.set_regs_self, ← hoff, Host.set_regs_self]
    exact command_restored hcommand _ _

instance (b : Bar) : Decidable b.Legal :=
  match b with
  | .unimplemented => .isTrue trivial
  | .io w base => inferInstanceAs (Decidable (w &&& 3#32 = 0#32 ∧ base &&& ~~~w = 0#32))
  | .mem32 k base _ _ => inferInstanceAs (Decidable (4 ≤ k ∧ k ≤ 31 ∧ 2 ^ k ∣ base.toNat))
  | .mem64 k base _ => inferInstanceAs (Decidable (4 ≤ k ∧ k ≤ 63 ∧ 2 ^ k ∣ base.toNat))

/-- A display adapter with 16 GiB of memory, a register page and an I/O window. -/
def adapterBars : List Bar :=
  [.mem64 34 0x800000000#64 true, .mem32 12 0xFEB00000#32 false false,
    .io 0xFFFFFFE0#32 0xC000#32, .unimplemented, .unimplemented]

def adapter : PciDevice := ⟨0, 2, 0, 0x1234#16, 0x1111#16, 3#8, 0#8⟩

/-- Writes to the adapter; three bits of the command register can be set. -/
def adapterWires : Wiring := fun r old v =>
  let w := if r.index < 4 then 7#32
    else ((adapterBars.flatMap Bar.registers).getD (r.index - 4) (0#32, 0#32)).2
  (v &&& w) ||| (old &&& ~~~w)

def adapterHost : Host where
  address := 0#32
  regs r := ((adapterBars.flatMap Bar.registers).getD (r.index - 4) (0#32, 0#32)).1

theorem adapter_implements : Implements adapterWires adapterHost adapter adapterBars where
  addressable := ⟨by decide, by decide, by decide⟩
  legal := by decide
  fills := rfl
  holds i x w hi := by
    have hindex : (adapter.register (0x10 + i * 4)).index - 4 = i := by
      simp only [PciDevice.register]
      omega
    have hge : ¬ (adapter.register (0x10 + i * 4)).index < 4 := by
      simp only [PciDevice.register]
      omega
    have hget : (adapterBars.flatMap Bar.registers).getD i (0#32, 0#32) = (x, w) := by
      rw [List.getD_eq_getElem?_getD, hi, Option.getD_some]
    refine ⟨?_, fun old v => ?_⟩
    · change ((adapterBars.flatMap Bar.registers).getD _ (0#32, 0#32)).1 = x
      rw [hindex, hget]
    · simp only [adapterWires, if_neg hge, hindex, hget]
  command := ⟨7#32, fun old v => rfl⟩

/-- The adapter is decoded: 16 GiB at `0x800000000`, 4 KiB at `0xFEB00000`. -/
theorem probe_bars_exact_adapter : Implements adapterWires adapterHost adapter adapterBars ∧
    ∃ h', (probeBars adapterWires adapter).run adapterHost =
      ([⟨⟨0x800000000#64, 0x400000000#64, true, true⟩, true⟩, BarSlot.empty,
        ⟨⟨0xFEB00000#64, 0x1000#64, false, false⟩, true⟩, BarSlot.empty, BarSlot.empty,
        BarSlot.empty], h') ∧
      (∀ i < 6, h'.regs (adapter.register (0x10 + i * 4)) =
        adapterHost.regs (adapter.register (0x10 + i * 4))) ∧
      (h'.regs (adapter.register 0x04)).setWidth 16 =
        (adapterHost.regs (adapter.register 0x04)).setWidth 16 :=
  ⟨adapter_implements, probe_bars_exact adapter_implements⟩

end Coconut.Pci
