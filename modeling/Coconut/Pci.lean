import Mathlib.Algebra.Group.Nat.Defs

/-!
# PCI configuration space

Configuration mechanism 1: a function's register is selected by the address written to
port `0xCF8` and then read or written at port `0xCFC`.  The host keeps the last address
and the registers of every function.  What a register holds after a write depends on the
device: some of its bits are wired, and some react to what is written.  `Wiring` says so
for every register, as a function of what it held and what is written.
-/
namespace Coconut.Pci

@[simp] def configAddress : Nat := 0xCF8
@[simp] def configData : Nat := 0xCFC

/-- One of the 64 configuration registers of a function. -/
structure Register where
  bus : Nat
  device : Nat
  function : Nat
  index : Nat
  deriving DecidableEq, Repr

/-- A function that `init` has found. -/
structure PciDevice where
  bus : Nat
  device : Nat
  function : Nat
  vendorId : BitVec 16
  deviceId : BitVec 16
  classCode : BitVec 8
  subclass : BitVec 8
  deriving DecidableEq, Repr

/-- The register of the device at `offset`. -/
def PciDevice.register (dev : PciDevice) (offset : Nat) : Register :=
  ⟨dev.bus, dev.device, dev.function, offset / 4⟩

/-- The address latch and the registers. -/
structure Host where
  address : BitVec 32
  regs : Register → BitVec 32

/-- What a register holds after a write, given what it held and what is written. -/
abbrev Wiring := Register → BitVec 32 → BitVec 32 → BitVec 32

/-- The register an address selects. -/
def Register.select (address : BitVec 32) : Register where
  bus := address.toNat / 2 ^ 16 % 2 ^ 8
  device := address.toNat / 2 ^ 11 % 2 ^ 5
  function := address.toNat / 2 ^ 8 % 2 ^ 3
  index := address.toNat / 2 ^ 2 % 2 ^ 6

/-- Store `v` in the register `r`. -/
def Host.set (h : Host) (r : Register) (v : BitVec 32) : Host :=
  { h with regs := fun x => if x = r then v else h.regs x }

/-- `out dx, eax`. -/
def outl (wires : Wiring) (port : Nat) (value : BitVec 32) : StateM Host Unit :=
  modify fun h =>
    if port = configAddress then { h with address := value }
    else if port = configData ∧ h.address.msb = true then
      let r := Register.select h.address
      h.set r (wires r (h.regs r) value)
    else h

/-- `in eax, dx`; a read that nothing answers returns all ones. -/
def inl (port : Nat) : StateM Host (BitVec 32) := do
  let h ← get
  return if port = configData ∧ h.address.msb = true then h.regs (Register.select h.address)
    else BitVec.allOnes 32

/-- Build a PCI Configuration Address register value. -/
def configAddr (bus device function offset : Nat) : BitVec 32 :=
  BitVec.ofNat 32 (0x80000000 ||| bus <<< 16 ||| device <<< 11 ||| function <<< 8 |||
    (offset &&& 0xFC))

/-- Read a 32-bit value from PCI config space. -/
def configRead32 (wires : Wiring) (bus device function offset : Nat) : StateM Host (BitVec 32) := do
  outl wires configAddress (configAddr bus device function offset)
  inl configData

/-- Write a 32-bit value to PCI config space. -/
def configWrite32 (wires : Wiring) (bus device function offset : Nat) (value : BitVec 32) :
    StateM Host Unit := do
  outl wires configAddress (configAddr bus device function offset)
  outl wires configData value

/-! ## What an access does -/

variable {bus device function offset : Nat}

theorem configAddr_toNat (hbus : bus < 256) (hdevice : device < 32) (hfunction : function < 8)
    (hoffset : offset < 256) : (configAddr bus device function offset).toNat =
      2 ^ 31 + bus * 2 ^ 16 + device * 2 ^ 11 + function * 2 ^ 8 + offset / 4 * 4 := by
  have hlow : offset &&& 0xFC = offset / 4 * 4 := by
    have hcases : ∀ o < 256, o &&& 0xFC = o / 4 * 4 := by decide +kernel
    exact hcases offset hoffset
  -- the fields do not overlap, so each `|||` is a sum
  have hfun : function <<< 8 ||| offset / 4 * 4 = function <<< 8 + offset / 4 * 4 :=
    (Nat.shiftLeft_add_eq_or_of_lt (by omega) _).symm
  have hdev : device <<< 11 ||| (function <<< 8 + offset / 4 * 4) =
      device <<< 11 + (function <<< 8 + offset / 4 * 4) :=
    (Nat.shiftLeft_add_eq_or_of_lt (by rw [Nat.shiftLeft_eq]; omega) _).symm
  have hbus' : bus <<< 16 ||| (device <<< 11 + (function <<< 8 + offset / 4 * 4)) =
      bus <<< 16 + (device <<< 11 + (function <<< 8 + offset / 4 * 4)) :=
    (Nat.shiftLeft_add_eq_or_of_lt (by rw [Nat.shiftLeft_eq, Nat.shiftLeft_eq]; omega) _).symm
  have htop : 0x80000000 ||| (bus <<< 16 + (device <<< 11 + (function <<< 8 + offset / 4 * 4))) =
      1 <<< 31 + (bus <<< 16 + (device <<< 11 + (function <<< 8 + offset / 4 * 4))) :=
    (Nat.shiftLeft_add_eq_or_of_lt (i := 31)
      (by rw [Nat.shiftLeft_eq, Nat.shiftLeft_eq, Nat.shiftLeft_eq]; omega) 1).symm
  rw [configAddr, hlow, Nat.or_assoc, Nat.or_assoc, Nat.or_assoc, hfun, hdev, hbus', htop]
  simp only [Nat.shiftLeft_eq, BitVec.toNat_ofNat]
  omega

theorem select_configAddr (hbus : bus < 256) (hdevice : device < 32) (hfunction : function < 8)
    (hoffset : offset < 256) : Register.select (configAddr bus device function offset) =
      ⟨bus, device, function, offset / 4⟩ := by
  unfold Register.select
  rw [configAddr_toNat hbus hdevice hfunction hoffset]
  congr 1 <;> omega

theorem msb_configAddr (hbus : bus < 256) (hdevice : device < 32) (hfunction : function < 8)
    (hoffset : offset < 256) : (configAddr bus device function offset).msb = true := by
  rw [BitVec.msb_eq_decide, configAddr_toNat hbus hdevice hfunction hoffset]
  exact decide_eq_true (by omega)

variable (wires : Wiring) {h : Host}

theorem outl_data (hmsb : h.address.msb = true) (value : BitVec 32) :
    (outl wires configData value).run h =
      ((), h.set (Register.select h.address)
        (wires (Register.select h.address) (h.regs (Register.select h.address)) value)) := by
  change ((), if configData = configData ∧ h.address.msb = true then _ else _) = _
  rw [if_pos ⟨rfl, hmsb⟩]

theorem inl_data (hmsb : h.address.msb = true) :
    (inl configData).run h = (h.regs (Register.select h.address), h) := by
  change (if configData = configData ∧ h.address.msb = true then _ else _, _) = _
  rw [if_pos ⟨rfl, hmsb⟩]

theorem configRead32_run (hbus : bus < 256) (hdevice : device < 32) (hfunction : function < 8)
    (hoffset : offset < 256) : (configRead32 wires bus device function offset).run h =
      (h.regs ⟨bus, device, function, offset / 4⟩,
        { h with address := configAddr bus device function offset }) := by
  have hread := inl_data (h := { h with address := configAddr bus device function offset })
    (msb_configAddr hbus hdevice hfunction hoffset)
  rwa [select_configAddr hbus hdevice hfunction hoffset] at hread

theorem configWrite32_run (hbus : bus < 256) (hdevice : device < 32) (hfunction : function < 8)
    (hoffset : offset < 256) (value : BitVec 32) :
    (configWrite32 wires bus device function offset value).run h =
      ((), Host.set { h with address := configAddr bus device function offset }
        ⟨bus, device, function, offset / 4⟩
        (wires ⟨bus, device, function, offset / 4⟩ (h.regs ⟨bus, device, function, offset / 4⟩)
          value)) := by
  have hwrite := outl_data wires
    (h := { h with address := configAddr bus device function offset })
    (msb_configAddr hbus hdevice hfunction hoffset) value
  rwa [select_configAddr hbus hdevice hfunction hoffset] at hwrite

theorem Host.set_regs_self (h : Host) (r : Register) (v : BitVec 32) : (h.set r v).regs r = v :=
  if_pos rfl

theorem Host.set_regs_of_ne (h : Host) {r x : Register} (v : BitVec 32) (hne : x ≠ r) :
    (h.set r v).regs x = h.regs x := if_neg hne

theorem Host.set_restore (h : Host) (r : Register) (v : BitVec 32) :
    (h.set r v).set r (h.regs r) = h := by
  have hregs : ((h.set r v).set r (h.regs r)).regs = h.regs := by
    funext x
    by_cases hx : x = r
    · rw [hx, Host.set_regs_self]
    · rw [Host.set_regs_of_ne _ _ hx, Host.set_regs_of_ne _ _ hx]
  exact congrArg (Host.mk h.address) hregs

end Coconut.Pci
