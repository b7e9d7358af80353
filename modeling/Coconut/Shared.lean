import Mathlib.Tactic.Common
import Mathlib.Algebra.Group.Nat.Defs

/-!
# Constants, machine words and panics

The syscall numbers, pledge bits, capability types and rights of
`coconut-shared`, the 64-bit arithmetic the supervisor is compiled with (release
build: `+` wraps), and the ways the supervisor stops (`Panic`).

Machine words are natural numbers.  An addition that the source performs on
`u64` and that could leave the range is written `wrappingAdd` or `checkedAdd`;
conversions to a narrower type are written as the remainder they compute.
-/
namespace Coconut

/-- `u64::MAX`, the error value of every syscall; also `usize::MAX`. -/
@[simp] def u64Max : Nat := 0xFFFFFFFFFFFFFFFF

/-- `a.wrapping_add(b)`, and `a + b` in a release build. -/
def wrappingAdd (a b : Nat) : Nat := (a + b) % 0x10000000000000000

/-- `a.checked_add(b)`. -/
def checkedAdd (a b : Nat) : Option Nat :=
  if a + b < 0x10000000000000000 then some (a + b) else none

theorem wrappingAdd_eq {a b : Nat} (h : a + b < 2 ^ 64) : wrappingAdd a b = a + b :=
  Nat.mod_eq_of_lt h

theorem checkedAdd_eq_some {a b c : Nat} (h : checkedAdd a b = some c) :
    c = a + b ∧ a + b < 2 ^ 64 := by
  unfold checkedAdd at h
  split at h
  · exact ⟨(Option.some.inj h).symm, ‹_›⟩
  · cases h

/-- Clearing the low `k` bits of a `w`-bit word rounds it down to a multiple of `2 ^ k`. -/
theorem and_not_low {a w k : Nat} (ha : a < 2 ^ w) (hk : k ≤ w) :
    a &&& ((2 ^ w - 1) ^^^ (2 ^ k - 1)) = a / 2 ^ k * 2 ^ k := by
  refine Nat.eq_of_testBit_eq fun i => ?_
  rw [Nat.testBit_and, Nat.testBit_xor, Nat.testBit_two_pow_sub_one, Nat.testBit_two_pow_sub_one,
    Nat.testBit_mul_two_pow, Nat.testBit_div_two_pow]
  by_cases hik : i < k
  · simp [hik, Nat.lt_of_lt_of_le hik hk, Nat.not_le_of_lt hik]
  · have hge : k ≤ i := Nat.le_of_not_lt hik
    rw [Nat.sub_add_cancel hge]
    by_cases hiw : i < w
    · simp [hik, hiw, hge]
    · have hz : a.testBit i = false :=
        Nat.testBit_lt_two_pow (Nat.lt_of_lt_of_le ha (Nat.pow_le_pow_right (by decide) (by omega)))
      simp [hz]

/-! ## Syscall numbers -/

@[simp] def sysExit : Nat := 0
@[simp] def sysSerialWrite : Nat := 1
@[simp] def sysCapGrant : Nat := 11
@[simp] def sysCapRevoke : Nat := 12
@[simp] def sysCapRestrict : Nat := 13
@[simp] def sysCapInspect : Nat := 14
@[simp] def sysChannelSend : Nat := 21
@[simp] def sysChannelRecv : Nat := 22
@[simp] def sysFsOpen : Nat := 30
@[simp] def sysFsRead : Nat := 31
@[simp] def sysFsStat : Nat := 32
@[simp] def sysFsClose : Nat := 33
@[simp] def sysGpuDma : Nat := 40
@[simp] def sysGpuPledge : Nat := 41
@[simp] def sysGpuUnveil : Nat := 42
@[simp] def sysMmap : Nat := 43
@[simp] def sysYield : Nat := 62
@[simp] def sysPerfCounter : Nat := 71

/-! ## Pledge bits -/

@[simp] def pledgeSerial : Nat := 1
@[simp] def pledgeChannel : Nat := 2
@[simp] def pledgeGpuDma : Nat := 4
@[simp] def pledgePerf : Nat := 8

/-! ## Capability types and rights -/

@[simp] def capChannel : Nat := 1
@[simp] def capShard : Nat := 2
@[simp] def capMemory : Nat := 3
@[simp] def capGpuDma : Nat := 4

@[simp] def rightGpuDmaWrite : BitVec 16 := 1#16
@[simp] def rightChannelSend : BitVec 16 := 1#16
@[simp] def rightChannelRecv : BitVec 16 := 2#16
@[simp] def rightChannelGrant : BitVec 16 := 4#16

/-! ## Panics -/

/-- The ways the supervisor stops: a failed assertion, a failed `expect`, an index
out of range, code marked unreachable, a page fault taken in kernel mode, or an
exception that `fault_handler_rust` reports before halting. -/
inductive Panic where
  | indexOutOfBounds
  | divideByZero
  | kernelPageFault
  | unhandledException
  | outOfFramesForPageTable
  | writableAndExecutable
  | alreadyMapped
  | elfSmallerThanHeader
  | elfBadMagic
  | elfNotElf64
  | elfNotLittleEndian
  | elfNotExecutable
  | elfNotX8664
  | elfBadPhdrSize
  | elfPhdrsOutOfBounds
  | elfFileszExceedsMemsz
  | elfSegmentOutOfBounds
  | elfTooManySegments
  | ext2BadMagic
  | noFreeShardSlots
  | failedToAllocPml4
  | badEntryPoint
  | segmentsNotContiguous
  | segmentWritableAndExecutable
  | imageOverlapsStack
  | moreThanOneWritableSegment
  | failedToAllocImageFrame
  | failedToAllocStackFrame
  | failedToAllocKernelStack
  | gpuConfigFrame
  | pipelineConfigFrame
  | shardFrameTableFull
  | channelIdOutOfRange
  | grantShardOutOfRange
  | shardNotExited
  | deadlock
  deriving DecidableEq, Repr

/-- The text each stop prints. -/
def Panic.message : Panic → String
  | .indexOutOfBounds => "index out of bounds"
  | .divideByZero => "attempt to divide by zero"
  | .kernelPageFault => "EXCEPTION: #14 Page Fault"
  | .unhandledException => "EXCEPTION"
  | .outOfFramesForPageTable => "VMM: out of frames for page table"
  | .writableAndExecutable => "W^X: page cannot be both writable and executable"
  | .alreadyMapped => "map_4k: virt already mapped"
  | .elfSmallerThanHeader => "ELF: image smaller than header"
  | .elfBadMagic => "ELF: bad magic"
  | .elfNotElf64 => "ELF: not ELF64"
  | .elfNotLittleEndian => "ELF: not little-endian"
  | .elfNotExecutable => "ELF: not an executable"
  | .elfNotX8664 => "ELF: not x86-64"
  | .elfBadPhdrSize => "ELF: bad phdr size"
  | .elfPhdrsOutOfBounds => "ELF: phdrs out of bounds"
  | .elfFileszExceedsMemsz => "ELF: filesz > memsz"
  | .elfSegmentOutOfBounds => "ELF: segment out of bounds"
  | .elfTooManySegments => "ELF: too many PT_LOAD segments"
  | .ext2BadMagic => "ext2: bad superblock magic"
  | .noFreeShardSlots => "no free shard slots"
  | .failedToAllocPml4 => "shard: failed to alloc PML4"
  | .badEntryPoint => "shard: entry point must be SHARD_CODE_VADDR"
  | .segmentsNotContiguous => "shard: segments not contiguous and page-aligned"
  | .segmentWritableAndExecutable => "shard: segment is both W and X"
  | .imageOverlapsStack => "shard: image overlaps stack"
  | .moreThanOneWritableSegment => "shard: more than one writable segment"
  | .failedToAllocImageFrame => "shard: failed to alloc image frame"
  | .failedToAllocStackFrame => "shard: failed to alloc stack frame"
  | .failedToAllocKernelStack => "shard: failed to alloc kernel stack"
  | .gpuConfigFrame => "GPU config frame"
  | .pipelineConfigFrame => "pipeline config frame"
  | .shardFrameTableFull => "shard frame table full"
  | .channelIdOutOfRange => "channel_id out of range"
  | .grantShardOutOfRange => "assertion failed: shard_id < MAX_SHARDS"
  | .shardNotExited => "shard not in exited state"
  | .deadlock => "deadlock: all shards blocked, none ready"

/-- What kernel code computes: a value, or the panic that stopped it. -/
abbrev Kernel (α : Type) := Except Panic α

/-- `assert!(cond, …)`. -/
def assertThat (cond : Bool) (p : Panic) : Kernel Unit := if cond then .ok () else .error p

/-- `opt.expect(…)`. -/
def expect {α : Type} (o : Option α) (p : Panic) : Kernel α :=
  match o with
  | some a => .ok a
  | none => .error p

namespace Kernel
variable {α β : Type}

/-- The panic that stopped a computation. -/
def panic (x : Kernel α) : Option Panic :=
  match x with
  | .ok _ => none
  | .error p => some p

theorem eq_error_of_panic {x : Kernel α} {p : Panic} (h : x.panic = some p) : x = .error p := by
  cases x with
  | ok a => cases h
  | error q => exact congrArg Except.error (Option.some.inj h)

theorem ok_bind (a : α) (f : α → Kernel β) : ((Except.ok a : Kernel α) >>= f) = f a := rfl

/-- Peeling one step off a computation that returned. -/
theorem bind_eq_ok {x : Kernel α} {f : α → Kernel β} {b : β} (h : (x >>= f) = .ok b) :
    ∃ a, x = .ok a ∧ f a = .ok b := by
  cases x with
  | error e => cases h
  | ok a => exact ⟨a, rfl, h⟩

theorem map_eq_ok {x : Kernel α} {f : α → β} {b : β} (h : x.map f = .ok b) :
    ∃ a, x = .ok a ∧ f a = b := by
  cases x with
  | error e => cases h
  | ok a => exact ⟨a, rfl, Except.ok.inj h⟩

theorem map_eq_error {x : Kernel α} {f : α → β} {p : Panic} (h : x.map f = .error p) :
    x = .error p := by
  cases x with
  | error e => cases h; rfl
  | ok a => cases h

theorem bind_eq_error {x : Kernel α} {f : α → Kernel β} {p : Panic} (h : (x >>= f) = .error p) :
    x = .error p ∨ ∃ a, x = .ok a ∧ f a = .error p := by
  cases x with
  | error e => exact Or.inl (by cases h; rfl)
  | ok a => exact Or.inr ⟨a, rfl, h⟩

theorem assert_eq_ok {c : Bool} {p : Panic} {u : Unit} (h : assertThat c p = .ok u) : c = true := by
  unfold assertThat at h
  split at h
  · assumption
  · cases h

theorem assert_eq_error {c : Bool} {p q : Panic} (h : assertThat c p = .error q) :
    c = false ∧ q = p := by
  unfold assertThat at h
  split at h
  · cases h
  · exact ⟨by simpa using ‹¬ c = true›, (Except.error.inj h).symm⟩

theorem expect_eq_ok {o : Option α} {p : Panic} {a : α} (h : expect o p = .ok a) : o = some a := by
  cases o with
  | none => cases h
  | some b => exact congrArg some (Except.ok.inj h)

theorem expect_eq_error {o : Option α} {p q : Panic} (h : expect o p = .error q) :
    o = none ∧ q = p := by
  cases o with
  | none => exact ⟨rfl, (Except.error.inj h).symm⟩
  | some b => cases h

end Kernel
end Coconut
