import Coconut.State

/-!
# ELF64 parsing

`elf::parse` on the images embedded at build time: the header checks, then one pass
over the program headers that keeps the non-empty `PT_LOAD` segments.  A malformed
image stops the supervisor at one of the assertions.
-/
namespace Coconut

@[simp] def maxSegments : Nat := 3
@[simp] def ehdrSize : Nat := 64
@[simp] def phdrSize : Nat := 56

structure Segment where
  vaddr : Nat
  /-- Size in memory; bytes past `fileSize` are zero (.bss). -/
  memSize : Nat
  fileOffset : Nat
  fileSize : Nat
  writable : Bool
  executable : Bool
  deriving DecidableEq, Repr

structure Image where
  entry : Nat
  /-- `segments[..segment_count]`. -/
  segments : List Segment
  deriving DecidableEq, Repr

/-- One program header, with `count` segments before it: `none` for a header that is
skipped. -/
def parseSegment (data : Slice) (ph count : Nat) : Kernel (Option Segment) := do
  let memSize ← data.readLE (ph + 40) 8
  let pType ← data.readLE ph 4
  if pType != 1 || memSize == 0 then return none
  let flags ← data.readLE (ph + 4) 4
  let fileOffset ← data.readLE (ph + 8) 8
  let fileSize ← data.readLE (ph + 32) 8
  assertThat (fileSize ≤ memSize) .elfFileszExceedsMemsz
  assertThat ((checkedAdd fileOffset fileSize).any (· ≤ data.len)) .elfSegmentOutOfBounds
  assertThat (count < maxSegments) .elfTooManySegments
  let vaddr ← data.readLE (ph + 16) 8
  return some {
    vaddr, memSize, fileOffset, fileSize,
    writable := flags &&& 2 != 0,
    executable := flags &&& 1 != 0 }

/-- The loop over the `n` program headers from `ph` on. -/
def parseSegments (data : Slice) : Nat → Nat → List Segment → Kernel (List Segment)
  | 0, _, segments => .ok segments
  | n + 1, ph, segments => do
    let seg ← parseSegment data ph segments.length
    parseSegments data n (ph + phdrSize) (segments ++ seg.toList)

/-- Parse an x86-64 executable. -/
def parse (data : Slice) : Kernel Image := do
  assertThat (ehdrSize ≤ data.len) .elfSmallerThanHeader
  assertThat (data.bytes.readBytes 0 4 == [0x7F, 0x45, 0x4C, 0x46]) .elfBadMagic
  assertThat (data.bytes 4 == 2) .elfNotElf64
  assertThat (data.bytes 5 == 1) .elfNotLittleEndian
  assertThat ((← data.readLE 16 2) == 2) .elfNotExecutable
  assertThat ((← data.readLE 18 2) == 0x3E) .elfNotX8664
  assertThat ((← data.readLE 54 2) == phdrSize) .elfBadPhdrSize
  let entry ← data.readLE 24 8
  let phOffset ← data.readLE 32 8
  let phCount ← data.readLE 56 2
  assertThat ((checkedAdd phOffset (phCount * phdrSize)).any (· ≤ data.len)) .elfPhdrsOutOfBounds
  let segments ← parseSegments data phCount phOffset []
  return { entry, segments }

end Coconut
