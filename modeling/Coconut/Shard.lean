import Coconut.Capability
import Coconut.Elf
import Coconut.Fs
import Coconut.Vmm

/-!
# Shard lifecycle

`shard::create` builds an address space from an ELF image, `handle_sys_mmap` adds
data pages to it, `handle_sys_exit` ends the shard and `destroy` gives its frames
back.  The source writes the descriptor in place while it goes; here the loops carry
the physical memory and the list of allocated frames, and the descriptor is written
where they end.
-/
namespace Coconut
open Paging

/-- `allocated_frames[frame_count] = phys; frame_count += 1`. -/
def pushFrame (frames : List Nat) (phys : Nat) : Kernel (List Nat) :=
  if frames.length < maxShardFrames then .ok (frames ++ [phys]) else .error .indexOutOfBounds

/-- Copy entries 256 to 511 of one PML4 to another. -/
def copyUpperHalf (m : Memory) (supPml4 shardPml4 : Nat) : Memory :=
  fun x => if shardPml4 + 2048 ≤ x ∧ x < shardPml4 + 4096 then m (supPml4 + (x - shardPml4)) else m x

/-- The file-backed part of page `pageIdx` of a segment. -/
def pageBytes (image : Slice) (seg : Segment) (pageIdx : Nat) : Kernel (List UInt8) :=
  let pageStart := pageIdx * 4096
  if pageStart < seg.fileSize then
    let copyLen := min (seg.fileSize - pageStart) 4096
    image.range (seg.fileOffset + pageStart) copyLen
  else .ok []

/-- The page loop of `create`: the `n` pages of a segment from `pageIdx` on. -/
def loadPages (image : Slice) (pml4Phys : Nat) (seg : Segment) (flags : Nat) :
    Nat → Nat → Ram → List Nat → Kernel (Ram × List Nat)
  | 0, _, r, frames => .ok (r, frames)
  | n + 1, pageIdx, r, frames => do
    let (phys, r) ← expect r.allocFrameZeroed .failedToAllocImageFrame
    let frames ← pushFrame frames phys
    let bytes ← pageBytes image seg pageIdx
    let r := { r with mem := r.mem.writeBytes phys bytes }
    let r ← map4k r pml4Phys (seg.vaddr + pageIdx * 4096) phys flags
    loadPages image pml4Phys seg flags n (pageIdx + 1) r frames

/-- What the segment loop of `create` carries. -/
structure Loading where
  ram : Ram
  frames : List Nat
  imageEnd : Nat
  imageDataStart : Nat
  imageDataEnd : Nat

/-- The page-table flags of a segment. -/
def Segment.flags (seg : Segment) : Nat :=
  let flags := if seg.writable then pteUser ||| pteWritable else pteUser
  if seg.executable then flags else flags ||| pteNoExecute

/-- One round of the segment loop of `create`. -/
def loadSegment (image : Slice) (pml4Phys : Nat) (l : Loading) (seg : Segment) :
    Kernel Loading := do
  assertThat (seg.vaddr == l.imageEnd) .segmentsNotContiguous
  assertThat (!(seg.writable && seg.executable)) .segmentWritableAndExecutable
  assertThat (seg.memSize ≤ shardStackVaddr - seg.vaddr) .imageOverlapsStack
  let pages := (seg.memSize + 4095) / 4096
  let segEnd := seg.vaddr + pages * 4096
  if seg.writable then assertThat (l.imageDataStart == 0) .moreThanOneWritableSegment
  let (ram, frames) ← loadPages image pml4Phys seg seg.flags pages 0 l.ram l.frames
  return {
    ram, frames
    imageEnd := segEnd
    imageDataStart := if seg.writable then seg.vaddr else l.imageDataStart
    imageDataEnd := if seg.writable then segEnd else l.imageDataEnd }

/-- The segment loop of `create`. -/
def loadSegments (image : Slice) (pml4Phys : Nat) : List Segment → Loading → Kernel Loading
  | [], l => .ok l
  | seg :: rest, l => do
    let l ← loadSegment image pml4Phys l seg
    loadSegments image pml4Phys rest l

/-- The seven words `setup_initial_kernel_stack` pushes: six zero registers below the
address of `shard_first_entry`. -/
def setupInitialKernelStack (m : Memory) (kstackPhys shardFirstEntry : Nat) : Memory :=
  (m.fill (kstackPhys + 4040) 48 0).writeU64 (kstackPhys + 4088) shardFirstEntry

/-- Address of the first-entry trampoline; nothing depends on its value. -/
def shardFirstEntry : Nat := 0xFFFFFFFF80000000

/-- Create a new shard from an embedded ELF image; returns its id. -/
def create (s : Sys) (image : Slice) (priority : Priority) : Kernel (Sys × Nat) := do
  let id ← expect (firstFrom (fun i =>
    (s.shards.getD i ShardDescriptor.initial).state == .free) maxShards 0) .noFreeShardSlots
  let d ← s.shard id
  -- 1. PML4, with the supervisor's upper half
  let (pml4Phys, r) ← expect s.ram.allocFrameZeroed .failedToAllocPml4
  let r := { r with mem := copyUpperHalf r.mem s.supervisorPml4 pml4Phys }
  -- 2. the image
  let elf ← parse image
  assertThat (elf.entry == shardCodeVaddr) .badEntryPoint
  let l ← loadSegments image pml4Phys elf.segments
    ⟨r, [pml4Phys], shardCodeVaddr, d.imageDataStart, d.imageDataEnd⟩
  -- 3. user stack
  let (stackPhys, r) ← expect l.ram.allocFrameZeroed .failedToAllocStackFrame
  let frames ← pushFrame l.frames stackPhys
  let r ← map4k r pml4Phys shardStackVaddr stackPhys (pteUser ||| pteWritable ||| pteNoExecute)
  -- 4. kernel stack
  let (kstackPhys, r) ← expect r.allocFrameZeroed .failedToAllocKernelStack
  let frames ← pushFrame frames kstackPhys
  let r := { r with mem := setupInitialKernelStack r.mem kstackPhys shardFirstEntry }
  let s := { s with ram := r }
  return (s.modifyShard id fun d => { d with
    state := .ready
    priority
    pml4Phys
    allocatedFrames := frames
    kernelStackPhys := kstackPhys
    savedContext := .firstEntry
    blockedOnChannel := u64Max
    imageEnd := l.imageEnd
    imageDataStart := l.imageDataStart
    imageDataEnd := l.imageDataEnd }, id)

/-! ## Exit and mmap -/

/-- End the current shard: its files are closed, and the switch to `run_loop` is for
good.  Its context is saved where nothing loads it from, so the `unreachable!` behind
the switch has no counterpart here. -/
def handleSysExit (s : Sys) (exitCode : Nat) : Kernel Sys := do
  let id := s.currentShard
  let s := { s with openFiles := releaseShard s.openFiles id }
  let _ ← s.shard id
  let s := s.modifyShard id fun d => { d with exitCode, state := .exited }
  return { s with currentShard := u64Max, mode := .choosing }

/-- The page loop of `handle_sys_mmap`: `n` pages from page `i` on.  `false` if the
allocator ran out; the pages mapped so far stay. -/
def mmapPages (pml4Phys vaStart : Nat) : Nat → Nat → Ram → List Nat → Kernel (Ram × List Nat × Bool)
  | 0, _, r, frames => .ok (r, frames, true)
  | n + 1, i, r, frames =>
    match r.allocFrameZeroed with
    | none => .ok (r, frames, false)
    | some (phys, r) => do
      let frames ← pushFrame frames phys
      let r ← map4k r pml4Phys (vaStart + i * 4096) phys (pteUser ||| pteWritable ||| pteNoExecute)
      mmapPages pml4Phys vaStart n (i + 1) r frames

/-- The checks `handle_sys_mmap` makes before it allocates. -/
def mmapAccepts (d : ShardDescriptor) (vaStart numPages : Nat) : Bool :=
  let vaEnd := (checkedAdd vaStart (numPages * 4096)).getD u64Max
  vaStart &&& 0xFFF == 0 &&
  !(numPages == 0 || 256 < numPages) &&
  !(vaStart < d.imageEnd || shardStackVaddr < vaEnd) &&
  (d.dataStart == 0 ||
    !(vaStart < d.dataEnd && d.dataStart < vaEnd) && (vaEnd == d.dataStart || vaStart == d.dataEnd)) &&
  !(maxShardFrames < d.allocatedFrames.length + numPages)

/-- The data region after mapping `[vaStart, vaEnd)`. -/
def extendData (d : ShardDescriptor) (vaStart vaEnd : Nat) : ShardDescriptor :=
  if d.dataStart == 0 then { d with dataStart := vaStart, dataEnd := vaEnd }
  else { d with
    dataStart := if vaStart < d.dataStart then vaStart else d.dataStart
    dataEnd := if d.dataEnd < vaEnd then vaEnd else d.dataEnd }

/-- SYS_MMAP: map `numPages` zeroed pages at `vaStart`. -/
def handleSysMmap (s : Sys) (vaStart numPages : Nat) : Kernel (Sys × Nat) := do
  let id := s.currentShard
  let d ← s.shard id
  if !mmapAccepts d vaStart numPages then return (s, u64Max)
  let (ram, allocatedFrames, mapped) ←
    mmapPages d.pml4Phys vaStart numPages 0 s.ram d.allocatedFrames
  let s := { s with ram }.modifyShard id fun d => { d with allocatedFrames }
  if !mapped then return (s, u64Max)
  return (s.modifyShard id fun d => extendData d vaStart (vaStart + numPages * 4096), 0)

/-! ## Destroy -/

/-- Zero a frame and free it. -/
def zeroAndFree (r : Ram) (phys : Nat) : Ram :=
  Ram.freeFrame { r with mem := r.mem.fill phys 4096 0 } phys

/-- Visit the `n` entries of `table` from `i` on: `visit` acts on the present ones. -/
def forPresent (visit : Nat → Ram → Ram) (table : Nat) : Nat → Nat → Ram → Ram
  | 0, _, r => r
  | n + 1, i, r =>
    let e := entryAt r.mem table i
    forPresent visit table n (i + 1) (if isPresent e then visit e r else r)

/-- Free the page tables under a page directory. -/
def freePd (pd : Nat) (r : Ram) : Ram :=
  forPresent (fun e r => if hasFlag e ptePageSize then r else zeroAndFree r (physAddr e)) pd 512 0 r

/-- Free the page directories under a PDPT, each after what it points to. -/
def freePdpt (pdpt : Nat) (r : Ram) : Ram :=
  forPresent (fun e r => zeroAndFree (freePd (physAddr e) r) (physAddr e)) pdpt 512 0 r

/-- Walk and free all page-table frames in the lower half (PML4 entries 0 to 255). -/
def freeLowerHalfTables (pml4Phys : Nat) (r : Ram) : Ram :=
  forPresent (fun e r => zeroAndFree (freePdpt (physAddr e) r) (physAddr e)) pml4Phys 256 0 r

/-- The frame loop of `destroy`. -/
def freeFrames (r : Ram) (frames : List Nat) : Ram :=
  frames.foldl (fun r phys => if phys != 0 then zeroAndFree r phys else r) r

/-- Destroy an exited shard: zero and free its frames and its page tables. -/
def destroy (s : Sys) (id : Nat) : Kernel Sys := do
  let d ← s.shard id
  assertThat (d.state == .exited) .shardNotExited
  let s := { s with shards := clearShard s.shards id }
  let r := freeFrames s.ram (d.allocatedFrames.drop 1)
  let r := freeLowerHalfTables d.pml4Phys r
  let r := zeroAndFree r d.pml4Phys
  return { s with ram := r }.modifyShard id fun d =>
    { d with state := .destroyed, pml4Phys := 0, allocatedFrames := [] }

end Coconut
