import Coconut.Frame
import Coconut.Paging

/-!
# Virtual memory

`map_4k`, `ensure_table` and `unmap_4k` on the page tables kept in physical memory, and the
accesses the supervisor makes through the MMU: a syscall runs with the caller's
page tables loaded, so a user pointer is followed by the hardware walk of those
tables, and a pointer that leads nowhere is a page fault in kernel mode.

The direct map makes all of physical memory reachable by the supervisor;
`phys_to_virt` is therefore the identity here.
-/
namespace Coconut
open Paging

/-- `table.entries[index] = e`. -/
def Ram.setEntry (r : Ram) (table index e : Nat) : Ram :=
  { r with mem := r.mem.writeU64 (table + 8 * index) e }

/-- Ensure a next-level table exists at entry `index` of `table`, allocating if needed. -/
def ensureTable (r : Ram) (table index parentFlags : Nat) : Kernel (Nat × Ram) :=
  let entry := entryAt r.mem table index
  if isPresent entry then .ok (physAddr entry, r)
  else do
    let (newPhys, r) ← expect r.allocFrameZeroed .outOfFramesForPageTable
    return (newPhys, r.setEntry table index (mkEntry newPhys (parentFlags ||| ptePresent)))

/-- Map a 4 KiB page: `virt` to `phys` with the given flags. -/
def map4k (r : Ram) (pml4Phys virt phys flags : Nat) : Kernel Ram := do
  -- W^X: no page may be both writable and executable
  assertThat (!hasFlag flags pteWritable || hasFlag flags pteNoExecute) .writableAndExecutable
  let parentFlags := ptePresent ||| pteWritable ||| pteUser
  let (pdptPhys, r) ← ensureTable r pml4Phys (pml4Index virt) parentFlags
  let (pdPhys, r) ← ensureTable r pdptPhys (pdptIndex virt) parentFlags
  let (ptPhys, r) ← ensureTable r pdPhys (pdIndex virt) parentFlags
  assertThat (!isPresent (entryAt r.mem ptPhys (ptIndex virt))) .alreadyMapped
  return r.setEntry ptPhys (ptIndex virt) (mkEntry phys (flags ||| ptePresent))

/-- Unmap a 4 KiB page.  Returns the physical address that was mapped, if any. -/
def unmap4k (r : Ram) (pml4Phys virt : Nat) : Option Nat × Ram :=
  let pml4e := entryAt r.mem pml4Phys (pml4Index virt)
  if !isPresent pml4e then (none, r)
  else
    let pdpte := entryAt r.mem (physAddr pml4e) (pdptIndex virt)
    if !isPresent pdpte then (none, r)
    else
      let pde := entryAt r.mem (physAddr pdpte) (pdIndex virt)
      if !isPresent pde then (none, r)
      else
        let pte := entryAt r.mem (physAddr pde) (ptIndex virt)
        if !isPresent pte then (none, r)
        else (some (physAddr pte), r.setEntry (physAddr pde) (ptIndex virt) 0)

/-! ## Accesses through the MMU -/

/-- Load a byte from a virtual address in kernel mode. -/
def loadByte (m : Memory) (pml4 virt : Nat) : Kernel UInt8 :=
  match walk m pml4 virt with
  | some leaf => .ok (m leaf.phys)
  | none => .error .kernelPageFault

/-- Store a byte to a virtual address in kernel mode; write protection applies to
the supervisor too. -/
def storeByte (m : Memory) (pml4 virt : Nat) (b : UInt8) : Kernel Memory :=
  match walk m pml4 virt with
  | some leaf =>
    if leaf.writable then .ok fun x => if x = leaf.phys then b else m x
    else .error .kernelPageFault
  | none => .error .kernelPageFault

/-- Read `n` bytes from a user buffer. -/
def copyIn (m : Memory) (pml4 : Nat) : Nat → Nat → Kernel (List UInt8)
  | _, 0 => .ok []
  | virt, n + 1 => do
    let b ← loadByte m pml4 virt
    let bs ← copyIn m pml4 (virt + 1) n
    return b :: bs

/-- Write bytes to a user buffer. -/
def copyOut (m : Memory) (pml4 : Nat) : Nat → List UInt8 → Kernel Memory
  | _, [] => .ok m
  | virt, b :: bs => do
    let m ← storeByte m pml4 virt b
    copyOut m pml4 (virt + 1) bs

end Coconut
