import Coconut.ByteMemory
import Mathlib.Data.Nat.Bitwise

/-!
# x86-64 four-level paging

Page-table entries are 64-bit words: flag bits at both ends and a frame address
in bits 12 to 51.  A table is a frame of 512 entries.  `walk` is what the MMU
computes from a root table and a virtual address: the frame reached, and the
conjunction of the permission bits met on the way.

Levels are numbered as the hardware does: 4 is the root table (PML4), 1 the last
table, and 0 stands for the page itself.  At level `k` the nine index bits of a
virtual address start at bit `12 + 9 (k - 1)`, so that the tables met on the way
to `virt` are named by `virt / span k`, the bits above.
-/
namespace Paging

/-! ## Entries -/

@[simp] def ptePresent : Nat := 0x1
@[simp] def pteWritable : Nat := 0x2
@[simp] def pteUser : Nat := 0x4
@[simp] def pteWriteThrough : Nat := 0x8
@[simp] def pteCacheDisable : Nat := 0x10
@[simp] def ptePageSize : Nat := 0x80
@[simp] def pteNoExecute : Nat := 0x8000000000000000

/-- Bits 12 to 51: the frame address. -/
@[simp] def addrMask : Nat := 0x000FFFFFFFFFF000

/-- The frame an entry points to. -/
def physAddr (e : Nat) : Nat := e &&& addrMask

/-- The entry that points to `phys` with the given flags. -/
def mkEntry (phys flags : Nat) : Nat := (phys &&& addrMask) ||| flags

/-- Bit `b` (a mask of one bit) is set in the entry. -/
def hasFlag (e b : Nat) : Bool := (e &&& b) != 0

/-- The entry is present. -/
def isPresent (e : Nat) : Bool := hasFlag e ptePresent

/-- Flags that keep off the address bits and fit a word. -/
def FlagsOk (flags : Nat) : Prop := flags &&& addrMask = 0 ∧ flags < 2 ^ 64

instance (flags : Nat) : Decidable (FlagsOk flags) := inferInstanceAs (Decidable (_ ∧ _))

theorem physAddr_of_aligned {p : Nat} (h1 : p % 4096 = 0) (h2 : p < 2 ^ 52) : physAddr p = p := by
  obtain ⟨q, rfl⟩ : ∃ q, p = q <<< 12 := ⟨p / 4096, by rw [Nat.shiftLeft_eq]; omega⟩
  have hq : q < 2 ^ 40 := by rw [Nat.shiftLeft_eq] at h2; omega
  have hmask : addrMask = (2 ^ 40 - 1) <<< 12 := rfl
  rw [physAddr, hmask, ← Nat.shiftLeft_and_distrib, Nat.and_two_pow_sub_one_eq_mod,
    Nat.mod_eq_of_lt hq]

theorem physAddr_eq (e : Nat) : physAddr e = e / 4096 % 2 ^ 40 * 4096 := by
  have hmask : addrMask = (2 ^ 40 - 1) <<< 12 := rfl
  apply Nat.eq_of_testBit_eq
  intro i
  rw [physAddr, hmask, Nat.testBit_and, Nat.testBit_shiftLeft, Nat.testBit_two_pow_sub_one,
    show (4096 : Nat) = 2 ^ 12 from rfl, Nat.testBit_mul_two_pow, Nat.testBit_mod_two_pow,
    Nat.testBit_div_two_pow]
  by_cases h : 12 ≤ i
  · simp only [ge_iff_le, h, decide_true, Bool.true_and, Nat.sub_add_cancel]
    rw [Bool.and_comm]
  · simp [h]

theorem physAddr_mod (e : Nat) : physAddr e % 4096 = 0 := by
  rw [physAddr_eq]
  exact Nat.mul_mod_left _ _

theorem physAddr_lt (e : Nat) : physAddr e < 2 ^ 52 := by
  rw [physAddr_eq]
  have := Nat.mod_lt (e / 4096) (show 0 < 2 ^ 40 by decide)
  omega

theorem mkEntry_lt {p flags : Nat} (hf : FlagsOk flags) : mkEntry p flags < 2 ^ 64 :=
  Nat.or_lt_two_pow (Nat.lt_of_le_of_lt Nat.and_le_right (by decide)) hf.2

theorem physAddr_mkEntry {p flags : Nat} (hf : FlagsOk flags) :
    physAddr (mkEntry p flags) = physAddr p := by
  rw [physAddr, mkEntry, Nat.and_or_distrib_right, hf.1, Nat.or_zero, Nat.and_assoc,
    Nat.and_self, physAddr]

/-- A flag bit of a made entry is the bit of its flags. -/
theorem hasFlag_mkEntry {p flags b : Nat} (hb : addrMask &&& b = 0) :
    hasFlag (mkEntry p flags) b = hasFlag flags b := by
  rw [hasFlag, mkEntry, Nat.and_or_distrib_right, Nat.and_assoc, hb, Nat.and_zero, Nat.zero_or,
    hasFlag]

/-- Adding a flag does not change the others. -/
theorem hasFlag_or {flags c b : Nat} (h : c &&& b = 0) :
    hasFlag (flags ||| c) b = hasFlag flags b := by
  rw [hasFlag, Nat.and_or_distrib_right, h, Nat.or_zero, hasFlag]

theorem isPresent_or (flags : Nat) : isPresent (flags ||| ptePresent) = true := by
  have h : 1 ≤ (flags ||| 1) &&& 1 := by
    rw [Nat.and_or_distrib_right, Nat.and_self]
    exact Nat.right_le_or
  simp only [isPresent, hasFlag, ptePresent, bne_iff_ne, ne_eq]
  omega

theorem isPresent_mkEntry {p flags : Nat} (h : isPresent flags = true) :
    isPresent (mkEntry p flags) = true := by
  rw [isPresent, hasFlag_mkEntry (by decide)]
  exact h

@[simp] theorem isPresent_zero : isPresent 0 = false := rfl

/-! ## Indices -/

/-- The bytes one entry of a level-`k + 1` table spans: what a level-`k` node covers. -/
@[simp] def span : Nat → Nat
  | 0 => 0x1000
  | 1 => 0x200000
  | 2 => 0x40000000
  | 3 => 0x8000000000
  | _ => 0x1000000000000

/-- The nine index bits for the level-`k + 1` table. -/
def tableIndex (k virt : Nat) : Nat := virt / span k % 512

/-- Bits 47:39. -/
def pml4Index (virt : Nat) : Nat := tableIndex 3 virt
/-- Bits 38:30. -/
def pdptIndex (virt : Nat) : Nat := tableIndex 2 virt
/-- Bits 29:21. -/
def pdIndex (virt : Nat) : Nat := tableIndex 1 virt
/-- Bits 20:12. -/
def ptIndex (virt : Nat) : Nat := tableIndex 0 virt

theorem tableIndex_lt (k virt : Nat) : tableIndex k virt < 512 := Nat.mod_lt _ (by decide)

/-- The path to the node below is the path to the table and the index in it. -/
theorem div_span (k virt : Nat) (hk : k < 4) :
    virt / span k = virt / span (k + 1) * 512 + tableIndex k virt := by
  unfold tableIndex
  match k, hk with
  | 0, _ => simp only [span]; omega
  | 1, _ => simp only [span]; omega
  | 2, _ => simp only [span]; omega
  | 3, _ => simp only [span]; omega

/-- Addresses of one page share every index. -/
theorem div_span_of_page {va virt : Nat} (h : va / 4096 = virt / 4096) (k : Nat) :
    va / span k = virt / span k := by
  match k with
  | 0 => exact h
  | 1 => simp only [span]; omega
  | 2 => simp only [span]; omega
  | 3 => simp only [span]; omega
  | _ + 4 => simp only [span]; omega

theorem tableIndex_of_page {va virt : Nat} (h : va / 4096 = virt / 4096) (k : Nat) :
    tableIndex k va = tableIndex k virt := by
  rw [tableIndex, tableIndex, div_span_of_page h k]

/-! ## The walk -/

/-- Entry `i` of the table at `table`. -/
def entryAt (m : Memory) (table i : Nat) : Nat := m.readU64 (table + 8 * i)

/-- What a virtual address leads to: the byte's physical address, and the
permissions all levels grant. -/
structure Leaf where
  phys : Nat
  user : Bool
  writable : Bool
  executable : Bool
  deriving DecidableEq, Repr

/-- Permissions collected on the way down. -/
structure Perms where
  user : Bool
  writable : Bool
  executable : Bool
  deriving DecidableEq, Repr

/-- Every permission: where the walk starts. -/
def Perms.full : Perms := ⟨true, true, true⟩

/-- The permissions after passing entry `e`. -/
def Perms.through (a : Perms) (e : Nat) : Perms :=
  ⟨a.user && hasFlag e pteUser, a.writable && hasFlag e pteWritable,
    a.executable && !hasFlag e pteNoExecute⟩

/-- The walk from a level-`k` table.  An entry of a level-2 or level-3 table with
the page-size bit ends the walk in a large page. -/
def walkFrom (m : Memory) : Nat → Nat → Nat → Perms → Option Leaf
  | 0, frame, virt, a => some ⟨frame + virt % 4096, a.user, a.writable, a.executable⟩
  | k + 1, table, virt, a =>
    let e := entryAt m table (tableIndex k virt)
    if !isPresent e then none
    else if hasFlag e ptePageSize && k != 0 then
      if k == 3 then none
      else
        let a := a.through e
        some ⟨physAddr e / span k * span k + virt % span k, a.user, a.writable, a.executable⟩
    else walkFrom m k (physAddr e) virt (a.through e)

/-- Sign-extended 48-bit addresses; the others fault before any walk. -/
def canonical (virt : Nat) : Bool := virt < 0x800000000000 || 0xFFFF800000000000 ≤ virt

/-- What the MMU finds for `virt` with the root table `pml4`. -/
def walk (m : Memory) (pml4 virt : Nat) : Option Leaf :=
  if canonical virt then walkFrom m 4 pml4 virt Perms.full else none

/-- An entry has room for 52 bits of a physical address. -/
theorem walkFrom_phys_lt {m : Memory} {k : Nat} : ∀ {table virt : Nat} {a : Perms} {leaf : Leaf},
    k ≤ 4 → (k = 0 → table % 4096 = 0 ∧ table < 2 ^ 52) →
    walkFrom m k table virt a = some leaf → leaf.phys < 2 ^ 52 := by
  induction k with
  | zero =>
    intro table virt a leaf _ hframe h
    obtain rfl := Option.some.inj h
    obtain ⟨haligned, hlt⟩ := hframe rfl
    change table + virt % 4096 < 2 ^ 52
    omega
  | succ k ih =>
    intro table virt a leaf hk _ h
    rw [walkFrom] at h
    generalize entryAt m table (tableIndex k virt) = e at h
    have hlt := physAddr_lt e
    simp only at h
    split at h
    · cases h
    split at h
    · split at h
      · cases h
      · rename_i hlarge h3
        obtain rfl := Option.some.inj h
        obtain rfl | rfl | rfl : k = 0 ∨ k = 1 ∨ k = 2 := by
          simp only [beq_iff_eq] at h3
          omega
        · simp only [span]
          omega
        · simp only [span]
          omega
        · simp only [span]
          omega
    · exact ih (Nat.le_of_succ_le hk) (fun _ => ⟨physAddr_mod e, hlt⟩) h

theorem walk_phys_lt {m : Memory} {pml4 virt : Nat} {leaf : Leaf}
    (h : walk m pml4 virt = some leaf) : leaf.phys < 2 ^ 52 := by
  unfold walk at h
  split at h
  · exact walkFrom_phys_lt (Nat.le_refl 4) nofun h
  · cases h

end Paging
