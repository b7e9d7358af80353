import Coconut.PageMap

/-!
# The supervisor's page tables

The boot trampoline builds seven tables at 4 MiB: a root table, and a pair of tables each for
the identity map, for the direct map of physical memory and for the kernel.  All three maps
use pages of 2 MiB.  Once the supervisor runs in the upper half the entry of the identity map
is cleared.  What remains is a tree of five tables, and the last gibibyte of the address
space, where `map_mmio` puts its windows, is empty.
-/
namespace Coconut
open Paging

/-! ## The trampoline -/

/-- `mov [table + 8 * index], entry`. -/
def putEntry (m : Memory) (table index e : Nat) : Memory := m.writeU64 (table + 8 * index) e

/-- The loop that fills a page directory with 2 MiB pages, from entry `i` on. -/
def fillPd (pd : Nat) : Nat → Nat → Memory → Memory
  | 0, _, m => m
  | n + 1, i, m => fillPd pd n (i + 1) (putEntry m pd i (i * 0x200000 ||| 0x83))

/-- The tables of the trampoline. -/
def trampolineTables (m : Memory) : Memory :=
  let m := m.fill 0x400000 0x7000 0
  let m := putEntry m 0x400000 0 (0x401000 ||| 0x03)
  let m := putEntry m 0x400000 256 (0x403000 ||| 0x03)
  let m := putEntry m 0x400000 511 (0x405000 ||| 0x03)
  let m := putEntry m 0x401000 0 (0x402000 ||| 0x03)
  let m := putEntry m 0x403000 0 (0x404000 ||| 0x03)
  let m := putEntry m 0x405000 510 (0x406000 ||| 0x03)
  fillPd 0x406000 512 0 (fillPd 0x404000 512 0 (fillPd 0x402000 512 0 m))

/-- The tables after `remove_identity_mapping`. -/
def supervisorTables (m : Memory) : Memory := putEntry (trampolineTables m) 0x400000 0 0

/-! ## Their entries -/

theorem entryAt_putEntry (m : Memory) {f g i j e : Nat} (hf : f % 4096 = 0) (hg : g % 4096 = 0)
    (hi : i < 512) (hj : j < 512) (he : e < 2 ^ 64) :
    entryAt (putEntry m g i e) f j = if f = g ∧ j = i then e else entryAt m f j := by
  by_cases h : f = g ∧ j = i
  · rw [if_pos h, h.1, h.2]
    exact entryAt_writeU64_same m he
  · rw [if_neg h]
    exact entryAt_writeU64_of_ne m hf hg hi hj (Decidable.not_and_iff_or_not.mp h)

/-- A directory that was filled, and the other tables. -/
theorem entryAt_fillPd {pd f j : Nat} (hf : f % 4096 = 0) (hpd : pd % 4096 = 0) (hj : j < 512)
    {n : Nat} : ∀ {i : Nat} (m : Memory), i + n ≤ 512 →
      entryAt (fillPd pd n i m) f j =
        if f = pd ∧ i ≤ j ∧ j < i + n then j * 0x200000 ||| 0x83 else entryAt m f j := by
  induction n with
  | zero =>
    intro i m _
    rw [if_neg (by omega), fillPd]
  | succ n ih =>
    intro i m hin
    have he : i * 0x200000 ||| 0x83 < 2 ^ 64 := Nat.or_lt_two_pow (by omega) (by decide)
    rw [fillPd, ih _ (by omega), entryAt_putEntry m hf hpd (by omega) hj he]
    by_cases hfirst : f = pd ∧ j = i
    · rw [if_neg (by omega), if_pos hfirst, if_pos ⟨hfirst.1, by omega⟩, hfirst.2]
    · rw [if_neg hfirst]
      by_cases hrest : f = pd ∧ i + 1 ≤ j ∧ j < i + 1 + n
      · rw [if_pos hrest, if_pos ⟨hrest.1, by omega⟩]
      · rw [if_neg hrest, if_neg (by omega)]

/-- The entries of the seven tables, the last write first. -/
theorem entryAt_supervisorTables (m : Memory) {f j : Nat} (hf : f % 4096 = 0)
    (hin : 0x400000 ≤ f ∧ f < 0x407000) (hj : j < 512) :
    entryAt (supervisorTables m) f j =
      if f = 0x400000 ∧ j = 0 then 0
      else if f = 0x406000 ∧ 0 ≤ j ∧ j < 0 + 512 then j * 0x200000 ||| 0x83
      else if f = 0x404000 ∧ 0 ≤ j ∧ j < 0 + 512 then j * 0x200000 ||| 0x83
      else if f = 0x402000 ∧ 0 ≤ j ∧ j < 0 + 512 then j * 0x200000 ||| 0x83
      else if f = 0x405000 ∧ j = 510 then 0x406003
      else if f = 0x403000 ∧ j = 0 then 0x404003
      else if f = 0x401000 ∧ j = 0 then 0x402003
      else if f = 0x400000 ∧ j = 511 then 0x405003
      else if f = 0x400000 ∧ j = 256 then 0x403003
      else if f = 0x400000 ∧ j = 0 then 0x401003
      else 0 := by
  have hzero : entryAt (m.fill 0x400000 0x7000 0) f j = 0 :=
    Memory.readLE_eq_zero fun _ h1 h2 => m.fill_of_mem (by omega) (by omega)
  unfold supervisorTables trampolineTables
  rw [entryAt_putEntry _ hf (by decide) (by decide) hj (by decide),
    entryAt_fillPd hf (by decide) hj _ (by decide), entryAt_fillPd hf (by decide) hj _ (by decide),
    entryAt_fillPd hf (by decide) hj _ (by decide),
    entryAt_putEntry _ hf (by decide) (by decide) hj (by decide),
    entryAt_putEntry _ hf (by decide) (by decide) hj (by decide),
    entryAt_putEntry _ hf (by decide) (by decide) hj (by decide),
    entryAt_putEntry _ hf (by decide) (by decide) hj (by decide),
    entryAt_putEntry _ hf (by decide) (by decide) hj (by decide),
    entryAt_putEntry _ hf (by decide) (by decide) hj (by decide), hzero]
  rfl

section Entries
variable (m : Memory) {j : Nat} (hj : j < 512)
include hj

theorem entryAt_pml4 : entryAt (supervisorTables m) 0x400000 j =
    if j = 511 then 0x405003 else if j = 256 then 0x403003 else 0 := by
  rw [entryAt_supervisorTables m (by decide) (by decide) hj]
  by_cases h0 : j = 0
  · subst h0
    rfl
  · simp [h0]

theorem entryAt_pdptHhdm : entryAt (supervisorTables m) 0x403000 j =
    if j = 0 then 0x404003 else 0 := by
  rw [entryAt_supervisorTables m (by decide) (by decide) hj]
  simp

theorem entryAt_pdptKern : entryAt (supervisorTables m) 0x405000 j =
    if j = 510 then 0x406003 else 0 := by
  rw [entryAt_supervisorTables m (by decide) (by decide) hj]
  simp

/-- The two directories that are left hold large pages only. -/
theorem entryAt_pd {f : Nat} (hf : f = 0x404000 ∨ f = 0x406000) :
    entryAt (supervisorTables m) f j = j * 0x200000 ||| 0x83 := by
  rcases hf with rfl | rfl
  · rw [entryAt_supervisorTables m (by decide) (by decide) hj]
    simp [hj]
  · rw [entryAt_supervisorTables m (by decide) (by decide) hj]
    simp [hj]

end Entries

theorem hasFlag_largePage (j : Nat) : hasFlag (j * 0x200000 ||| 0x83) ptePageSize = true := by
  have hbit : (((j * 0x200000 ||| 0x83) &&& 0x80).testBit 7) = true := by
    rw [Nat.testBit_and, Nat.testBit_or, show Nat.testBit 0x83 7 = true from rfl,
      show Nat.testBit 0x80 7 = true from rfl, Bool.or_true, Bool.and_true]
  refine bne_iff_ne.mpr fun hzero => ?_
  change (j * 0x200000 ||| 0x83) &&& 0x80 = 0 at hzero
  rw [hzero] at hbit
  cases hbit

/-! ## The tree -/

/-- The tables that hang from the root. -/
def supervisorTab : TableMap := fun f =>
  if f = 0x400000 then some (4, 0)
  else if f = 0x403000 then some (3, 256)
  else if f = 0x404000 then some (2, 256 * 512)
  else if f = 0x405000 then some (3, 511)
  else if f = 0x406000 then some (2, 511 * 512 + 510)
  else none

theorem supervisorTab_eq_some {f : Nat} {x : Nat × Nat} (h : supervisorTab f = some x) :
    f = 0x400000 ∧ x = (4, 0) ∨ f = 0x403000 ∧ x = (3, 256) ∨ f = 0x404000 ∧ x = (2, 256 * 512) ∨
      f = 0x405000 ∧ x = (3, 511) ∨ f = 0x406000 ∧ x = (2, 511 * 512 + 510) := by
  unfold supervisorTab at h
  split_ifs at h with h1 h2 h3 h4 h5 <;> obtain rfl := Option.some.inj h
  · exact Or.inl ⟨h1, rfl⟩
  · exact Or.inr (Or.inl ⟨h2, rfl⟩)
  · exact Or.inr (Or.inr (Or.inl ⟨h3, rfl⟩))
  · exact Or.inr (Or.inr (Or.inr (Or.inl ⟨h4, rfl⟩)))
  · exact Or.inr (Or.inr (Or.inr (Or.inr ⟨h5, rfl⟩)))

section Tree
variable (m : Memory) {b : Bitmap}

/-- **The tables are a tree**, provided the region they lie in is not the allocator's. -/
theorem supervisorTables_tree (hb : b.bit 2 = false) :
    TreeOk (2 ^ 36) supervisorTab ⟨supervisorTables m, b, []⟩ 0x400000 := by
  refine ⟨⟨nofun, nofun, List.nodup_nil⟩, ?_, Nat.le_refl _, rfl, ?_, ?_, ?_⟩
  · rintro f x hf (⟨sr, hsr, -⟩ | ⟨-, -, hbit⟩)
    · cases hsr
    · -- all five tables lie between 4 and 6 MiB
      have hregion : f / 0x200000 = 2 := by
        rcases supervisorTab_eq_some hf with ⟨rfl, -⟩ | ⟨rfl, -⟩ | ⟨rfl, -⟩ | ⟨rfl, -⟩ | ⟨rfl, -⟩ <;> rfl
      rw [hregion, hb] at hbit
      cases hbit
  · intro f x hf
    rcases supervisorTab_eq_some hf with ⟨rfl, -⟩ | ⟨rfl, -⟩ | ⟨rfl, -⟩ | ⟨rfl, -⟩ | ⟨rfl, -⟩ <;> rfl
  · intro f k p hf hk
    subst hk
    rcases supervisorTab_eq_some hf with ⟨-, h⟩ | ⟨-, h⟩ | ⟨-, h⟩ | ⟨-, h⟩ | ⟨-, h⟩ <;> cases h
  · intro f k p i hf hk hi _ hp hs
    change isPresent (entryAt (supervisorTables m) f i) = true at hp
    change hasFlag (entryAt (supervisorTables m) f i) ptePageSize = false at hs
    change supervisorTab (physAddr (entryAt (supervisorTables m) f i)) = some (k, p * 512 + i)
    rcases supervisorTab_eq_some hf with ⟨rfl, h⟩ | ⟨rfl, h⟩ | ⟨rfl, h⟩ | ⟨rfl, h⟩ | ⟨rfl, h⟩
    · cases h
      rw [entryAt_pml4 m hi] at hp ⊢
      split_ifs at hp ⊢ with h511 h256
      · subst h511
        decide
      · subst h256
        decide
      · cases hp
    · cases h
      rw [entryAt_pdptHhdm m hi] at hp ⊢
      split_ifs at hp ⊢ with h0
      · subst h0
        decide
      · cases hp
    · rw [entryAt_pd m hi (Or.inl rfl), hasFlag_largePage] at hs
      cases hs
    · cases h
      rw [entryAt_pdptKern m hi] at hp ⊢
      split_ifs at hp ⊢ with h510
      · subst h510
        decide
      · cases hp
    · rw [entryAt_pd m hi (Or.inr rfl), hasFlag_largePage] at hs
      cases hs

/-- **The last gibibyte is empty**: `PDPT_kern[511]` is not present. -/
theorem supervisorTables_window {n : Nat} (h1 : 2 ^ 36 - 2 ^ 18 ≤ n) (h2 : n < 2 ^ 36) :
    SmallPath (supervisorTables m) 4 0x400000 n ∧
      ∀ a, translate (supervisorTables m) 4 0x400000 n a = none := by
  have h3 : pageIndex 3 n = 511 := by
    unfold pageIndex
    omega
  have h2 : pageIndex 2 n = 511 := by
    unfold pageIndex
    omega
  have hroot : entryAt (supervisorTables m) 0x400000 (pageIndex 3 n) = 0x405003 := by
    rw [h3, entryAt_pml4 m (by decide), if_pos rfl]
  have habsent : isPresent (entryAt (supervisorTables m) 0x405000 (pageIndex 2 n)) = false := by
    rw [h2, entryAt_pdptKern m (by decide)]
    rfl
  have hnext : physAddr (entryAt (supervisorTables m) 0x400000 (pageIndex 3 n)) = 0x405000 := by
    rw [hroot]
    decide
  refine ⟨fun _ _ => ⟨by rw [hroot]; decide, ?_⟩, fun a => ?_⟩
  · rw [hnext]
    intro hp
    rw [habsent] at hp
    cases hp
  · rw [translate_table (by decide) (by rw [hroot]; decide) (by rw [hroot]; decide), hnext,
      translate_absent habsent]

/-- The lower half is empty once the identity map is removed. -/
theorem supervisorTables_lower {n : Nat} (hn : n < 2 ^ 35) :
    SmallPath (supervisorTables m) 4 0x400000 n ∧
      ∀ a, translate (supervisorTables m) 4 0x400000 n a = none := by
  have habsent : isPresent (entryAt (supervisorTables m) 0x400000 (pageIndex 3 n)) = false := by
    have hindex : pageIndex 3 n < 256 := by
      unfold pageIndex
      omega
    rw [entryAt_pml4 m (pageIndex_lt 3 n), if_neg (by omega), if_neg (by omega)]
    exact isPresent_zero
  refine ⟨fun hp => ?_, fun a => translate_absent habsent⟩
  rw [habsent] at hp
  cases hp

end Tree

end Coconut
