import Mathlib.Order.Interval.Finset.Nat
import Mathlib.Algebra.Ring.Nat

/-!
# Blocks of addresses

A block is a run of consecutive addresses.  Blocks that share no address and lie in one
range cannot be longer together than the range (`total_len_le`), and blocks laid one behind
the other (`layout`) share none.
-/
namespace Packing

/-- `len` addresses from `start` on. -/
structure Block where
  start : Nat
  len : Nat

namespace Block

/-- The addresses of a block. -/
def addresses (b : Block) : Finset Nat := Finset.Ico b.start (b.start + b.len)

/-- Two blocks share no address. -/
def Apart (b c : Block) : Prop := Disjoint b.addresses c.addresses

/-- The block lies in the range from `lo` to `hi`. -/
def Inside (lo hi : Nat) (b : Block) : Prop := lo ≤ b.start ∧ b.start + b.len ≤ hi

theorem card_addresses (b : Block) : b.addresses.card = b.len := by
  rw [addresses, Nat.card_Ico, Nat.add_sub_cancel_left]

theorem apart_of_le {b c : Block} (h : b.start + b.len ≤ c.start) : b.Apart c := by
  refine Finset.disjoint_left.mpr fun a hb hc => ?_
  have hb := (Finset.mem_Ico.mp hb).2
  have hc := (Finset.mem_Ico.mp hc).1
  omega

end Block

/-- The addresses of all the blocks. -/
def covered : List Block → Finset Nat
  | [] => ∅
  | b :: rest => b.addresses ∪ covered rest

theorem disjoint_covered {b : Block} {l : List Block} (h : ∀ c ∈ l, b.Apart c) :
    Disjoint b.addresses (covered l) := by
  induction l with
  | nil => exact Finset.disjoint_empty_right _
  | cons c rest ih =>
    obtain ⟨hc, hrest⟩ := List.forall_mem_cons.mp h
    exact Finset.disjoint_union_right.mpr ⟨hc, ih hrest⟩

theorem card_covered {l : List Block} (h : l.Pairwise Block.Apart) :
    (covered l).card = (l.map Block.len).sum := by
  induction h with
  | nil => rfl
  | @cons b rest hb _ ih =>
    rw [covered, Finset.card_union_of_disjoint (disjoint_covered hb), b.card_addresses, ih,
      List.map_cons, List.sum_cons]

theorem covered_subset {lo hi : Nat} {l : List Block} (h : ∀ b ∈ l, b.Inside lo hi) :
    covered l ⊆ Finset.Ico lo hi := by
  induction l with
  | nil => exact Finset.empty_subset _
  | cons b rest ih =>
    obtain ⟨hb, hrest⟩ := List.forall_mem_cons.mp h
    exact Finset.union_subset (Finset.Ico_subset_Ico hb.1 hb.2) (ih hrest)

/-- Blocks of one range that share no address fit into it together. -/
theorem total_len_le {lo hi : Nat} {l : List Block} (hapart : l.Pairwise Block.Apart)
    (hinside : ∀ b ∈ l, b.Inside lo hi) : (l.map Block.len).sum ≤ hi - lo := by
  rw [← card_covered hapart, ← Nat.card_Ico]
  exact Finset.card_le_card (covered_subset hinside)

/-! ## Blocks laid one behind the other -/

/-- Blocks of the given lengths from `lo` on, without gaps. -/
def layout (lo : Nat) : List Nat → List Block
  | [] => []
  | n :: rest => ⟨lo, n⟩ :: layout (lo + n) rest

theorem layout_inside {lo : Nat} {lens : List Nat} :
    ∀ b ∈ layout lo lens, b.Inside lo (lo + lens.sum) := by
  induction lens generalizing lo with
  | nil => exact nofun
  | cons n rest ih =>
    rw [List.sum_cons]
    refine List.forall_mem_cons.mpr ⟨⟨Nat.le_refl _, ?_⟩, fun b hb => ?_⟩
    · exact Nat.add_le_add_left (Nat.le_add_right _ _) _
    · obtain ⟨hlo, hhi⟩ := ih b hb
      exact ⟨by omega, by omega⟩

theorem layout_apart {lo : Nat} {lens : List Nat} : (layout lo lens).Pairwise Block.Apart := by
  induction lens generalizing lo with
  | nil => exact List.Pairwise.nil
  | cons n rest ih => exact .cons (fun b hb => Block.apart_of_le (layout_inside b hb).1) ih

/-- The starts of a layout and its lengths make up the layout. -/
theorem zipWith_layout {lo : Nat} {lens : List Nat} :
    List.zipWith Block.mk ((layout lo lens).map Block.start) lens = layout lo lens := by
  induction lens generalizing lo with
  | nil => rfl
  | cons n rest ih =>
    rw [layout, List.map_cons, List.zipWith_cons_cons, ih]

end Packing
