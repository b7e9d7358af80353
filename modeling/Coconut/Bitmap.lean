import Coconut.Scan
import Mathlib.Tactic.Common

/-!
# Word bitmaps

A set of small numbers kept as 64-bit words: number `i` is bit `i % 64` of word
`i / 64`.  Setting and clearing touch one word; the least member is found by
skipping words that are zero and counting the trailing zeros of the first one
that is not (`takeFirst`).  The lemmas say what the three operations do to the
set, so that their users never look at a word.
-/

/-- The words of a bitmap. -/
abbrev Bitmap := Nat → BitVec 64

namespace Bitmap

/-- Number `i` is in the set. -/
def bit (b : Bitmap) (i : Nat) : Bool := (b (i / 64)).getLsbD (i % 64)

/-- `b[i / 64] |= 1 << (i % 64)`. -/
def setBit (b : Bitmap) (i : Nat) : Bitmap :=
  fun w => if w = i / 64 then b w ||| 1#64 <<< (i % 64) else b w

/-- `b[i / 64] &= !(1 << (i % 64))`. -/
def clearBit (b : Bitmap) (i : Nat) : Bitmap :=
  fun w => if w = i / 64 then b w &&& ~~~(1#64 <<< (i % 64)) else b w

/-- The position of the lowest set bit, 64 for zero. -/
def trailingZeros (w : BitVec 64) : Nat := (firstFrom (fun i => w.getLsbD i) 64 0).getD 64

/-- Remove the least member of the set kept in the first `n` words: the first
word that is not zero, at its trailing zeros. -/
def takeFirst (b : Bitmap) (n : Nat) : Option (Nat × Bitmap) :=
  (firstFrom (fun w => b w != 0) n 0).map fun w =>
    let i := w * 64 + trailingZeros (b w)
    (i, b.clearBit i)

theorem bit_setBit (b : Bitmap) (i j : Nat) :
    (b.setBit i).bit j = (decide (j = i) || b.bit j) := by
  have hj : j % 64 < 64 := Nat.mod_lt _ (by decide)
  have hi : i % 64 < 64 := Nat.mod_lt _ (by decide)
  unfold bit setBit
  by_cases hw : j / 64 = i / 64
  · rw [if_pos hw]
    by_cases hij : j = i
    · subst hij
      simp [hj]
    · have hne : j % 64 ≠ i % 64 := by omega
      have hb : (1#64 <<< (i % 64)).getLsbD (j % 64) = false := by
        by_cases hlt : j % 64 < i % 64
        · simp [hlt]
        · have h0 : j % 64 - i % 64 ≠ 0 := by omega
          simp [BitVec.getLsbD_one, h0]
      rw [BitVec.getLsbD_or, hb, decide_eq_false hij, Bool.or_false, Bool.false_or]
  · have hij : ¬ j = i := fun he => hw (he ▸ rfl)
    rw [if_neg hw, decide_eq_false hij, Bool.false_or]

theorem bit_clearBit (b : Bitmap) (i j : Nat) :
    (b.clearBit i).bit j = (decide (j ≠ i) && b.bit j) := by
  have hj : j % 64 < 64 := Nat.mod_lt _ (by decide)
  have hi : i % 64 < 64 := Nat.mod_lt _ (by decide)
  unfold bit clearBit
  by_cases hw : j / 64 = i / 64
  · rw [if_pos hw]
    by_cases hij : j = i
    · subst hij
      simp
    · have hne : j % 64 ≠ i % 64 := by omega
      have hb : (1#64 <<< (i % 64)).getLsbD (j % 64) = false := by
        by_cases hlt : j % 64 < i % 64
        · simp [hlt]
        · have h0 : j % 64 - i % 64 ≠ 0 := by omega
          simp [BitVec.getLsbD_one, h0]
      rw [BitVec.getLsbD_and, BitVec.getLsbD_not, hb, decide_eq_true hij, decide_eq_true hj,
        Bool.not_false, Bool.and_true, Bool.and_true, Bool.true_and]
  · have hij : j ≠ i := fun he => hw (he ▸ rfl)
    rw [if_neg hw, decide_eq_true hij, Bool.true_and]

/-- A word that is not zero has a lowest set bit. -/
theorem trailingZeros_spec {w : BitVec 64} (hw : w ≠ 0) :
    trailingZeros w < 64 ∧ w.getLsbD (trailingZeros w) = true ∧
      ∀ j, j < trailingZeros w → w.getLsbD j = false := by
  unfold trailingZeros
  cases h : firstFrom (fun i => w.getLsbD i) 64 0 with
  | none =>
    exfalso
    rw [firstFrom_eq_none] at h
    apply hw
    apply BitVec.eq_of_getLsbD_eq
    intro i hi
    rw [h i (Nat.zero_le _) (by omega)]
    simp
  | some i =>
    obtain ⟨-, h2, h3, h4⟩ := firstFrom_eq_some.mp h
    exact ⟨by simpa using h2, h3, fun j hj => h4 j (Nat.zero_le _) hj⟩

/-- `takeFirst` removes the least member. -/
theorem takeFirst_eq_some {b b' : Bitmap} {n i : Nat} (h : b.takeFirst n = some (i, b')) :
    i < 64 * n ∧ b.bit i = true ∧ b' = b.clearBit i ∧ ∀ j, j < i → b.bit j = false := by
  unfold takeFirst at h
  rw [Option.map_eq_some_iff] at h
  obtain ⟨w, hw, he⟩ := h
  obtain ⟨-, hwn, hnz, hmin⟩ := firstFrom_eq_some.mp hw
  obtain ⟨hlt, hset, hlow⟩ := trailingZeros_spec (w := b w) (by simpa using hnz)
  obtain ⟨rfl, rfl⟩ := Prod.mk.inj he
  have hdiv : (w * 64 + trailingZeros (b w)) / 64 = w := by omega
  have hmod : (w * 64 + trailingZeros (b w)) % 64 = trailingZeros (b w) := by omega
  refine ⟨by omega, ?_, rfl, fun j hj => ?_⟩
  · rw [bit, hdiv, hmod]; exact hset
  · by_cases hjw : j / 64 = w
    · rw [bit, hjw]
      exact hlow _ (by omega)
    · have hz := hmin (j / 64) (Nat.zero_le _) (by omega)
      have hz' : b (j / 64) = 0 := by simpa using hz
      rw [bit, hz']
      simp

/-- `takeFirst` fails only on the empty set. -/
theorem takeFirst_eq_none {b : Bitmap} {n : Nat} :
    b.takeFirst n = none ↔ ∀ i, i < 64 * n → b.bit i = false := by
  unfold takeFirst
  rw [Option.map_eq_none_iff, firstFrom_eq_none]
  constructor
  · intro h i hi
    have hz : b (i / 64) = 0 := by simpa using h (i / 64) (Nat.zero_le _) (by omega)
    rw [bit, hz]
    simp
  · intro h w _ hw
    by_contra hc
    have hnz : b w ≠ 0 := by simpa using hc
    obtain ⟨hlt, hset, -⟩ := trailingZeros_spec hnz
    have := h (w * 64 + trailingZeros (b w)) (by omega)
    rw [bit, show (w * 64 + trailingZeros (b w)) / 64 = w by omega,
      show (w * 64 + trailingZeros (b w)) % 64 = trailingZeros (b w) by omega, hset] at this
    cases this

/-- A bitmap is the set it stands for. -/
theorem ext_bit {b b' : Bitmap} (h : ∀ i, b.bit i = b'.bit i) : b = b' := by
  funext w
  apply BitVec.eq_of_getLsbD_eq
  intro j hj
  have hi := h (w * 64 + j)
  unfold bit at hi
  rwa [show (w * 64 + j) / 64 = w by omega, show (w * 64 + j) % 64 = j by omega] at hi

end Bitmap
