import Mathlib.Tactic.Common

/-!
# Counted loops over named arrays

Numeric code works on a handful of buffers, each an object of its own, with counted loops
that store one element an iteration.  `forUp` is the loop, a state of the buffers is a
function `B → Nat → W`, and a loop that stores the elements of one buffer in order leaves
it `fill`ed (`forUp_store`): what the iterations read of their own buffer is only what
they have not yet written.
-/
namespace ArrayLoops

section Loop
variable {σ : Type}

/-- `for (i = 0; i < n; i++)`: the body at `0`, `1`, …, `n - 1` in turn. -/
def forUp : Nat → (Nat → σ → σ) → σ → σ
  | 0, _, s => s
  | n + 1, body, s => body n (forUp n body s)

@[simp] theorem forUp_zero (body : Nat → σ → σ) (s : σ) : forUp 0 body s = s := rfl

theorem forUp_succ (n : Nat) (body : Nat → σ → σ) (s : σ) :
    forUp (n + 1) body s = body n (forUp n body s) := rfl

/-- What holds before the loop and is carried over each iteration holds after it. -/
theorem forUp_inv {P : Nat → σ → Prop} {n : Nat} {body : Nat → σ → σ} {s : σ} (h0 : P 0 s)
    (step : ∀ i, i < n → ∀ s, P i s → P (i + 1) (body i s)) : P n (forUp n body s) := by
  induction n with
  | zero => exact h0
  | succ n ih =>
    exact step n (Nat.lt_succ_self n) _ (ih fun i hi => step i (Nat.lt_succ_of_lt hi))

theorem forUp_congr {n : Nat} {body body' : Nat → σ → σ} {s : σ}
    (h : ∀ i, i < n → ∀ s, body i s = body' i s) : forUp n body s = forUp n body' s := by
  induction n with
  | zero => rfl
  | succ n ih =>
    rw [forUp_succ, forUp_succ, ih fun i hi => h i (Nat.lt_succ_of_lt hi), h n (Nat.lt_succ_self n)]

/-- A loop cut in two. -/
theorem forUp_add (m n : Nat) (body : Nat → σ → σ) (s : σ) :
    forUp (m + n) body s = forUp n (fun i => body (m + i)) (forUp m body s) := by
  induction n with
  | zero => rfl
  | succ n ih => rw [← Nat.add_assoc, forUp_succ, forUp_succ, ih]

end Loop

/-- A pointer into a buffer. -/
structure Ptr (B : Type) where
  buf : B
  off : Nat

variable {B W : Type}

instance : HAdd (Ptr B) Nat (Ptr B) := ⟨fun p n => ⟨p.buf, p.off + n⟩⟩

@[simp] theorem Ptr.add_buf (p : Ptr B) (n : Nat) : (p + n).buf = p.buf := rfl

@[simp] theorem Ptr.add_off (p : Ptr B) (n : Nat) : (p + n).off = p.off + n := rfl

/-- `p[i]`. -/
def load (s : B → Nat → W) (p : Ptr B) (i : Nat) : W := s p.buf (p.off + i)

theorem load_add (s : B → Nat → W) (p : Ptr B) (n i : Nat) :
    load s (p + n) i = load s p (n + i) := by
  rw [load, load, Ptr.add_buf, Ptr.add_off, Nat.add_assoc]

variable [DecidableEq B]

/-- `p[i] = v`. -/
def store (s : B → Nat → W) (p : Ptr B) (i : Nat) (v : W) : B → Nat → W :=
  fun b j => if b = p.buf ∧ j = p.off + i then v else s b j

/-- The first `n` elements at `p` are those of `g`. -/
def fill (s : B → Nat → W) (p : Ptr B) (n : Nat) (g : Nat → W) : B → Nat → W :=
  fun b j => if b = p.buf ∧ p.off ≤ j ∧ j < p.off + n then g (j - p.off) else s b j

@[simp] theorem fill_zero (s : B → Nat → W) (p : Ptr B) (g : Nat → W) : fill s p 0 g = s := by
  funext b j
  exact if_neg (by omega)

theorem fill_succ (s : B → Nat → W) (p : Ptr B) (n : Nat) (g : Nat → W) :
    fill s p (n + 1) g = store (fill s p n g) p n (g n) := by
  funext b j
  simp only [fill, store]
  by_cases hj : b = p.buf ∧ j = p.off + n
  · obtain ⟨rfl, rfl⟩ := hj
    rw [if_pos ⟨rfl, by omega, by omega⟩, if_pos ⟨rfl, rfl⟩, Nat.add_sub_cancel_left]
  · rw [if_neg hj]
    by_cases hb : b = p.buf
    · have hne : j ≠ p.off + n := fun h => hj ⟨hb, h⟩
      congr 1
      simp only [hb, true_and, eq_iff_iff]
      omega
    · rw [if_neg fun h => hb h.1, if_neg fun h => hb h.1]

theorem fill_of_ne (s : B → Nat → W) {p : Ptr B} {n : Nat} {g : Nat → W} {b : B} (h : b ≠ p.buf) :
    fill s p n g b = s b := by
  funext j
  exact if_neg fun hc => h hc.1

theorem fill_of_outside (s : B → Nat → W) {p : Ptr B} {n : Nat} {g : Nat → W} {b : B} {j : Nat}
    (h : j < p.off ∨ p.off + n ≤ j) : fill s p n g b j = s b j := if_neg (by omega)

theorem fill_of_inside (s : B → Nat → W) {p : Ptr B} {n : Nat} {g : Nat → W} {j : Nat}
    (h1 : p.off ≤ j) (h2 : j < p.off + n) : fill s p n g p.buf j = g (j - p.off) :=
  if_pos ⟨rfl, h1, h2⟩

/-- A fill looks at the buffer alone. -/
theorem fill_buffer {s s' : B → Nat → W} {b : B} (h : s b = s' b) (p : Ptr B) (n : Nat)
    (g : Nat → W) : fill s p n g b = fill s' p n g b := by
  funext j
  simp only [fill, h]

/-- A buffer filled twice over the same range. -/
theorem fill_fill (s : B → Nat → W) (p : Ptr B) (n : Nat) (g g' : Nat → W) :
    fill (fill s p n g) p n g' = fill s p n g' := by
  funext b j
  simp only [fill]
  split <;> rfl

theorem load_fill_of_ne (s : B → Nat → W) {p q : Ptr B} {n : Nat} {g : Nat → W}
    (h : q.buf ≠ p.buf) : load (fill s p n g) q = load s q := by
  funext i
  exact congrFun (fill_of_ne s h) _

theorem load_fill_of_lt (s : B → Nat → W) {p : Ptr B} {n i : Nat} {g : Nat → W} (h : i < n) :
    load (fill s p n g) p i = g i := by
  rw [load, fill_of_inside s (Nat.le_add_right _ _) (Nat.add_lt_add_left h _),
    Nat.add_sub_cancel_left]

theorem load_fill_of_le (s : B → Nat → W) {p : Ptr B} {n i : Nat} {g : Nat → W} (h : n ≤ i) :
    load (fill s p n g) p i = load s p i :=
  fill_of_outside s (Or.inr (Nat.add_le_add_left h _))

/-- Stores to another buffer can be moved before a fill. -/
theorem store_fill_of_ne (s : B → Nat → W) {p q : Ptr B} {n i : Nat} {g : Nat → W} {v : W}
    (h : q.buf ≠ p.buf) : store (fill s p n g) q i v = fill (store s q i v) p n g := by
  funext b j
  simp only [store, fill]
  by_cases hb : b = p.buf
  · have hq : ¬(b = q.buf ∧ j = q.off + i) := fun hc => h (hc.1.symm.trans hb)
    rw [if_neg hq, if_neg hq]
  · have hp : ¬(b = p.buf ∧ p.off ≤ j ∧ j < p.off + n) := fun hc => hb hc.1
    rw [if_neg hp, if_neg hp]

/-- A loop that stores one element of a buffer an iteration, each from the state that the
iterations before it left. -/
theorem forUp_store {s : B → Nat → W} {p : Ptr B} {n : Nat} {value : Nat → (B → Nat → W) → W}
    {g : Nat → W} (h : ∀ i, i < n → value i (fill s p i g) = g i) :
    forUp n (fun i s => store s p i (value i s)) s = fill s p n g := by
  refine forUp_inv (P := fun i s' => s' = fill s p i g) (fill_zero s p g).symm ?_
  rintro i hi _ rfl
  rw [h i hi, fill_succ]

end ArrayLoops
