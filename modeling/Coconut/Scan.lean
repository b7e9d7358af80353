import Mathlib.Tactic.Common

/-!
# Forward scans and fixed-size tables

Two small pieces of systems code that every table-driven program repeats: "take
the first slot that satisfies a test", and "index an array that has a fixed
size".  `firstFrom p n i` is the first of the `n` indices `i, i + 1, …` that
satisfies `p`; `Table n α` is an array of `n` entries, indexed by a machine
integer that may be out of range (`Table.index`).

The results are the two rules the users of a scan need (`firstFrom_eq_some`,
`firstFrom_eq_none`) and the read-after-write rules of a table.
-/

/-- The first of the `n` indices `i, i + 1, …, i + n - 1` that satisfies `p`. -/
def firstFrom (p : Nat → Bool) : Nat → Nat → Option Nat
  | 0, _ => none
  | n + 1, i => if p i then some i else firstFrom p n (i + 1)

/-- A scan finds the least index in its range that passes the test. -/
theorem firstFrom_eq_some {p : Nat → Bool} {n i j : Nat} :
    firstFrom p n i = some j ↔
      i ≤ j ∧ j < i + n ∧ p j = true ∧ ∀ l, i ≤ l → l < j → p l = false := by
  induction n generalizing i with
  | zero =>
    simp only [firstFrom]
    constructor
    · intro h; cases h
    · rintro ⟨h1, h2, -, -⟩; omega
  | succ n ih =>
    rw [firstFrom]
    by_cases hp : p i = true
    · rw [if_pos hp]
      constructor
      · intro h
        obtain rfl := Option.some.inj h
        exact ⟨Nat.le_refl _, by omega, hp, fun l h1 h2 => by omega⟩
      · rintro ⟨h1, -, -, h4⟩
        by_cases hij : i = j
        · rw [hij]
        · have := h4 i (Nat.le_refl _) (by omega)
          rw [hp] at this
          cases this
    · rw [if_neg hp, ih]
      have hpf : p i = false := by simpa using hp
      constructor
      · rintro ⟨h1, h2, h3, h4⟩
        refine ⟨by omega, by omega, h3, fun l h5 h6 => ?_⟩
        by_cases hl : l = i
        · rw [hl]; exact hpf
        · exact h4 l (by omega) h6
      · rintro ⟨h1, h2, h3, h4⟩
        have hne : i ≠ j := fun he => by rw [he, h3] at hpf; cases hpf
        exact ⟨by omega, by omega, h3, fun l h5 h6 => h4 l (by omega) h6⟩

/-- A scan fails only when no index of its range passes the test. -/
theorem firstFrom_eq_none {p : Nat → Bool} {n i : Nat} :
    firstFrom p n i = none ↔ ∀ j, i ≤ j → j < i + n → p j = false := by
  induction n generalizing i with
  | zero => exact ⟨fun _ j h1 h2 => by omega, fun _ => rfl⟩
  | succ n ih =>
    rw [firstFrom]
    by_cases hp : p i = true
    · rw [if_pos hp]
      constructor
      · intro h; cases h
      · intro h
        have := h i (Nat.le_refl _) (by omega)
        rw [hp] at this
        cases this
    · rw [if_neg hp, ih]
      have hpf : p i = false := by simpa using hp
      constructor
      · intro h j h1 h2
        by_cases hj : j = i
        · rw [hj]; exact hpf
        · exact h j (by omega) (by omega)
      · intro h j h1 h2
        exact h j (by omega) (by omega)

/-- The two bounds and the test, without minimality. -/
theorem firstFrom_some {p : Nat → Bool} {n i j : Nat} (h : firstFrom p n i = some j) :
    i ≤ j ∧ j < i + n ∧ p j = true :=
  let ⟨h1, h2, h3, _⟩ := firstFrom_eq_some.mp h
  ⟨h1, h2, h3⟩

/-- An array of `n` entries. -/
def Table (n : Nat) (α : Type) : Type := Fin n → α

namespace Table
variable {n : Nat} {α ε : Type}

/-- Checked indexing: `e` is the error an index out of range raises. -/
def index (e : ε) (t : Table n α) (i : Nat) : Except ε α :=
  if h : i < n then .ok (t ⟨i, h⟩) else .error e

/-- Replace entry `i` by `f` of it. -/
def modify (t : Table n α) (i : Nat) (f : α → α) : Table n α :=
  fun j => if (j : Nat) = i then f (t j) else t j

/-- The entry at `i`, where `d` answers for an index out of range. -/
def getD (t : Table n α) (i : Nat) (d : α) : α := if h : i < n then t ⟨i, h⟩ else d

theorem index_of_lt (e : ε) (t : Table n α) {i : Nat} (h : i < n) :
    t.index e i = .ok (t ⟨i, h⟩) := dif_pos h

@[simp] theorem index_val (e : ε) (t : Table n α) (i : Fin n) : t.index e i = .ok (t i) :=
  dif_pos i.isLt

theorem index_eq_ok {e : ε} {t : Table n α} {i : Nat} {x : α} (h : t.index e i = .ok x) :
    ∃ hi : i < n, x = t ⟨i, hi⟩ := by
  unfold index at h
  split at h
  · exact ⟨‹_›, (Except.ok.inj h).symm⟩
  · cases h

theorem index_eq_error {e e' : ε} {t : Table n α} {i : Nat} (h : t.index e i = .error e') :
    n ≤ i ∧ e' = e := by
  unfold index at h
  split at h
  · cases h
  · exact ⟨by omega, (Except.error.inj h).symm⟩

theorem getD_of_lt (t : Table n α) {i : Nat} (d : α) (h : i < n) : t.getD i d = t ⟨i, h⟩ :=
  dif_pos h

@[simp] theorem getD_val (t : Table n α) (i : Fin n) (d : α) : t.getD i d = t i :=
  dif_pos i.isLt

@[simp] theorem modify_same (t : Table n α) (i : Fin n) (f : α → α) :
    t.modify i f i = f (t i) := if_pos rfl

theorem modify_modify (t : Table n α) (i : Nat) (f g : α → α) :
    (t.modify i f).modify i g = t.modify i fun a => g (f a) := by
  funext j
  unfold modify
  split <;> rfl

end Table
