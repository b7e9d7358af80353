import Coconut.Scan

/-!
# Cyclic scans

Round-robin selection from a cursor: `nextCyclic p n last` is the first of the slots
`last + 1, last + 2, …`, taken modulo `n`, that satisfies `p`; the slot `last` itself
comes last.  `ahead n i j` measures how far `j` lies ahead of `i` on the cycle.

The rule behind every fairness argument is `ahead_lt_of_pick`: a rotation that has
started at `a` and not yet reached `b` stays between the two as long as `b` is a
candidate, provided the cursor of each scan has not skipped a candidate.
-/

/-- The first slot after `last`, cyclically, that satisfies `p`. -/
def nextCyclic (p : Nat → Bool) (n last : Nat) : Option Nat :=
  (firstFrom (fun offset => p ((last + offset) % n)) n 1).map fun offset => (last + offset) % n

/-- How far `j` lies ahead of `i` on a cycle of `n` slots, from 1 to `n`. -/
def ahead (n i j : Nat) : Nat := if i < j then j - i else j + n - i

theorem ahead_cases (n i j : Nat) :
    (i < j ∧ ahead n i j = j - i) ∨ (j ≤ i ∧ ahead n i j = j + n - i) := by
  unfold ahead
  split <;> omega

theorem add_ahead_mod {n i j : Nat} (hi : i < n) (hj : j < n) : (i + ahead n i j) % n = j := by
  rcases ahead_cases n i j with ⟨h1, h2⟩ | ⟨h1, h2⟩
  · rw [h2, show i + (j - i) = j by omega, Nat.mod_eq_of_lt hj]
  · rw [h2, show i + (j + n - i) = j + n by omega, Nat.add_mod_right, Nat.mod_eq_of_lt hj]

/-- A distance from 1 to `n` is the distance to the slot it leads to. -/
theorem ahead_add_mod {n i o : Nat} (hi : i < n) (h1 : 1 ≤ o) (h2 : o ≤ n) :
    ahead n i ((i + o) % n) = o := by
  by_cases h : i + o < n
  · rw [Nat.mod_eq_of_lt h]
    rcases ahead_cases n i (i + o) with ⟨-, h'⟩ | ⟨h', -⟩ <;> omega
  · have hmod : (i + o) % n = i + o - n := by
      rw [Nat.mod_eq_sub_mod (by omega), Nat.mod_eq_of_lt (by omega)]
    rw [hmod]
    rcases ahead_cases n i (i + o - n) with ⟨h', -⟩ | ⟨-, h'⟩ <;> omega

theorem ahead_bounds {n i j : Nat} (hi : i < n) (hj : j < n) :
    1 ≤ ahead n i j ∧ ahead n i j ≤ n := by
  rcases ahead_cases n i j with ⟨_, _⟩ | ⟨_, _⟩ <;> omega

theorem ahead_self {n i : Nat} : ahead n i i = n := by
  unfold ahead
  split <;> omega

/-- Going from `i` to `k` by way of `j` is direct, or once around. -/
theorem ahead_add {n i j k : Nat} (hi : i < n) (hj : j < n) (hk : k < n) :
    ahead n i j + ahead n j k = ahead n i k ∨ ahead n i j + ahead n j k = ahead n i k + n := by
  rcases ahead_cases n i j with ⟨_, _⟩ | ⟨_, _⟩ <;>
  rcases ahead_cases n j k with ⟨_, _⟩ | ⟨_, _⟩ <;>
  rcases ahead_cases n i k with ⟨_, _⟩ | ⟨_, _⟩ <;> omega

theorem ahead_inj {n i j k : Nat} (hi : i < n) (hj : j < n) (hk : k < n)
    (h : ahead n i j = ahead n i k) : j = k := by
  rw [← add_ahead_mod hi hj, h, add_ahead_mod hi hk]

/-- If `j` comes before `k` on the way from `i`, the way to `k` goes by `j`. -/
theorem ahead_via {n i j k : Nat} (hi : i < n) (hj : j < n) (hk : k < n)
    (h : ahead n i j < ahead n i k) : ahead n i k = ahead n i j + ahead n j k := by
  have h1 := ahead_add hi hj hk
  have h2 := ahead_bounds hj hk
  omega

/-- A cyclic scan finds the candidate nearest ahead of the cursor. -/
theorem nextCyclic_eq_some {p : Nat → Bool} {n last j : Nat} (hl : last < n)
    (h : nextCyclic p n last = some j) :
    j < n ∧ p j = true ∧ ∀ i, i < n → p i = true → ahead n last j ≤ ahead n last i := by
  obtain ⟨o, ho, rfl⟩ := Option.map_eq_some_iff.mp h
  obtain ⟨h1, h2, hp, hmin⟩ := firstFrom_eq_some.mp ho
  refine ⟨Nat.mod_lt _ (by omega), hp, fun i hi hpi => ?_⟩
  rw [ahead_add_mod hl h1 (by omega)]
  by_contra hc
  have := hmin (ahead n last i) (ahead_bounds hl hi).1 (by omega)
  rw [add_ahead_mod hl hi, hpi] at this
  cases this

/-- A cyclic scan fails only when there is no candidate. -/
theorem nextCyclic_eq_none {p : Nat → Bool} {n last : Nat} (hl : last < n) :
    nextCyclic p n last = none ↔ ∀ i, i < n → p i = false := by
  unfold nextCyclic
  rw [Option.map_eq_none_iff, firstFrom_eq_none]
  constructor
  · intro h i hi
    have hb := ahead_bounds hl hi
    have := h (ahead n last i) hb.1 (by omega)
    rwa [add_ahead_mod hl hi] at this
  · intro h o h1 h2
    exact h _ (Nat.mod_lt _ (by omega))

/-- The scan that picked `j` from cursor `c` has passed over no candidate since slot
`x`: the cursor is at `x`, or every candidate lies ahead of the cursor. -/
def NoneSkipped (n x c : Nat) (p : Nat → Bool) : Prop :=
  c = x ∨ ∀ i, i < n → p i = true → ahead n x c < ahead n x i

/-- **The rotation does not pass a candidate.**  From `a` the rotation has come to `x`,
short of `b`; the next pick `j` is `b`, or again short of `b` and not `a`. -/
theorem ahead_lt_of_pick {p : Nat → Bool} {n a b x c j : Nat} (ha : a < n) (hb : b < n)
    (hx : x < n) (hc : c < n) (hpb : p b = true) (hpick : nextCyclic p n c = some j)
    (hskip : NoneSkipped n x c p) (hshort : x = a ∨ ahead n a x < ahead n a b) (hne : j ≠ b) :
    j ≠ a ∧ ahead n a j < ahead n a b := by
  obtain ⟨hj, hpj, hmin⟩ := nextCyclic_eq_some hc hpick
  have hmin := hmin b hb hpb
  -- seen from `x`, the pick comes no later than `b`
  have hfirst : ahead n x j ≤ ahead n x b := by
    rcases hskip with rfl | hfar
    · exact hmin
    · rw [ahead_via hx hc hb (hfar b hb hpb), ahead_via hx hc hj (hfar j hj hpj)]
      omega
  have hne' : ahead n x j ≠ ahead n x b := fun he => hne (ahead_inj hx hj hb he)
  have hle := (ahead_bounds ha hb).2
  have hlt : ahead n a j < ahead n a b := by
    rcases hshort with rfl | hshort
    · omega
    · have h1 := ahead_via ha hx hb hshort
      have h2 := ahead_add ha hx hj
      omega
  refine ⟨fun he => ?_, hlt⟩
  rw [he, ahead_self] at hlt
  omega
