import Mathlib.Data.List.Basic
import Mathlib.Data.Nat.Find

/-!
# Runs put together from finite segments

Paths of a labelled transition relation, and infinite runs that consist of one finite path
after another.  The relation may depend on the segment: `exists_run` puts together a run
whose `n`-th segment is a path of `R n`, if every state that can begin the segment `n` has a
path to one that can begin the next.
-/
namespace Segments
variable {σ ε : Type}

/-- The steps of `R` labelled `evs` lead from one state to another. -/
inductive Path (R : ε → σ → σ → Prop) : σ → List ε → σ → Prop
  | nil (s : σ) : Path R s [] s
  | cons {s s' s'' : σ} {e : ε} {es : List ε} (step : R e s s') (rest : Path R s' es s'') :
      Path R s (e :: es) s''

section Path
variable {R R' : ε → σ → σ → Prop} {s s' s'' : σ} {e : ε} {es es' : List ε}

theorem Path.append (h : Path R s es s') (h' : Path R s' es' s'') : Path R s (es ++ es') s'' := by
  induction h with
  | nil => exact h'
  | cons step _ ih => exact .cons step (ih h')

/-- What every step preserves holds at the end. -/
theorem Path.preserves {P : σ → Prop} (hP : ∀ {e s s'}, P s → R e s s' → P s') (h : Path R s es s')
    (hs : P s) : P s' := by
  induction h with
  | nil => exact hs
  | cons step _ ih => exact ih (hP hs step)

/-- The states a path goes through. -/
theorem Path.exists_states (h : Path R s es s') : ∃ f : Nat → σ, f 0 = s ∧ f es.length = s' ∧
    ∀ j (hj : j < es.length), R es[j] (f j) (f (j + 1)) := by
  induction h with
  | nil s => exact ⟨fun _ => s, rfl, rfl, fun j hj => absurd hj (Nat.not_lt_zero j)⟩
  | @cons s _ _ e es step _ ih =>
    obtain ⟨f, h0, hend, hstep⟩ := ih
    refine ⟨fun n => Nat.casesOn n s f, rfl, hend, fun j hj => ?_⟩
    cases j with
    | zero =>
      change R e s (f 0)
      rwa [h0]
    | succ j => exact hstep j (Nat.lt_of_succ_lt_succ hj)

end Path

/-- The labels of a sequence from `a` up to `b`. -/
def slice (event : Nat → ε) (a b : Nat) : List ε := (List.range' a (b - a)).map event

theorem mem_slice {event : Nat → ε} {a b : Nat} {e : ε} :
    e ∈ slice event a b ↔ ∃ k, a ≤ k ∧ k < b ∧ event k = e := by
  unfold slice
  rw [List.mem_map]
  constructor
  · rintro ⟨k, hk, rfl⟩
    rw [List.mem_range'_1] at hk
    exact ⟨k, hk.1, by omega, rfl⟩
  · rintro ⟨k, h1, h2, rfl⟩
    exact ⟨k, List.mem_range'_1.mpr ⟨h1, by omega⟩, rfl⟩

/-- A function that every label acts on is, at the end of a slice, folded over it. -/
theorem foldl_slice {α : Type} {event : Nat → ε} {x : Nat → α} {next : α → ε → α}
    (h : ∀ k, x (k + 1) = next (x k) (event k)) {a b : Nat} (hab : a ≤ b) :
    x b = (slice event a b).foldl next (x a) := by
  induction b, hab using Nat.le_induction with
  | base => simp [slice]
  | succ b hb ih =>
    have hlen : b + 1 - a = b - a + 1 := by omega
    unfold slice at ih ⊢
    rw [hlen, List.range'_concat, List.map_append, List.foldl_append, ← ih, Nat.one_mul,
      Nat.add_sub_cancel' hb]
    exact h b

/-- The segment that a time falls into. -/
theorem exists_segment {time : Nat → Nat} {a b k : Nat} (hab : a ≤ b) (h1 : time a ≤ k)
    (h2 : k < time b) : ∃ n, a ≤ n ∧ n < b ∧ time n ≤ k ∧ k < time (n + 1) := by
  induction b, hab using Nat.le_induction with
  | base => omega
  | succ b hb ih =>
    by_cases hk : k < time b
    · obtain ⟨n, hn1, hn2, hn⟩ := ih hk
      exact ⟨n, hn1, by omega, hn⟩
    · exact ⟨b, hb, Nat.lt_succ_self b, Nat.le_of_not_lt hk, h2⟩

theorem exists_segment_of_lt {time : Nat → Nat} (h0 : time 0 = 0) (hlt : ∀ n, time n < time (n + 1))
    (k : Nat) : ∃ n, time n ≤ k ∧ k < time (n + 1) := by
  have hle : ∀ n, n ≤ time n := by
    intro n
    induction n with
    | zero => exact Nat.zero_le _
    | succ n ih =>
      have := hlt n
      omega
  obtain ⟨n, -, -, hn⟩ := exists_segment (Nat.zero_le (k + 1)) (by omega) (hle (k + 1))
  exact ⟨n, hn⟩

/-- The first time after `k` with a property that there is none of in the segments from `a` up to
`b` is in the segment `b`. -/
theorem exists_first_in_segment {time : Nat → Nat} {E : Nat → Prop} {a b k : Nat} (hab : a ≤ b)
    (hk : time a ≤ k) (hE : ∀ n y, a ≤ n → n < b → time n ≤ y → y < time (n + 1) → ¬ E y)
    (hex : ∃ y, k < y ∧ y < time (b + 1) ∧ E y) :
    ∃ y, k < y ∧ time b ≤ y ∧ y < time (b + 1) ∧ E y ∧ ∀ z, k < z → z < y → ¬ E z := by
  classical
  obtain ⟨h1, h2, h3⟩ := Nat.find_spec hex
  refine ⟨Nat.find hex, h1, Nat.le_of_not_lt fun hlt => ?_, h2, h3, fun z hz1 hz2 hz =>
    Nat.find_min hex hz2 ⟨hz1, Nat.lt_trans hz2 h2, hz⟩⟩
  obtain ⟨n, hn1, hn2, hn3, hn4⟩ := exists_segment hab (Nat.le_trans hk (Nat.le_of_lt h1)) hlt
  exact hE n _ hn1 hn2 hn3 hn4 h3

/-! ## Putting segments together -/

section Glue
variable {es : Nat → List ε}

/-- The segment a time falls into, and how far. -/
def position (es : Nat → List ε) : Nat → Nat × Nat
  | 0 => (0, 0)
  | k + 1 =>
    let p := position es k
    if p.2 + 1 < (es p.1).length then (p.1, p.2 + 1) else (p.1 + 1, 0)

/-- When a segment begins. -/
def beginning (es : Nat → List ε) : Nat → Nat
  | 0 => 0
  | n + 1 => beginning es n + (es n).length

theorem position_lt (hne : ∀ n, es n ≠ []) (k : Nat) :
    (position es k).2 < (es (position es k).1).length := by
  induction k with
  | zero => exact List.length_pos_of_ne_nil (hne 0)
  | succ k ih =>
    simp only [position]
    split_ifs with h
    · exact h
    · exact List.length_pos_of_ne_nil (hne _)

theorem position_beginning (hne : ∀ n, es n ≠ []) (n : Nat) :
    ∀ j, j < (es n).length → position es (beginning es n + j) = (n, j) := by
  have hstep : ∀ n, position es (beginning es n) = (n, 0) → ∀ j, j < (es n).length →
      position es (beginning es n + j) = (n, j) := by
    intro n h0 j hj
    induction j with
    | zero => exact h0
    | succ j ih =>
      have hpos := ih (Nat.lt_of_succ_lt hj)
      rw [← Nat.add_assoc, position, hpos]
      exact if_pos hj
  induction n with
  | zero => exact hstep 0 rfl
  | succ n ih =>
    refine hstep (n + 1) ?_
    have hpos := List.length_pos_of_ne_nil (hne n)
    have hlast := ih ((es n).length - 1) (by omega)
    have hadd : beginning es n + (es n).length = beginning es n + ((es n).length - 1) + 1 := by
      omega
    rw [beginning, hadd, position, hlast]
    exact if_neg (show ¬ (es n).length - 1 + 1 < (es n).length by omega)

end Glue

/-- A run in segments: from each state that `P n` holds of, a path of `R n` leads to one that
`P (n + 1)` holds of. -/
theorem exists_run {R : Nat → ε → σ → σ → Prop} {P : Nat → σ → Prop} {Q : Nat → List ε → Prop}
    {s : σ} (h0 : P 0 s)
    (hstep : ∀ n s, P n s → ∃ es s', es ≠ [] ∧ Q n es ∧ Path (R n) s es s' ∧ P (n + 1) s') :
    ∃ (state : Nat → σ) (event : Nat → ε) (time : Nat → Nat), state (time 0) = s ∧ time 0 = 0 ∧
      ∀ n, time n < time (n + 1) ∧ P n (state (time n)) ∧
        Q n (slice event (time n) (time (n + 1))) ∧
        ∀ k, time n ≤ k → k < time (n + 1) → R n (event k) (state k) (state (k + 1)) := by
  choose es s' hne hQ hpath hP using hstep
  -- the states in which the segments begin
  let start : (n : Nat) → { x : σ // P n x } := fun n =>
    Nat.rec ⟨s, h0⟩ (fun n x => ⟨s' n x.1 x.2, hP n x.1 x.2⟩) n
  let labels : Nat → List ε := fun n => es n (start n).1 (start n).2
  have hne' : ∀ n, labels n ≠ [] := fun n => hne n _ _
  have hstates : ∀ n, ∃ f : Nat → σ, f 0 = (start n).1 ∧ f (labels n).length = (start (n + 1)).1 ∧
      ∀ j (hj : j < (labels n).length), R n (labels n)[j] (f j) (f (j + 1)) := fun n =>
    (hpath n (start n).1 (start n).2).exists_states
  choose f hf0 hfend hfstep using hstates
  let state : Nat → σ := fun k => f (position labels k).1 (position labels k).2
  let event : Nat → ε := fun k => (labels (position labels k).1).get ⟨_, position_lt hne' k⟩
  have hpos := position_beginning hne'
  have hlen : ∀ n, 0 < (labels n).length := fun n => List.length_pos_of_ne_nil (hne' n)
  have hbegin : ∀ n, state (beginning labels n) = (start n).1 := by
    intro n
    have h := hpos n 0 (hlen n)
    rw [Nat.add_zero] at h
    change f _ _ = _
    rw [h]
    exact hf0 n
  have hevent : ∀ n j (hj : j < (labels n).length),
      event (beginning labels n + j) = (labels n)[j] := by
    intro n j hj
    have h := hpos n j hj
    change (labels (position labels (beginning labels n + j)).1).get ⟨_, _⟩ = _
    simp only [h, List.get_eq_getElem]
  refine ⟨state, event, beginning labels, hbegin 0, rfl, fun n => ⟨?_, ?_, ?_, ?_⟩⟩
  · exact Nat.lt_add_of_pos_right (hlen n)
  · rw [hbegin]
    exact (start n).2
  · have hslice : slice event (beginning labels n) (beginning labels (n + 1)) = labels n := by
      refine List.ext_getElem ?_ fun j h1 h2 => ?_
      · simp [slice, beginning]
      · simp only [slice, List.getElem_map, List.getElem_range', Nat.one_mul]
        exact hevent n j h2
    rw [hslice]
    exact hQ n _ _
  · intro k h1 h2
    obtain ⟨j, rfl⟩ := Nat.exists_eq_add_of_le h1
    have hj : j < (labels n).length := Nat.lt_of_add_lt_add_left h2
    have hstate : state (beginning labels n + j) = f n j := by
      change f _ _ = _
      rw [hpos n j hj]
    have hnext : state (beginning labels n + j + 1) = f n (j + 1) := by
      by_cases hlast : j + 1 < (labels n).length
      · change f _ _ = _
        rw [Nat.add_assoc, hpos n (j + 1) hlast]
      · have hend : j + 1 = (labels n).length := by omega
        have hnext := hbegin (n + 1)
        rw [beginning, ← hend, ← Nat.add_assoc] at hnext
        rw [hnext, ← hfend n, hend]
    rw [hevent n j hj, hstate, hnext]
    exact hfstep n j hj

end Segments
