import Coconut.ByteMemory

/-!
# Memory laid out in fields

An on-disk structure is a list of fields, each some bytes at an offset.  When the fields
come in ascending order and do not meet, every one of them reads back as it was written,
whatever is written after it, and what lies between them is left alone.
-/
namespace Layout

/-- Some bytes at an offset. -/
structure Field where
  off : Nat
  bytes : List UInt8
  deriving DecidableEq

/-- The first address after the field. -/
def Field.stop (f : Field) : Nat := f.off + f.bytes.length

end Layout

/-- The memory holds the bytes of a field. -/
def Memory.Holds (m : Memory) (f : Layout.Field) : Prop :=
  ∀ i, i < f.bytes.length → m (f.off + i) = f.bytes.getD i 0

namespace Layout

/-- The low `k` bytes of `v`, little end first. -/
def leBytes : Nat → Nat → List UInt8
  | 0, _ => []
  | k + 1, v => UInt8.ofNat v :: leBytes k (v / 256)

/-- A word of `k` bytes. -/
def word (k off v : Nat) : Field := ⟨off, leBytes k v⟩

/-- The fields follow each other between `lo` and `hi`. -/
def Ascending : Nat → List Field → Nat → Prop
  | lo, [], hi => lo ≤ hi
  | lo, f :: fs, hi => lo ≤ f.off ∧ Ascending f.stop fs hi

instance : ∀ lo fs hi, Decidable (Ascending lo fs hi)
  | lo, [], hi => inferInstanceAs (Decidable (lo ≤ hi))
  | lo, f :: fs, hi =>
    have : Decidable (Ascending f.stop fs hi) := instDecidableAscending f.stop fs hi
    inferInstanceAs (Decidable (lo ≤ f.off ∧ Ascending f.stop fs hi))

/-- Store the fields one after the other. -/
def write (m : Memory) (fs : List Field) : Memory :=
  fs.foldl (fun m f => m.writeBytes f.off f.bytes) m

@[simp] theorem length_leBytes (k v : Nat) : (leBytes k v).length = k := by
  induction k generalizing v with
  | zero => rfl
  | succ k ih => rw [leBytes, List.length_cons, ih]

theorem getD_leBytes {k v i : Nat} (h : i < k) :
    ((leBytes k v).getD i 0).toNat = v / 256 ^ i % 256 := by
  induction k generalizing v i with
  | zero => cases h
  | succ k ih =>
    cases i with
    | zero => rw [Nat.pow_zero, Nat.div_one]; exact UInt8.toNat_ofNat'
    | succ i =>
      rw [leBytes, List.getD_cons_succ, ih (Nat.lt_of_succ_lt_succ h), Nat.div_div_eq_div_mul,
        Nat.pow_succ']

@[simp] theorem stop_word (k off v : Nat) : (word k off v).stop = off + k := by
  rw [Field.stop, word, length_leBytes]

section
variable {m : Memory} {fs gs : List Field} {f : Field} {lo mid mid' hi x : Nat}

theorem write_append : write m (fs ++ gs) = write (write m fs) gs := List.foldl_append

theorem Ascending.le (h : Ascending lo fs hi) : lo ≤ hi := by
  induction fs generalizing lo with
  | nil => exact h
  | cons f fs ih =>
    have := ih h.2
    have := h.1
    unfold Field.stop at *
    omega

theorem Ascending.mono (h : Ascending lo fs hi) (hlo : mid ≤ lo) (hhi : hi ≤ mid') :
    Ascending mid fs mid' := by
  induction fs generalizing lo mid with
  | nil => exact Nat.le_trans hlo (Nat.le_trans h hhi)
  | cons f fs ih => exact ⟨Nat.le_trans hlo h.1, ih h.2 (Nat.le_refl _)⟩

theorem Ascending.append (h : Ascending lo fs mid) (h' : Ascending mid gs hi) :
    Ascending lo (fs ++ gs) hi := by
  induction fs generalizing lo with
  | nil => exact h'.mono h (Nat.le_refl _)
  | cons f fs ih => exact ⟨h.1, ih h.2⟩

theorem Ascending.bounds (h : Ascending lo fs hi) (hf : f ∈ fs) : lo ≤ f.off ∧ f.stop ≤ hi := by
  induction fs generalizing lo with
  | nil => cases hf
  | cons g fs ih =>
    rcases List.mem_cons.mp hf with rfl | hf
    · exact ⟨h.1, h.2.le⟩
    · have hg := ih h.2 hf
      have := h.1
      unfold Field.stop at *
      omega

/-- Fields at a fixed distance from each other. -/
theorem ascending_map_range {g : Nat → Field} {a d s n : Nat} (hoff : ∀ i, (g i).off = a + i * d)
    (hlen : ∀ i, (g i).bytes.length ≤ d) :
    Ascending (a + s * d) ((List.range' s n).map g) (a + (s + n) * d) := by
  induction n generalizing s with
  | zero => exact Nat.le_refl _
  | succ n ih =>
    refine ⟨Nat.le_of_eq (hoff s).symm, ?_⟩
    have hstop : (g s).stop ≤ a + (s + 1) * d := by
      have := hlen s
      rw [Field.stop, hoff s, Nat.succ_mul]
      omega
    rw [show s + (n + 1) = s + 1 + n by omega]
    exact ih.mono hstop (Nat.le_refl _)

/-- Outside their range the fields change nothing. -/
theorem write_of_outside (h : Ascending lo fs hi) (hx : x < lo ∨ hi ≤ x) : write m fs x = m x := by
  induction fs generalizing m lo with
  | nil => rfl
  | cons f fs ih =>
    have hle := h.2.le
    have hstart := h.1
    refine (ih h.2 ?_).trans (m.writeBytes_of_not_mem ?_)
    · unfold Field.stop at *
      omega
    · unfold Field.stop at *
      omega

/-- A field holds what was written there. -/
theorem holds_write (h : Ascending lo fs hi) (hf : f ∈ fs) : (write m fs).Holds f := by
  intro i hlt
  induction fs generalizing m lo with
  | nil => cases hf
  | cons g fs ih =>
    rcases List.mem_cons.mp hf with rfl | hf
    · refine (write_of_outside h.2 (Or.inl (Nat.add_lt_add_left hlt _))).trans ?_
      refine (if_pos ⟨Nat.le_add_right _ _, Nat.add_lt_add_left hlt _⟩).trans ?_
      rw [Nat.add_sub_cancel_left]
    · exact ih h.2 hf

end
end Layout

namespace Memory.Holds
open Layout
variable {m m' : Memory} {f : Field} {k off v : Nat}

theorem congr (h : m.Holds f) (hsame : ∀ x, f.off ≤ x → x < f.stop → m' x = m x) : m'.Holds f := by
  intro i hlt
  rw [hsame _ (Nat.le_add_right _ _) (Nat.add_lt_add_left hlt _)]
  exact h i hlt

theorem readLE (h : m.Holds (word k off v)) : m.readLE off k = v % 256 ^ k := by
  refine readLE_of_digits fun i hlt => ?_
  have hbyte := h i (show i < (leBytes k v).length by rwa [length_leBytes])
  rw [show m (off + i) = _ from hbyte]
  exact getD_leBytes hlt

theorem readBytes (h : m.Holds f) : m.readBytes f.off f.bytes.length = f.bytes := by
  refine List.ext_getElem? fun k => ?_
  by_cases hk : k < f.bytes.length
  · rw [getElem?_readBytes _ hk, h k hk, List.getD_eq_getElem?_getD, List.getElem?_eq_getElem hk,
      Option.getD_some]
  · rw [List.getElem?_eq_none (by rw [length_readBytes]; omega), List.getElem?_eq_none (by omega)]

end Memory.Holds
