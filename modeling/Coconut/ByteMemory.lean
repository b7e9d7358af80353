import Mathlib.Tactic.Common
import Mathlib.Data.Nat.ModEq

/-!
# Byte-addressed memory, cut into frames

A memory is a function from physical addresses to bytes.  Words are stored little
end first (`readLE`, `writeLE`), blocks are filled or copied as a whole (`fill`,
`writeBytes`), and the memory is cut into frames of 4096 bytes (`frameOf`).

What a program that keeps its data in frames needs to know of a write is which
frame it falls in: `SameFrame m m' f` says that `m'` holds in frame `f` what `m`
held there, and every write has a lemma that gives it for the other frames.
-/

/-- Physical memory: a byte at every address. -/
abbrev Memory := Nat → UInt8

namespace Memory

/-- `k` bytes at `a`, little end first. -/
def readLE (m : Memory) : Nat → Nat → Nat
  | _, 0 => 0
  | a, k + 1 => (m a).toNat + 256 * readLE m (a + 1) k

/-- Store the low `k` bytes of `v` at `a`, little end first. -/
def writeLE (m : Memory) (a k v : Nat) : Memory :=
  fun x => if a ≤ x ∧ x < a + k then UInt8.ofNat (v / 256 ^ (x - a)) else m x

/-- Set the `n` bytes at `a` to `b`. -/
def fill (m : Memory) (a n : Nat) (b : UInt8) : Memory :=
  fun x => if a ≤ x ∧ x < a + n then b else m x

/-- Store a block of bytes at `a`. -/
def writeBytes (m : Memory) (a : Nat) (bs : List UInt8) : Memory :=
  fun x => if a ≤ x ∧ x < a + bs.length then bs.getD (x - a) 0 else m x

/-- The `n` bytes at `a`. -/
def readBytes (m : Memory) : Nat → Nat → List UInt8
  | _, 0 => []
  | a, n + 1 => m a :: readBytes m (a + 1) n

/-- The `n` bytes at `a` copied to `b`. -/
def copy (m : Memory) (a b n : Nat) : Memory :=
  fun x => if b ≤ x ∧ x < b + n then m (a + (x - b)) else m x

/-- A 64-bit word. -/
def readU64 (m : Memory) (a : Nat) : Nat := m.readLE a 8

/-- Store a 64-bit word. -/
def writeU64 (m : Memory) (a v : Nat) : Memory := m.writeLE a 8 v

/-- The frame an address lies in, named by its first address. -/
def frameOf (a : Nat) : Nat := a / 4096 * 4096

/-- `m'` holds in frame `f` what `m` held there. -/
def SameFrame (m m' : Memory) (f : Nat) : Prop := ∀ a, frameOf a = f → m' a = m a

/-! ## Frames -/

theorem frameOf_le (a : Nat) : frameOf a ≤ a := Nat.div_mul_le_self a 4096

theorem lt_frameOf (a : Nat) : a < frameOf a + 4096 := by unfold frameOf; omega

@[simp] theorem frameOf_mod (a : Nat) : frameOf a % 4096 = 0 := Nat.mul_mod_left _ _

/-- An address inside the frame that starts at `f`. -/
theorem frameOf_eq {f a : Nat} (hf : f % 4096 = 0) (h1 : f ≤ a) (h2 : a < f + 4096) :
    frameOf a = f := by
  unfold frameOf; omega

theorem frameOf_add {f o : Nat} (hf : f % 4096 = 0) (ho : o < 4096) : frameOf (f + o) = f :=
  frameOf_eq hf (by omega) (by omega)

@[simp] theorem frameOf_self {f : Nat} (hf : f % 4096 = 0) : frameOf f = f :=
  frameOf_eq hf (Nat.le_refl _) (by omega)

theorem SameFrame.refl (m : Memory) (f : Nat) : SameFrame m m f := fun _ _ => rfl

theorem SameFrame.trans {m m' m'' : Memory} {f : Nat} (h : SameFrame m m' f)
    (h' : SameFrame m' m'' f) : SameFrame m m'' f :=
  fun a ha => (h' a ha).trans (h a ha)

/-! ## Words -/

/-- A word read in two places that hold the same bytes. -/
theorem readLE_shift {m m' : Memory} {a b k : Nat} (h : ∀ j, j < k → m' (a + j) = m (b + j)) :
    m'.readLE a k = m.readLE b k := by
  induction k generalizing a b with
  | zero => rfl
  | succ k ih =>
    have hrest : m'.readLE (a + 1) k = m.readLE (b + 1) k := ih fun j hj => by
      have := h (j + 1) (by omega)
      rwa [Nat.add_comm j 1, ← Nat.add_assoc, ← Nat.add_assoc] at this
    rw [readLE, readLE, hrest, show m' a = m b from h 0 (by omega)]

theorem readLE_congr {m m' : Memory} {a k : Nat} (h : ∀ x, a ≤ x → x < a + k → m' x = m x) :
    m'.readLE a k = m.readLE a k :=
  readLE_shift fun j hj => h (a + j) (by omega) (by omega)

/-- Bytes that are the digits of `v` read back as `v`. -/
theorem readLE_of_digits {m : Memory} {a k v : Nat}
    (h : ∀ i, i < k → (m (a + i)).toNat = v / 256 ^ i % 256) : m.readLE a k = v % 256 ^ k := by
  induction k generalizing a v with
  | zero => rw [readLE, Nat.pow_zero, Nat.mod_one]
  | succ k ih =>
    have h0 := h 0 (by omega)
    rw [Nat.add_zero, Nat.pow_zero, Nat.div_one] at h0
    have hrest : m.readLE (a + 1) k = v / 256 % 256 ^ k := by
      apply ih
      intro i hi
      rw [Nat.add_assoc, Nat.add_comm 1 i, h (i + 1) (by omega), Nat.pow_succ,
        Nat.mul_comm, Nat.div_div_eq_div_mul]
    rw [readLE, h0, hrest, Nat.pow_succ, Nat.mul_comm (256 ^ k), Nat.mod_mul]

theorem readLE_writeLE (m : Memory) (a k v : Nat) :
    (m.writeLE a k v).readLE a k = v % 256 ^ k := by
  apply readLE_of_digits
  intro i hi
  rw [writeLE, if_pos ⟨by omega, by omega⟩, Nat.add_sub_cancel_left, UInt8.toNat_ofNat']

theorem readLE_lt (m : Memory) (a k : Nat) : m.readLE a k < 256 ^ k := by
  induction k generalizing a with
  | zero => exact Nat.one_pos
  | succ k ih =>
    have h1 := ih (a + 1)
    have h2 := (m a).toNat_lt
    rw [readLE, Nat.pow_succ]
    omega

theorem readU64_lt (m : Memory) (a : Nat) : m.readU64 a < 2 ^ 64 := m.readLE_lt a 8

theorem readU64_writeU64 (m : Memory) {a v : Nat} (hv : v < 2 ^ 64) :
    (m.writeU64 a v).readU64 a = v := by
  have h := m.readLE_writeLE a 8 v
  rw [show (256 : Nat) ^ 8 = 2 ^ 64 from rfl, Nat.mod_eq_of_lt hv] at h
  exact h

theorem writeLE_of_not_mem (m : Memory) {a k v x : Nat} (h : x < a ∨ a + k ≤ x) :
    m.writeLE a k v x = m x := if_neg (by omega)

/-- Words that do not overlap do not disturb each other. -/
theorem readLE_writeLE_of_disjoint (m : Memory) {a b j k v : Nat} (h : a + k ≤ b ∨ b + j ≤ a) :
    (m.writeLE a k v).readLE b j = m.readLE b j :=
  readLE_congr fun _ h1 h2 => m.writeLE_of_not_mem (by omega)

theorem readU64_writeU64_of_disjoint (m : Memory) {a b v : Nat} (h : a + 8 ≤ b ∨ b + 8 ≤ a) :
    (m.writeU64 a v).readU64 b = m.readU64 b := m.readLE_writeLE_of_disjoint h

/-- A word lying in a frame reads the same once the frame does. -/
theorem SameFrame.readU64 {m m' : Memory} {f a : Nat} (h : SameFrame m m' f)
    (hf : f % 4096 = 0) (h1 : f ≤ a) (h2 : a + 8 ≤ f + 4096) : m'.readU64 a = m.readU64 a :=
  readLE_congr fun x h3 h4 => h x (frameOf_eq hf (by omega) (by omega))

/-- A word store inside frame `f` leaves every other frame alone. -/
theorem writeLE_sameFrame (m : Memory) {f a k v g : Nat} (hf : f % 4096 = 0) (h1 : f ≤ a)
    (h2 : a + k ≤ f + 4096) (hg : g ≠ f) : SameFrame m (m.writeLE a k v) g := by
  intro x hx
  apply writeLE_of_not_mem
  by_contra hc
  exact hg (hx.symm.trans (frameOf_eq hf (by omega) (by omega)))

/-! ## Blocks -/

theorem length_readBytes (m : Memory) (a n : Nat) : (m.readBytes a n).length = n := by
  induction n generalizing a with
  | zero => rfl
  | succ n ih => rw [readBytes, List.length_cons, ih]

theorem getElem?_readBytes (m : Memory) {a n k : Nat} (h : k < n) :
    (m.readBytes a n)[k]? = some (m (a + k)) := by
  induction n generalizing a k with
  | zero => cases h
  | succ n ih =>
    cases k with
    | zero => rfl
    | succ k =>
      rw [readBytes, List.getElem?_cons_succ, ih (Nat.lt_of_succ_lt_succ h), Nat.add_right_comm]
      rfl

theorem fill_of_mem (m : Memory) {a n x : Nat} {b : UInt8} (h1 : a ≤ x) (h2 : x < a + n) :
    m.fill a n b x = b := if_pos ⟨h1, h2⟩

theorem fill_of_not_mem (m : Memory) {a n x : Nat} {b : UInt8} (h : x < a ∨ a + n ≤ x) :
    m.fill a n b x = m x := if_neg (by omega)

theorem fill_sameFrame (m : Memory) {f g : Nat} (b : UInt8) (hf : f % 4096 = 0) (hg : g ≠ f) :
    SameFrame m (m.fill f 4096 b) g := by
  intro x hx
  apply fill_of_not_mem
  by_contra hc
  exact hg (hx.symm.trans (frameOf_eq hf (by omega) (by omega)))

/-- A word of zero bytes. -/
theorem readLE_eq_zero {m : Memory} {a k : Nat} (h : ∀ x, a ≤ x → x < a + k → m x = 0) :
    m.readLE a k = 0 := by
  induction k generalizing a with
  | zero => rfl
  | succ k ih =>
    rw [readLE, h a (Nat.le_refl _) (by omega), ih fun x h1 h2 => h x (by omega) (by omega)]
    rfl

theorem readU64_fill_zero (m : Memory) {f a : Nat} (h1 : f ≤ a) (h2 : a + 8 ≤ f + 4096) :
    (m.fill f 4096 0).readU64 a = 0 :=
  readLE_eq_zero fun _ h3 h4 => m.fill_of_mem (by omega) (by omega)

theorem readBytes_writeBytes (m : Memory) {a n k : Nat} {bs : List UInt8} (hn : n ≤ bs.length)
    (hk : k < n) : ((m.writeBytes a bs).readBytes a n)[k]? = bs[k]? := by
  have hk' : k < bs.length := Nat.lt_of_lt_of_le hk hn
  rw [getElem?_readBytes _ hk, writeBytes, if_pos ⟨Nat.le_add_right a k, Nat.add_lt_add_left hk' a⟩,
    Nat.add_sub_cancel_left, List.getD_eq_getElem?_getD, List.getElem?_eq_getElem hk', Option.getD_some]

theorem readBytes_writeBytes_self (m : Memory) (a : Nat) (bs : List UInt8) :
    (m.writeBytes a bs).readBytes a bs.length = bs := by
  apply List.ext_getElem?
  intro k
  by_cases hk : k < bs.length
  · exact readBytes_writeBytes m (Nat.le_refl _) hk
  · rw [List.getElem?_eq_none (by rw [length_readBytes]; omega), List.getElem?_eq_none (by omega)]

theorem writeBytes_of_not_mem (m : Memory) {a x : Nat} {bs : List UInt8}
    (h : x < a ∨ a + bs.length ≤ x) : m.writeBytes a bs x = m x := if_neg (by omega)

theorem writeBytes_sameFrame (m : Memory) {f g : Nat} {bs : List UInt8} (hf : f % 4096 = 0)
    (hl : bs.length ≤ 4096) (hg : g ≠ f) : SameFrame m (m.writeBytes f bs) g := by
  intro x hx
  apply writeBytes_of_not_mem
  by_contra hc
  exact hg (hx.symm.trans (frameOf_eq hf (by omega) (by omega)))

theorem copy_zero (m : Memory) (a b : Nat) : m.copy a b 0 = m := by
  funext x
  exact if_neg (by omega)

/-- Copying the first byte and then the others, between ranges that do not meet. -/
theorem copy_succ (m : Memory) {a b n : Nat} (hd : a + (n + 1) ≤ b ∨ b + (n + 1) ≤ a) :
    copy (fun x => if x = b then m a else m x) (a + 1) (b + 1) n = m.copy a b (n + 1) := by
  funext x
  simp only [copy]
  by_cases hx : x = b
  · subst hx
    rw [if_neg (by omega), if_pos rfl, if_pos (by omega), Nat.sub_self, Nat.add_zero]
  · by_cases hin : b + 1 ≤ x ∧ x < b + 1 + n
    · rw [if_pos hin, if_neg (by omega), if_pos (by omega),
        show a + 1 + (x - (b + 1)) = a + (x - b) by omega]
    · rw [if_neg hin, if_neg hx, if_neg (by omega)]

end Memory
