import Coconut.Stores
import Coconut.Vmm

/-!
# Copies through page tables

The byte loops of the syscalls that follow a user pointer.  Where the pages are mapped
they do not fault; what they read are the bytes that user code would read there; what they
write is confined to pages the caller maps writable, and can be read back.
-/
namespace Coconut
open Paging

variable {isRam : Nat → Prop} {own : Owners Nat} {m m' : Memory} {t root virt n : Nat}

/-- The byte that user code reads at `virt`. -/
def byteAt (m : Memory) (root virt : Nat) : Option UInt8 :=
  (walk m root virt).map fun leaf => m leaf.phys

/-! ## Reading -/

theorem loadByte_eq_ok {b : UInt8} (h : loadByte m root virt = .ok b) : byteAt m root virt = some b := by
  unfold loadByte at h
  unfold byteAt
  split at h
  · rename_i leaf hleaf
    obtain rfl := Except.ok.inj h
    rw [hleaf]
    rfl
  · cases h

theorem copyIn_length {bytes : List UInt8} (h : copyIn m root virt n = .ok bytes) :
    bytes.length = n := by
  induction n generalizing virt bytes with
  | zero =>
    obtain rfl := Except.ok.inj h
    rfl
  | succ n ih =>
    obtain ⟨b, -, h⟩ := Kernel.bind_eq_ok h
    obtain ⟨bs, hbs, h⟩ := Kernel.bind_eq_ok h
    obtain rfl := Except.ok.inj h
    rw [List.length_cons, ih hbs]

/-- The bytes read are those of the buffer. -/
theorem copyIn_getElem {bytes : List UInt8} {k : Nat} (h : copyIn m root virt n = .ok bytes)
    (hk : k < n) : byteAt m root (virt + k) = bytes[k]? := by
  induction n generalizing virt bytes k with
  | zero => exact absurd hk (Nat.not_lt_zero k)
  | succ n ih =>
    obtain ⟨b, hb, h⟩ := Kernel.bind_eq_ok h
    obtain ⟨bs, hbs, h⟩ := Kernel.bind_eq_ok h
    obtain rfl := Except.ok.inj h
    cases k with
    | zero => exact loadByte_eq_ok hb
    | succ k =>
      rw [show virt + (k + 1) = virt + 1 + k by omega, List.getElem?_cons_succ]
      exact ih hbs (Nat.lt_of_succ_lt_succ hk)

/-! ## Writing -/

theorem storeByte_eq_ok {b : UInt8} (h : storeByte m root virt b = .ok m') : ∃ leaf,
    walk m root virt = some leaf ∧ leaf.writable = true ∧
      m' = fun x => if x = leaf.phys then b else m x := by
  unfold storeByte at h
  split at h
  · rename_i leaf hleaf
    split at h
    · exact ⟨leaf, hleaf, ‹_›, (Except.ok.inj h).symm⟩
    · cases h
  · cases h

theorem storeByte_touches (isRam : Nat → Prop) {b : UInt8} (hv : virt < 0x800000000000)
    (h : storeByte m root virt b = .ok m') : Touches isRam root m m' := by
  obtain ⟨leaf, hleaf, hw, rfl⟩ := storeByte_eq_ok h
  exact Touches.store b hv hleaf hw

/-- Every byte of `[virt, virt + n)` is mapped writable to memory. -/
def WritableRam (isRam : Nat → Prop) (m : Memory) (root virt n : Nat) : Prop :=
  ∀ a, virt ≤ a → a < virt + n → ∃ leaf, walk m root a = some leaf ∧ leaf.writable = true ∧
    isRam (Memory.frameOf leaf.phys)

section Copy
variable (hroot : own root = some (.node t 4 0)) {bytes : List UInt8}
include hroot

theorem copyOut_touches (h : TablesOk own isRam m) (hv : virt + bytes.length ≤ 0x800000000000)
    (hc : copyOut m root virt bytes = .ok m') : Touches isRam root m m' := by
  induction bytes generalizing virt m with
  | nil =>
    obtain rfl := Except.ok.inj hc
    exact Touches.refl _ _ _
  | cons b bytes ih =>
    obtain ⟨m₁, hstore, hc⟩ := Kernel.bind_eq_ok hc
    rw [List.length_cons] at hv
    have ht := storeByte_touches isRam (by omega) hstore
    exact h.touches_trans hroot ht (ih (h.touch hroot ht) (by omega) hc)

theorem WritableRam.touch (h : TablesOk own isRam m) (hv : virt + n ≤ 0x800000000000)
    (ht : Touches isRam root m m') (hw : WritableRam isRam m root virt n) :
    WritableRam isRam m' root virt n := by
  intro a h1 h2
  obtain ⟨leaf, hleaf, hp, hram⟩ := hw a h1 h2
  exact ⟨leaf, by rw [h.walk_touch hroot ht hroot (by omega), hleaf], hp, hram⟩

theorem copyOut_eq_ok (h : TablesOk own isRam m) (hv : virt + bytes.length ≤ 0x800000000000)
    (hw : WritableRam isRam m root virt bytes.length) : ∃ m', copyOut m root virt bytes = .ok m' := by
  induction bytes generalizing virt m with
  | nil => exact ⟨m, rfl⟩
  | cons b bytes ih =>
    rw [List.length_cons] at hv hw
    obtain ⟨leaf, hleaf, hp, -⟩ := hw virt (Nat.le_refl _) (by omega)
    have hstore : storeByte m root virt b = .ok fun x => if x = leaf.phys then b else m x := by
      rw [storeByte, hleaf]
      exact if_pos hp
    have ht := storeByte_touches isRam (by omega) hstore
    have hrest : WritableRam isRam m root (virt + 1) bytes.length :=
      fun a h1 h2 => hw a (by omega) (by omega)
    obtain ⟨m', hm'⟩ := ih (h.touch hroot ht) (by omega) (hrest.touch hroot h (by omega) ht)
    exact ⟨m', by rw [copyOut, hstore, Kernel.ok_bind, hm']⟩

/-- A copy leaves the other bytes of the address space as they were. -/
theorem copyOut_other (h : TablesOk own isRam m) (hv : virt + bytes.length ≤ 0x800000000000)
    (hc : copyOut m root virt bytes = .ok m') {a : Nat} {l : Leaf} (ha : a < 0x800000000000)
    (hout : a < virt ∨ virt + bytes.length ≤ a) (hl : walk m root a = some l)
    (hram : isRam (Memory.frameOf l.phys)) : m' l.phys = m l.phys := by
  induction bytes generalizing virt m with
  | nil =>
    obtain rfl := Except.ok.inj hc
    rfl
  | cons b bytes ih =>
    obtain ⟨m₁, hstore, hc⟩ := Kernel.bind_eq_ok hc
    rw [List.length_cons] at hv hout
    have ht := storeByte_touches isRam (by omega) hstore
    have hrest := ih (h.touch hroot ht) (by omega) hc (by omega)
      (by rw [h.walk_touch hroot ht hroot ha, hl])
    obtain ⟨leaf, hleaf, -, rfl⟩ := storeByte_eq_ok hstore
    rw [hrest]
    refine if_neg fun he => ?_
    have := h.walk_inj hroot ha (by omega) hl hleaf hram he
    omega

/-- **What was copied can be read back.** -/
theorem copyOut_getElem (h : TablesOk own isRam m) (hv : virt + bytes.length ≤ 0x800000000000)
    (hw : WritableRam isRam m root virt bytes.length) (hc : copyOut m root virt bytes = .ok m')
    {k : Nat} (hk : k < bytes.length) : byteAt m' root (virt + k) = bytes[k]? := by
  induction bytes generalizing virt m k with
  | nil => exact absurd hk (Nat.not_lt_zero k)
  | cons b bytes ih =>
    obtain ⟨m₁, hstore, hc⟩ := Kernel.bind_eq_ok hc
    rw [List.length_cons] at hv hw hk
    have ht := storeByte_touches isRam (by omega) hstore
    have h₁ := h.touch hroot ht
    cases k with
    | zero =>
      -- the bytes behind it are stored elsewhere
      obtain ⟨leaf, hleaf, -, hram⟩ := hw virt (Nat.le_refl _) (by omega)
      have hleaf₁ : walk m₁ root virt = some leaf := by
        rw [h.walk_touch hroot ht hroot (by omega), hleaf]
      have hkeep := copyOut_other hroot h₁ (by omega) hc (by omega) (Or.inl (Nat.lt_succ_self virt))
        hleaf₁ hram
      have ht' := copyOut_touches hroot h₁ (by omega) hc
      rw [byteAt, Nat.add_zero, h₁.walk_touch hroot ht' hroot (by omega), hleaf₁, Option.map_some,
        hkeep]
      obtain ⟨leaf', hleaf', -, rfl⟩ := storeByte_eq_ok hstore
      obtain rfl := Option.some.inj (hleaf.symm.trans hleaf')
      exact congrArg some (if_pos rfl)
    | succ k =>
      have hrest : WritableRam isRam m root (virt + 1) bytes.length :=
        fun a h1 h2 => hw a (by omega) (by omega)
      rw [show virt + (k + 1) = virt + 1 + k by omega, List.getElem?_cons_succ]
      exact ih h₁ (by omega) (hrest.touch hroot h (by omega) ht) hc (Nat.lt_of_succ_lt_succ hk)

end Copy
end Coconut
