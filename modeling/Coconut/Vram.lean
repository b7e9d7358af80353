import Coconut.ByteMemory
import Coconut.Scan
import Coconut.Shared

/-!
# The VRAM allocator of the GPU shard

`VramAllocator` of the runtime: a bump allocator whose header and table of allocations
lie in the first page of the VRAM it manages.

* header at `0x00`: magic, number of allocations, next offset, total size;
* table at `0x10`: up to 255 entries of 16 bytes: type, offset, size, reserved.

The model works on the bytes of the VRAM, addressed from the allocator's `base`.  A run
(`VramRun`) carries a ledger of the allocations made; `Tabled` says that the page holds the
ledger, and every result is read off it.
-/
namespace Coconut

namespace VramAllocator

@[simp] def allocMagic : Nat := 0x56414C4C
@[simp] def allocTableOffset : Nat := 0x10
@[simp] def allocEntrySize : Nat := 16
@[simp] def maxAllocEntries : Nat := 255
@[simp] def allocAlignment : Nat := 64

/-- Where table entry `i` lies. -/
def entryAddr (i : Nat) : Nat := allocTableOffset + i * allocEntrySize

/-- Initialize the allocator header. -/
def init (m : Memory) (totalSize : Nat) : Memory :=
  let m := m.writeLE 0 4 allocMagic
  let m := m.writeLE 4 4 0
  -- skip the allocator page
  let m := m.writeLE 8 4 0x1000
  m.writeLE 12 4 totalSize

/-- `(next + ALLOC_ALIGNMENT - 1) & !(ALLOC_ALIGNMENT - 1)`, on `u32`. -/
def alignNext (next : Nat) : Nat :=
  (next + (allocAlignment - 1)) % 2 ^ 32 &&& ((2 ^ 32 - 1) ^^^ (allocAlignment - 1))

/-- The writes of a successful allocation: the table entry, then the header. -/
def record (m : Memory) (allocType aligned size : Nat) : Memory :=
  let count := m.readLE 4 4
  let entry := entryAddr count
  let m := m.writeLE entry 4 allocType
  let m := m.writeLE (entry + 4) 4 aligned
  let m := m.writeLE (entry + 8) 4 size
  let m := m.writeLE (entry + 12) 4 0
  let m := m.writeLE 4 4 (count + 1)
  m.writeLE 8 4 (aligned + size)

/-- Allocate `size` bytes with a type tag. -/
def alloc (m : Memory) (allocType size : Nat) : Option Nat × Memory :=
  let aligned := alignNext (m.readLE 8 4)
  -- `aligned.checked_add(size)?`
  if 2 ^ 32 ≤ aligned + size then (none, m)
  else if m.readLE 12 4 < aligned + size then (none, m)
  else if maxAllocEntries ≤ m.readLE 4 4 then (none, m)
  else (some aligned, record m allocType aligned size)

/-- The loop that zeroes `n` qwords. -/
def zeroQwords (m : Memory) (dest : Nat) : Nat → Memory
  | 0 => m
  | q + 1 => (zeroQwords m dest q).writeLE (dest + q * 8) 8 0

/-- The first entry with the given offset. -/
def find (m : Memory) (offset : Nat) : Option Nat :=
  firstFrom (fun i => m.readLE (entryAddr i + 4) 4 == offset) (m.readLE 4 4) 0

/-- Free an allocation: mark its entry and zero the region. -/
def free (m : Memory) (offset : Nat) : Bool × Memory :=
  match find m offset with
  | none => (false, m)
  | some i =>
    let size := m.readLE (entryAddr i + 8) 4
    let m := m.writeLE (entryAddr i) 4 0
    (true, zeroQwords m offset (size / 8))

end VramAllocator

open VramAllocator

/-- An allocation: the offset returned for it and the size asked for. -/
structure VramAlloc where
  offset : Nat
  size : Nat

/-- The byte belongs to the allocation. -/
def VramAlloc.Owns (a : VramAlloc) (x : Nat) : Prop := a.offset ≤ x ∧ x < a.offset + a.size

/-- The VRAM and the allocations made, in order, after `init` and some calls; between the
calls the shard may write to any byte of an allocation. -/
inductive VramRun (total : Nat) : Memory → List VramAlloc → Prop
  | init (m : Memory) : VramRun total (VramAllocator.init m total) []
  | alloc {m : Memory} {l : List VramAlloc} (h : VramRun total m l) (allocType size : Nat)
      (hsize : size < 2 ^ 32) :
      VramRun total (VramAllocator.alloc m allocType size).2
        (l ++ ((VramAllocator.alloc m allocType size).1.map fun o => ⟨o, size⟩).toList)
  | free {m : Memory} {l : List VramAlloc} (h : VramRun total m l) (offset : Nat) :
      VramRun total (VramAllocator.free m offset).2 l
  | write {m : Memory} {l : List VramAlloc} (h : VramRun total m l) {a : VramAlloc} (ha : a ∈ l)
      {x : Nat} (hx : a.Owns x) (v : UInt8) : VramRun total (m.fill x 1 v) l

namespace VramAllocator

/-! ## One call -/

theorem alignNext_eq {next : Nat} (h : next + 63 < 2 ^ 32) :
    alignNext next = (next + 63) / 64 * 64 := by
  have hmod : (next + (allocAlignment - 1)) % 2 ^ 32 = next + 63 := Nat.mod_eq_of_lt h
  rw [alignNext, hmod]
  exact and_not_low (w := 32) (k := 6) h (by decide)

/-- Within one alignment of the end of `u32` the rounding wraps to zero. -/
theorem alignNext_wraps {next : Nat} (h : 0xFFFFFFC0 < next) (hlt : next < 2 ^ 32) :
    alignNext next = 0 := by
  have hmod : (next + (allocAlignment - 1)) % 2 ^ 32 < 2 ^ 6 := by
    simp only [allocAlignment]
    omega
  have hround := and_not_low (w := 32) (k := 6) (Nat.lt_trans hmod (by decide)) (by decide)
  rw [Nat.div_eq_of_lt hmod, Nat.zero_mul] at hround
  exact hround

/-- An allocation either changes nothing, or finds room and a free entry and records it. -/
theorem alloc_cases (m : Memory) (allocType size : Nat) :
    alloc m allocType size = (none, m) ∨
      alignNext (m.readLE 8 4) + size < 2 ^ 32 ∧
      alignNext (m.readLE 8 4) + size ≤ m.readLE 12 4 ∧ m.readLE 4 4 < maxAllocEntries ∧
      alloc m allocType size = (some (alignNext (m.readLE 8 4)),
        record m allocType (alignNext (m.readLE 8 4)) size) := by
  unfold alloc
  by_cases h1 : 2 ^ 32 ≤ alignNext (m.readLE 8 4) + size
  · exact Or.inl (if_pos h1)
  by_cases h2 : m.readLE 12 4 < alignNext (m.readLE 8 4) + size
  · exact Or.inl ((if_neg h1).trans (if_pos h2))
  by_cases h3 : maxAllocEntries ≤ m.readLE 4 4
  · exact Or.inl ((if_neg h1).trans ((if_neg h2).trans (if_pos h3)))
  · refine Or.inr ⟨by omega, by omega, by omega, ?_⟩
    exact (if_neg h1).trans ((if_neg h2).trans (if_neg h3))

theorem alloc_eq_some {m : Memory} {allocType size o : Nat} (ho : alignNext (m.readLE 8 4) = o)
    (hend : o + size < 2 ^ 32) (hfit : o + size ≤ m.readLE 12 4)
    (hroom : m.readLE 4 4 < maxAllocEntries) :
    alloc m allocType size = (some o, record m allocType o size) := by
  subst ho
  unfold alloc
  rw [if_neg (by omega), if_neg (by omega), if_neg (by omega)]

theorem init_header (m : Memory) {total : Nat} (ht : total < 2 ^ 32) :
    (init m total).readLE 4 4 = 0 ∧ (init m total).readLE 8 4 = 0x1000 ∧
      (init m total).readLE 12 4 = total := by
  unfold init
  simp (disch := omega) only [Memory.readLE_writeLE_of_disjoint, Memory.readLE_writeLE]
  omega

theorem zeroQwords_eq (m : Memory) (dest n : Nat) :
    zeroQwords m dest n = m.fill dest (n * 8) 0 := by
  induction n with
  | zero =>
    funext x
    exact (if_neg (by omega)).symm
  | succ n ih =>
    funext x
    rw [zeroQwords, ih]
    unfold Memory.writeLE Memory.fill
    by_cases h1 : dest + n * 8 ≤ x ∧ x < dest + n * 8 + 8
    · rw [if_pos h1, if_pos ⟨by omega, by omega⟩, Nat.zero_div]
      rfl
    · rw [if_neg h1]
      by_cases h2 : dest ≤ x ∧ x < dest + n * 8
      · rw [if_pos h2, if_pos ⟨by omega, by omega⟩]
      · rw [if_neg h2, if_neg (by omega)]

/-- The words of the allocator page that an allocation depends on. -/
structure SamePage (m m' : Memory) : Prop where
  header : ∀ x, x < 0x10 → m' x = m x
  entry : ∀ i x, 4 ≤ x → x < 12 → entryAddr i + x < 0x1000 → m' (entryAddr i + x) = m (entryAddr i + x)

theorem SamePage.header_word {m m' : Memory} (h : SamePage m m') {a : Nat} (ha : a + 4 ≤ 0x10) :
    m'.readLE a 4 = m.readLE a 4 :=
  Memory.readLE_congr fun x _ hx => h.header x (by omega)

theorem SamePage.entry_word {m m' : Memory} (h : SamePage m m') {i a : Nat} (hi : i < 255)
    (ha : 4 ≤ a) (ha' : a + 4 ≤ 12) :
    m'.readLE (entryAddr i + a) 4 = m.readLE (entryAddr i + a) 4 := by
  refine Memory.readLE_shift fun j hj => ?_
  rw [Nat.add_assoc]
  refine h.entry i (a + j) (by omega) (by omega) ?_
  simp only [entryAddr, allocTableOffset, allocEntrySize]
  omega

/-- The writes of an allocation stay in the page. -/
theorem record_of_ge {m : Memory} {allocType aligned size : Nat}
    (hc : m.readLE 4 4 < maxAllocEntries) {x : Nat} (hx : 0x1000 ≤ x) :
    record m allocType aligned size x = m x := by
  simp only [record, entryAddr, allocTableOffset, allocEntrySize, maxAllocEntries] at hc ⊢
  simp (disch := omega) only [Memory.writeLE_of_not_mem]

/-- The header after an allocation. -/
theorem record_header (m : Memory) (allocType aligned size : Nat)
    (hc : m.readLE 4 4 < maxAllocEntries) (hend : aligned + size < 2 ^ 32) :
    (record m allocType aligned size).readLE 4 4 = m.readLE 4 4 + 1 ∧
      (record m allocType aligned size).readLE 8 4 = aligned + size ∧
      (record m allocType aligned size).readLE 12 4 = m.readLE 12 4 := by
  simp only [record, entryAddr, allocTableOffset, allocEntrySize, maxAllocEntries] at hc ⊢
  simp (disch := omega) only [Memory.readLE_writeLE_of_disjoint, Memory.readLE_writeLE, and_true]
  omega

/-- The table after an allocation: one new entry. -/
theorem record_entry (m : Memory) (allocType aligned size : Nat)
    (hend : aligned + size < 2 ^ 32) (i : Nat) :
    (record m allocType aligned size).readLE (entryAddr i + 4) 4 =
        (if i = m.readLE 4 4 then aligned else m.readLE (entryAddr i + 4) 4) ∧
      (record m allocType aligned size).readLE (entryAddr i + 8) 4 =
        if i = m.readLE 4 4 then size else m.readLE (entryAddr i + 8) 4 := by
  simp only [record, entryAddr, allocTableOffset, allocEntrySize]
  by_cases hi : i = m.readLE 4 4
  · rw [if_pos hi, if_pos hi, hi]
    simp (disch := omega) only [Memory.readLE_writeLE_of_disjoint, Memory.readLE_writeLE]
    omega
  · rw [if_neg hi, if_neg hi]
    simp (disch := omega) only [Memory.readLE_writeLE_of_disjoint, and_self]

end VramAllocator

/-- The allocator page holds the ledger `l`, and the allocations of the ledger lie one
after the other in the managed range. -/
structure Tabled (total : Nat) (m : Memory) (l : List VramAlloc) : Prop where
  count : m.readLE 4 4 = l.length
  room : l.length ≤ maxAllocEntries
  totalSize : m.readLE 12 4 = total
  entry : ∀ i a, l[i]? = some a →
    m.readLE (entryAddr i + 4) 4 = a.offset ∧ m.readLE (entryAddr i + 8) 4 = a.size
  next_ge : 0x1000 ≤ m.readLE 8 4
  next_le : m.readLE 8 4 ≤ max total 0x1000
  below_next : ∀ a ∈ l, a.offset + a.size ≤ m.readLE 8 4
  bounds : ∀ a ∈ l, a.offset % 64 = 0 ∧ 0x1000 ≤ a.offset ∧ a.offset + a.size ≤ total
  sorted : l.Pairwise fun a b => a.offset + a.size ≤ b.offset

namespace Tabled

variable {total : Nat} {m m' : Memory} {l : List VramAlloc}

/-- Nothing of this is changed by a write that keeps the page. -/
theorem of_samePage (h : Tabled total m l) (hs : SamePage m m') : Tabled total m' l := by
  have h4 := hs.header_word (show 4 + 4 ≤ 0x10 by decide)
  have h8 := hs.header_word (show 8 + 4 ≤ 0x10 by decide)
  have h12 := hs.header_word (show 12 + 4 ≤ 0x10 by decide)
  refine ⟨h4.trans h.count, h.room, h12.trans h.totalSize, fun i a hi => ?_, h8 ▸ h.next_ge,
    h8 ▸ h.next_le, h8 ▸ h.below_next, h.bounds, h.sorted⟩
  have hlt : i < 255 := lt_of_lt_of_le (List.getElem?_eq_some_iff.mp hi).1 h.room
  rw [hs.entry_word hlt (by decide) (by decide), hs.entry_word hlt (by decide) (by decide)]
  exact h.entry i a hi

theorem init (m : Memory) (ht : total < 2 ^ 32) : Tabled total (VramAllocator.init m total) [] := by
  obtain ⟨h4, h8, h12⟩ := init_header m ht
  refine ⟨h4, Nat.zero_le _, h12, nofun, by omega, by omega, nofun, nofun, List.Pairwise.nil⟩

/-- The next offset is rounded up, unless that wraps to zero. -/
theorem alignNext_cases (h : Tabled total m l) (hlt : total < 2 ^ 32) :
    alignNext (m.readLE 8 4) = (m.readLE 8 4 + 63) / 64 * 64 ∨
      0xFFFFFFC0 < total ∧ alignNext (m.readLE 8 4) = 0 := by
  have hge := h.next_ge
  have hle := h.next_le
  rcases Nat.lt_or_ge 0xFFFFFFC0 (m.readLE 8 4) with hgt | hsmall
  · exact Or.inr ⟨by omega, alignNext_wraps hgt (by omega)⟩
  · exact Or.inl (alignNext_eq (by omega))

theorem alloc (h : Tabled total m l) (hlt : total < 2 ^ 32) (allocType size : Nat)
    (hw : (VramAllocator.alloc m allocType size).1 ≠ some 0) :
    Tabled total (VramAllocator.alloc m allocType size).2
      (l ++ ((VramAllocator.alloc m allocType size).1.map fun o => ⟨o, size⟩).toList) := by
  rcases alloc_cases m allocType size with he | ⟨hend, hfit, hroom, he⟩
  · rw [he]
    simpa using h
  · have hge := h.next_ge
    have hle := h.next_le
    have halign : alignNext (m.readLE 8 4) = (m.readLE 8 4 + 63) / 64 * 64 := by
      rcases h.alignNext_cases hlt with halign | ⟨-, hzero⟩
      · exact halign
      · exact absurd (by rw [he, hzero]) hw
    obtain ⟨h4, h8, h12⟩ := record_header m allocType _ size hroom hend
    rw [h.totalSize] at hfit h12
    rw [he]
    change Tabled total (record m allocType (alignNext (m.readLE 8 4)) size)
      (l ++ [⟨alignNext (m.readLE 8 4), size⟩])
    generalize alignNext (m.readLE 8 4) = o at *
    refine ⟨?_, ?_, h12, fun i a hi => ?_, by omega, by omega, fun a ha => ?_, fun a ha => ?_, ?_⟩
    · rw [h4, h.count, List.length_append, List.length_singleton]
    · rw [List.length_append, List.length_singleton, ← h.count]
      exact hroom
    · obtain ⟨ho, hs⟩ := record_entry m allocType o size hend i
      rw [ho, hs, h.count]
      rcases lt_trichotomy i l.length with hlt | rfl | hgt
      · rw [List.getElem?_append_left hlt] at hi
        rw [if_neg hlt.ne, if_neg hlt.ne]
        exact h.entry i a hi
      · rw [List.getElem?_concat_length] at hi
        obtain rfl := Option.some.inj hi
        exact ⟨if_pos rfl, if_pos rfl⟩
      · rw [List.getElem?_eq_none (by simp; omega)] at hi
        cases hi
    · rw [h8]
      rcases List.mem_append.mp ha with ha | ha
      · exact (h.below_next a ha).trans (by omega)
      · obtain rfl := List.mem_singleton.mp ha
        exact le_refl _
    · rcases List.mem_append.mp ha with ha | ha
      · exact h.bounds a ha
      · obtain rfl := List.mem_singleton.mp ha
        exact ⟨by simp only; omega, by simp only; omega, hfit⟩
    · refine List.pairwise_append.mpr ⟨h.sorted, List.pairwise_singleton _ _, fun a ha b hb => ?_⟩
      obtain rfl := List.mem_singleton.mp hb
      exact (h.below_next a ha).trans (by simp only; omega)

/-- A free either finds no allocation at the offset and changes nothing, or takes the first
one there. -/
theorem free_cases (h : Tabled total m l) (offset : Nat) :
    ((∀ a ∈ l, a.offset ≠ offset) ∧ VramAllocator.free m offset = (false, m)) ∨
      ∃ i a, l[i]? = some a ∧ a.offset = offset ∧
        (∀ j b, l[j]? = some b → b.offset = offset → i ≤ j) ∧
        VramAllocator.free m offset =
          (true, (m.writeLE (entryAddr i) 4 0).fill offset (a.size / 8 * 8) 0) := by
  unfold VramAllocator.free
  cases hf : find m offset with
  | none =>
    refine Or.inl ⟨fun a ha hoff => ?_, rfl⟩
    obtain ⟨i, hi⟩ := List.mem_iff_getElem?.mp ha
    have hlt := (List.getElem?_eq_some_iff.mp hi).1
    have hmiss := firstFrom_eq_none.mp hf i (Nat.zero_le _) (by rw [h.count]; omega)
    rw [(h.entry i a hi).1, hoff] at hmiss
    simp at hmiss
  | some i =>
    obtain ⟨-, hlt, hhit, hfirst⟩ := firstFrom_eq_some.mp hf
    rw [h.count, Nat.zero_add] at hlt
    have hi : l[i]? = some l[i] := List.getElem?_eq_getElem hlt
    obtain ⟨hoff, hsize⟩ := h.entry i _ hi
    refine Or.inr ⟨i, l[i], hi, ?_, fun j b hj hb => ?_, ?_⟩
    · rw [← hoff]
      simpa using hhit
    · by_contra hji
      have hmiss := hfirst j (Nat.zero_le _) (by omega)
      rw [(h.entry j b hj).1, hb] at hmiss
      simp at hmiss
    · simp only [hsize, zeroQwords_eq]

theorem owned_ge (h : Tabled total m l) {a : VramAlloc} (ha : a ∈ l) {x : Nat} (hx : a.Owns x) :
    0x1000 ≤ x := (h.bounds a ha).2.1.trans hx.1

theorem free (h : Tabled total m l) (offset : Nat) :
    Tabled total (VramAllocator.free m offset).2 l := by
  rcases h.free_cases offset with ⟨-, he⟩ | ⟨i, a, hi, rfl, -, he⟩
  · rwa [he]
  · have hge := (h.bounds a (List.mem_of_getElem? hi)).2.1
    rw [show (VramAllocator.free m a.offset).2 = _ from congrArg Prod.snd he]
    refine h.of_samePage ⟨fun x hx => ?_, fun j x h1 h2 h3 => ?_⟩
    · refine (Memory.fill_of_not_mem _ (by omega)).trans ?_
      refine Memory.writeLE_of_not_mem _ (Or.inl (lt_of_lt_of_le hx ?_))
      exact Nat.le_add_right _ _
    · refine (Memory.fill_of_not_mem _ (by omega)).trans ?_
      refine Memory.writeLE_of_not_mem _ ?_
      simp only [entryAddr, allocTableOffset, allocEntrySize] at *
      omega

theorem write (h : Tabled total m l) {a : VramAlloc} (ha : a ∈ l) {x : Nat} (hx : a.Owns x)
    (v : UInt8) : Tabled total (m.fill x 1 v) l := by
  have hge := h.owned_ge ha hx
  refine h.of_samePage ⟨fun y hy => ?_, fun j y _ _ hy => ?_⟩
  · exact Memory.fill_of_not_mem _ (by omega)
  · exact Memory.fill_of_not_mem _ (by omega)

end Tabled

/-- The page holds the ledger after every run in which no allocation has wrapped to the
allocator page. -/
theorem VramRun.tabled {total : Nat} (hlt : total < 2 ^ 32) {m : Memory} {l : List VramAlloc}
    (h : VramRun total m l) (hw : ∀ a ∈ l, a.offset ≠ 0) : Tabled total m l := by
  induction h with
  | init m => exact Tabled.init m hlt
  | alloc _ allocType size _ ih =>
    refine (ih fun a ha => hw a (List.mem_append_left _ ha)).alloc hlt allocType size fun hzero => ?_
    refine hw ⟨0, size⟩ (List.mem_append_right _ ?_) rfl
    rw [hzero]
    exact List.mem_singleton_self _
  | free _ offset ih => exact (ih hw).free offset
  | write _ ha hx v ih => exact (ih hw).write ha hx v

/-- None does unless the total size lies within one alignment of the end of `u32`. -/
theorem VramRun.not_wrapped {total : Nat} (ht : total ≤ 0xFFFFFFC0) {m : Memory}
    {l : List VramAlloc} (h : VramRun total m l) : ∀ a ∈ l, a.offset ≠ 0 := by
  induction h with
  | init m => exact fun a ha => absurd ha List.not_mem_nil
  | alloc hrun allocType size hsize ih =>
    rename_i m l
    have htab := hrun.tabled (by omega) ih
    have hw : (VramAllocator.alloc m allocType size).1 ≠ some 0 := by
      have hge := htab.next_ge
      rcases alloc_cases m allocType size with he | ⟨-, -, -, he⟩
      · rw [he]
        exact fun h => by cases h
      · rcases htab.alignNext_cases (by omega) with halign | ⟨hgt, -⟩
        · rw [he]
          intro hzero
          have := Option.some.inj hzero
          omega
        · omega
    intro a ha
    have := ((htab.alloc (by omega) allocType size hw).bounds a ha).2.1
    omega
  | free _ _ ih => exact ih
  | write _ _ _ _ ih => exact ih

/-! ## Allocations do not overlap -/

/-- What the allocator promises of the allocations made so far and of the next call: they
are aligned, inside the managed range and disjoint; a failed allocation changes nothing;
and outside the allocator page an allocation writes nothing, a free only to an
allocation. -/
structure VramSafe (total : Nat) (m : Memory) (l : List VramAlloc) : Prop where
  bounds : ∀ a ∈ l, a.offset % 64 = 0 ∧ 0x1000 ≤ a.offset ∧ a.offset + a.size ≤ total
  disjoint : l.Pairwise fun a b => ∀ x, ¬ (a.Owns x ∧ b.Owns x)
  failed : ∀ allocType size, (VramAllocator.alloc m allocType size).1 = none →
    (VramAllocator.alloc m allocType size).2 = m
  alloc_page : ∀ allocType size x, 0x1000 ≤ x → (VramAllocator.alloc m allocType size).2 x = m x
  free_page : ∀ offset x, 0x1000 ≤ x → (VramAllocator.free m offset).2 x ≠ m x →
    ∃ a ∈ l, a.Owns x

theorem Tabled.safe {total : Nat} {m : Memory} {l : List VramAlloc} (h : Tabled total m l) :
    VramSafe total m l where
  bounds := h.bounds
  disjoint := h.sorted.imp fun hab x hx => by
    have hlt := hx.1.2
    have hge := hx.2.1
    omega
  failed allocType size hnone := by
    rcases alloc_cases m allocType size with he | ⟨-, -, -, he⟩
    · rw [he]
    · rw [he] at hnone
      cases hnone
  alloc_page allocType size x hx := by
    rcases alloc_cases m allocType size with he | ⟨-, -, hroom, he⟩
    · rw [he]
    · rw [he]
      exact record_of_ge hroom hx
  free_page offset x hx hne := by
    rcases h.free_cases offset with ⟨-, he⟩ | ⟨i, a, hi, rfl, -, he⟩
    · rw [he] at hne
      exact absurd rfl hne
    · refine ⟨a, List.mem_of_getElem? hi, ?_⟩
      by_contra hout
      refine hne ((congrFun (congrArg Prod.snd he) x).trans ?_)
      have hlt := lt_of_lt_of_le (List.getElem?_eq_some_iff.mp hi).1 h.room
      refine (Memory.fill_of_not_mem _ ?_).trans (Memory.writeLE_of_not_mem _ ?_)
      · unfold VramAlloc.Owns at hout
        omega
      · simp only [entryAddr, allocTableOffset, allocEntrySize, maxAllocEntries] at *
        omega

/-- The first allocation lies right after the allocator page. -/
theorem VramRun.first {total size : Nat} (hfit : 0x1000 + size ≤ total) (hlt : total < 2 ^ 32) :
    VramRun total (record (VramAllocator.init (fun _ => 0) total) 1 0x1000 size)
      [⟨0x1000, size⟩] := by
  obtain ⟨h4, h8, h12⟩ := init_header (fun _ => 0) hlt
  have hinit : VramRun total (VramAllocator.init (fun _ => 0) total) [] := VramRun.init _
  have halloc : VramAllocator.alloc (VramAllocator.init (fun _ => 0) total) 1 size =
      (some 0x1000, record (VramAllocator.init (fun _ => 0) total) 1 0x1000 size) :=
    alloc_eq_some (by rw [h8]; decide) (by omega) (by omega) (by rw [h4]; decide)
  have hrun := hinit.alloc 1 size (by omega)
  rw [halloc] at hrun
  exact hrun

/-- Two allocations that fill the range and then wrap to its start. -/
theorem VramRun.wraps (total : Nat) (h : 0xFFFFFFC0 < total) (hlt : total < 2 ^ 32) :
    ∃ m, VramRun total m [⟨0x1000, total - 0x1000⟩, ⟨0, 64⟩] := by
  obtain ⟨h4, h8, h12⟩ := init_header (fun _ => 0) hlt
  have hrun := VramRun.first (show 0x1000 + (total - 0x1000) ≤ total by omega) hlt
  obtain ⟨c4, c8, c12⟩ := record_header (VramAllocator.init (fun _ => 0) total) 1 0x1000
    (total - 0x1000) (by rw [h4]; decide) (by omega)
  generalize record (VramAllocator.init (fun _ => 0) total) 1 0x1000 (total - 0x1000) = m1 at *
  have hsecond : VramAllocator.alloc m1 1 64 = (some 0, record m1 1 0 64) := by
    refine alloc_eq_some ?_ (by omega) (by omega) (by rw [c4, h4]; decide)
    rw [c8]
    exact alignNext_wraps (by omega) (by omega)
  have hrun2 := hrun.alloc 1 64 (by decide)
  rw [hsecond] at hrun2
  exact ⟨_, hrun2⟩

/-- **VRAM allocations never overlap**, in every run, if and only if the total size does not
lie within one alignment of the end of `u32`. -/
theorem vram_alloc_safe {total : Nat} (hlt : total < 2 ^ 32) :
    (∀ m l, VramRun total m l → VramSafe total m l) ↔ total ≤ 0xFFFFFFC0 := by
  constructor
  · intro hall
    by_contra hgt
    obtain ⟨m, hrun⟩ := VramRun.wraps total (Nat.lt_of_not_le hgt) hlt
    have hbad := ((hall m _ hrun).bounds ⟨0, 64⟩ (by simp)).2.1
    exact absurd hbad (by decide)
  · intro hle m l hrun
    exact (hrun.tabled hlt (hrun.not_wrapped hle)).safe

/-- A second allocation begins at the next multiple of 64. -/
theorem VramRun.second {total size size' o : Nat} (ho : (0x1000 + size + 63) / 64 * 64 = o)
    (hfit : o + size' ≤ total) (hlt : total ≤ 0xFFFFFFC0) :
    ∃ m, VramRun total m [⟨0x1000, size⟩, ⟨o, size'⟩] := by
  obtain ⟨h4, h8, h12⟩ := init_header (fun _ => 0) (show total < 2 ^ 32 by omega)
  have hrun := VramRun.first (show 0x1000 + size ≤ total by omega) (by omega)
  obtain ⟨c4, c8, c12⟩ := record_header (VramAllocator.init (fun _ => 0) total) 1 0x1000 size
    (by rw [h4]; decide) (by omega)
  generalize record (VramAllocator.init (fun _ => 0) total) 1 0x1000 size = m1 at *
  have hsecond : VramAllocator.alloc m1 1 size' = (some o, record m1 1 o size') := by
    refine alloc_eq_some ?_ (by omega) (by omega) (by rw [c4, h4]; decide)
    rw [c8, alignNext_eq (by omega), ho]
  have hrun2 := hrun.alloc 1 size' (by omega)
  rw [hsecond] at hrun2
  exact ⟨_, hrun2⟩

/-- Two allocations of a run, of 100 and 8 bytes. -/
theorem vram_alloc_safe_pair :
    ∃ m, VramRun 0x2000 m [⟨0x1000, 100⟩, ⟨0x1080, 8⟩] ∧
      VramSafe 0x2000 m [⟨0x1000, 100⟩, ⟨0x1080, 8⟩] := by
  obtain ⟨m, hrun⟩ : ∃ m, VramRun 0x2000 m [⟨0x1000, 100⟩, ⟨0x1080, 8⟩] :=
    VramRun.second (by decide) (by decide) (by decide)
  exact ⟨m, hrun, (vram_alloc_safe (by decide)).mpr (by decide) _ _ hrun⟩

/-- With the largest total size the second allocation is the allocator page. -/
theorem vram_alloc_wraps : ∃ m, VramRun 0xFFFFFFFF m [⟨0x1000, 0xFFFFEFFF⟩, ⟨0, 64⟩] ∧
    ¬ VramSafe 0xFFFFFFFF m [⟨0x1000, 0xFFFFEFFF⟩, ⟨0, 64⟩] := by
  obtain ⟨m, hrun⟩ := VramRun.wraps 0xFFFFFFFF (by decide) (by decide)
  refine ⟨m, hrun, fun hsafe => ?_⟩
  exact absurd (hsafe.bounds ⟨0, 64⟩ (by simp)).2.1 (by decide)

/-! ## Freeing scrubs the allocation -/

/-- What `free` promises of allocation `k` of the ledger: it is found, all of its bytes are
zero afterwards and its own entry is marked, and no byte of another allocation or of the
header changes. -/
structure Scrubs (m : Memory) (l : List VramAlloc) (k : Nat) (a : VramAlloc) : Prop where
  found : (VramAllocator.free m a.offset).1 = true
  zeroed : ∀ x, a.Owns x → (VramAllocator.free m a.offset).2 x = 0
  marked : (VramAllocator.free m a.offset).2.readLE (entryAddr k) 4 = 0
  others : ∀ j b, l[j]? = some b → j ≠ k → ∀ x, b.Owns x →
    (VramAllocator.free m a.offset).2 x = m x
  header : ∀ x, x < 0x10 → (VramAllocator.free m a.offset).2 x = m x

/-- The allocation's entry is the first one with its offset. -/
def FirstAt (l : List VramAlloc) (k : Nat) (a : VramAlloc) : Prop :=
  ∀ j b, l[j]? = some b → b.offset = a.offset → k ≤ j

/-- The memory after entry `i` is marked and `n` bytes of the region are zeroed. -/
def scrub (m : Memory) (i offset n : Nat) : Memory := (m.writeLE (entryAddr i) 4 0).fill offset n 0

theorem scrub_header (m : Memory) {i offset n x : Nat} (hoff : 0x1000 ≤ offset) (hx : x < 0x10) :
    scrub m i offset n x = m x := by
  have hentry : 0x10 ≤ entryAddr i := Nat.le_add_right _ _
  exact (Memory.fill_of_not_mem _ (by omega)).trans (Memory.writeLE_of_not_mem _ (by omega))

theorem scrub_data (m : Memory) {i offset n x : Nat} (hi : i < 255) (hx : 0x1000 ≤ x) :
    scrub m i offset n x = if offset ≤ x ∧ x < offset + n then 0 else m x := by
  have hentry : entryAddr i + 16 ≤ 0x1000 := by
    simp only [entryAddr, allocTableOffset, allocEntrySize]
    omega
  rw [scrub, Memory.fill, Memory.writeLE_of_not_mem _ (by omega)]

theorem scrub_type (m : Memory) {i k offset n : Nat} (hoff : 0x1000 ≤ offset) (hk : k < 255) :
    (scrub m i offset n).readLE (entryAddr k) 4 =
      if i = k then 0 else m.readLE (entryAddr k) 4 := by
  have hfill : (scrub m i offset n).readLE (entryAddr k) 4 =
      (m.writeLE (entryAddr i) 4 0).readLE (entryAddr k) 4 := by
    refine Memory.readLE_congr fun x _ hx => Memory.fill_of_not_mem _ (Or.inl ?_)
    simp only [entryAddr, allocTableOffset, allocEntrySize] at hx
    omega
  rw [hfill]
  by_cases hik : i = k
  · rw [if_pos hik, hik, Memory.readLE_writeLE]
    rfl
  · rw [if_neg hik]
    refine Memory.readLE_writeLE_of_disjoint _ ?_
    simp only [entryAddr, allocTableOffset, allocEntrySize]
    omega

/-- What `free` finds at the offset of allocation `k`: its own entry, or an earlier one of
size zero. -/
theorem Tabled.free_at {total : Nat} {m : Memory} {l : List VramAlloc} (h : Tabled total m l)
    {k : Nat} {a : VramAlloc} (hk : l[k]? = some a) :
    ∃ i n, i < 255 ∧ VramAllocator.free m a.offset = (true, scrub m i a.offset n) ∧
      (FirstAt l k a ∧ i = k ∧ n = a.size / 8 * 8 ∨ ¬ FirstAt l k a ∧ i ≠ k ∧ n = 0) := by
  rcases h.free_cases a.offset with ⟨hnone, -⟩ | ⟨i, b, hi, hoff, hfirst, he⟩
  · exact absurd rfl (hnone a (List.mem_of_getElem? hk))
  · have hlt := lt_of_lt_of_le (List.getElem?_eq_some_iff.mp hi).1 h.room
    refine ⟨i, b.size / 8 * 8, hlt, he, ?_⟩
    rcases (hfirst k a hk rfl).eq_or_lt with rfl | hik
    · obtain rfl := Option.some.inj (hi.symm.trans hk)
      exact Or.inl ⟨hfirst, rfl, rfl⟩
    · -- an earlier allocation at the same offset ends where it starts
      have hend : b.offset + b.size ≤ a.offset := by
        obtain ⟨h1, rfl⟩ := List.getElem?_eq_some_iff.mp hi
        obtain ⟨h2, rfl⟩ := List.getElem?_eq_some_iff.mp hk
        exact List.pairwise_iff_getElem.mp h.sorted i k h1 h2 hik
      refine Or.inr ⟨fun hf => absurd (hf i b hi hoff) (by omega), hik.ne, ?_⟩
      rw [show b.size = 0 by omega]

/-- No byte belongs to two allocations. -/
theorem Tabled.not_owns {total : Nat} {m : Memory} {l : List VramAlloc} (h : Tabled total m l)
    {j k : Nat} {a b : VramAlloc} (hj : l[j]? = some b) (hk : l[k]? = some a) (hjk : j ≠ k)
    {x : Nat} (hb : b.Owns x) : ¬ a.Owns x := by
  intro ha
  obtain ⟨h1, rfl⟩ := List.getElem?_eq_some_iff.mp hj
  obtain ⟨h2, rfl⟩ := List.getElem?_eq_some_iff.mp hk
  obtain ⟨ha1, ha2⟩ := ha
  obtain ⟨hb1, hb2⟩ := hb
  rcases Nat.lt_or_gt_of_ne hjk with hlt | hlt
  · have := List.pairwise_iff_getElem.mp h.sorted j k h1 h2 hlt
    omega
  · have := List.pairwise_iff_getElem.mp h.sorted k j h2 h1 hlt
    omega

/-- Whether `free` scrubs depends on the bytes it does not zero and on the entry's mark
only; it never reaches another allocation or the header. -/
theorem Tabled.scrubs_iff {total : Nat} {m : Memory} {l : List VramAlloc} (h : Tabled total m l)
    {k i n : Nat} {a : VramAlloc} (hk : l[k]? = some a) (hi : i < 255) (hn : n ≤ a.size)
    (he : VramAllocator.free m a.offset = (true, scrub m i a.offset n)) :
    Scrubs m l k a ↔ (∀ x, a.Owns x → a.offset + n ≤ x → m x = 0) ∧
      (i = k ∨ m.readLE (entryAddr k) 4 = 0) := by
  have hoff := (h.bounds a (List.mem_of_getElem? hk)).2.1
  have hk' := lt_of_lt_of_le (List.getElem?_eq_some_iff.mp hk).1 h.room
  have hmem : (VramAllocator.free m a.offset).2 = scrub m i a.offset n := congrArg Prod.snd he
  constructor
  · intro hs
    refine ⟨fun x hx hge => ?_, ?_⟩
    · have hz := hs.zeroed x hx
      rwa [hmem, scrub_data m hi (hoff.trans hx.1), if_neg (by omega)] at hz
    · have ht := hs.marked
      rw [hmem, scrub_type m hoff hk'] at ht
      by_cases hik : i = k
      · exact Or.inl hik
      · exact Or.inr (by rwa [if_neg hik] at ht)
  · rintro ⟨hzero, hmark⟩
    refine ⟨congrArg Prod.fst he, fun x hx => ?_, ?_, fun j b hj hjk x hx => ?_, fun x hx => ?_⟩
    · rw [hmem, scrub_data m hi (hoff.trans hx.1)]
      split
      · rfl
      · have hlo := hx.1
        exact hzero x hx (by omega)
    · rw [hmem, scrub_type m hoff hk']
      split
      · rfl
      · exact hmark.resolve_left ‹_›
    · have hout := h.not_owns hj hk hjk hx
      unfold VramAlloc.Owns at hout
      rw [hmem, scrub_data m hi (h.owned_ge (List.mem_of_getElem? hj) hx), if_neg (by omega)]
    · rw [hmem, scrub_header m hoff hx]

/-- **Freeing scrubs the allocation**, live or freed before, if and only if its entry is the
first one with its offset and the bytes after its last whole qword are zero already, or
there is nothing to do: all its bytes are zero and its entry has the mark of a freed
one.  The run is one in which no allocation has wrapped to the allocator page, as in every
run with a total size up to 0xFFFFFFC0. -/
theorem vram_free_scrubs {total : Nat} (hlt : total < 2 ^ 32) {m : Memory} {l : List VramAlloc}
    (h : VramRun total m l) (hw : ∀ b ∈ l, b.offset ≠ 0) {k : Nat} {a : VramAlloc}
    (hk : l[k]? = some a) :
    Scrubs m l k a ↔
      (FirstAt l k a ∧ ∀ x, a.Owns x → a.offset + a.size / 8 * 8 ≤ x → m x = 0) ∨
        ((∀ x, a.Owns x → m x = 0) ∧ m.readLE (entryAddr k) 4 = 0) := by
  have htab := h.tabled hlt hw
  obtain ⟨i, n, hi, he, ⟨hfirst, hik, hn⟩ | ⟨hfirst, hik, hn⟩⟩ := htab.free_at hk
  · rw [htab.scrubs_iff hk hi (by omega) he, hn]
    constructor
    · rintro ⟨hzero, -⟩
      exact Or.inl ⟨hfirst, hzero⟩
    · rintro (⟨-, hzero⟩ | ⟨hzero, -⟩)
      · exact ⟨hzero, Or.inl hik⟩
      · exact ⟨fun x hx _ => hzero x hx, Or.inl hik⟩
  · rw [htab.scrubs_iff hk hi (by omega) he, hn]
    constructor
    · rintro ⟨hzero, hmark⟩
      exact Or.inr ⟨fun x hx => hzero x hx hx.1, hmark.resolve_left hik⟩
    · rintro (⟨hf, -⟩ | ⟨hzero, hmark⟩)
      · exact absurd hf hfirst
      · exact ⟨fun x hx _ => hzero x hx, Or.inr hmark⟩

/-- An eight-byte allocation to which the shard has written a one. -/
def qwordVram : Memory :=
  (record (VramAllocator.init (fun _ => 0) 0x2000) 1 0x1000 8).fill 0x1000 1 1

/-- It is scrubbed. -/
theorem vram_free_scrubs_qword :
    VramRun 0x2000 qwordVram [⟨0x1000, 8⟩] ∧ qwordVram 0x1000 = 1 ∧
      Scrubs qwordVram [⟨0x1000, 8⟩] 0 ⟨0x1000, 8⟩ := by
  have hrun : VramRun 0x2000 qwordVram [⟨0x1000, 8⟩] :=
    (VramRun.first (by decide) (by decide)).write List.mem_cons_self ⟨le_refl _, by decide⟩ 1
  refine ⟨hrun, Memory.fill_of_mem _ (le_refl _) (by decide), ?_⟩
  refine (vram_free_scrubs (by decide) hrun (hrun.not_wrapped (by decide)) rfl).mpr
    (Or.inl ⟨fun j _ _ _ => Nat.zero_le j, ?_⟩)
  rintro x ⟨-, hlt⟩ hge
  simp only at hlt hge
  omega

/-- A four-byte allocation to which the shard has written a one. -/
def tailVram : Memory :=
  (record (VramAllocator.init (fun _ => 0) 0x2000) 1 0x1000 4).fill 0x1000 1 1

/-- Its size is no multiple of eight: after the free the byte is still there. -/
theorem vram_free_leaves_tail :
    VramRun 0x2000 tailVram [⟨0x1000, 4⟩] ∧ ¬ Scrubs tailVram [⟨0x1000, 4⟩] 0 ⟨0x1000, 4⟩ := by
  have hrun : VramRun 0x2000 tailVram [⟨0x1000, 4⟩] :=
    (VramRun.first (by decide) (by decide)).write List.mem_cons_self ⟨le_refl _, by decide⟩ 1
  refine ⟨hrun, fun hs => ?_⟩
  have htab := hrun.tabled (by decide) (hrun.not_wrapped (by decide))
  obtain ⟨i, n, hi, he, hcase⟩ := htab.free_at (k := 0) (a := ⟨0x1000, 4⟩) rfl
  have hn : n = 0 := by
    rcases hcase with ⟨-, -, hn⟩ | ⟨-, -, hn⟩
    · exact hn
    · exact hn
  have hkept := ((htab.scrubs_iff rfl hi (by omega) he).mp hs).1 0x1000 ⟨le_refl _, by decide⟩
    (by simp [hn])
  rw [tailVram, Memory.fill_of_mem _ (le_refl _) (by decide)] at hkept
  exact absurd hkept (by decide)

end Coconut
