import Coconut.Frame
import Mathlib.Data.List.Nodup

/-!
# What the frame allocator hands out

A ledger beside the allocator: the frames handed out and not yet freed.  From any PMM
bitmap, and as long as only frames of the ledger are freed, the ledger and the bitmaps of
the claimed sub-regions agree (`Ledger.accounts`), so that no frame is handed out twice
and none is lost.
-/
namespace Coconut

/-- The allocator and its ledger after some calls of `alloc_frame` and `free_frame`, from
the PMM bitmap `b`. -/
inductive Ledger (b : Bitmap) : Ram → List Nat → Prop
  | start (mem : Memory) : Ledger b ⟨mem, b, []⟩ []
  | alloc {r r' : Ram} {live : List Nat} {p : Nat} (h : Ledger b r live)
      (ha : r.allocFrame = some (p, r')) : Ledger b r' (p :: live)
  | free {r : Ram} {live : List Nat} {p : Nat} (h : Ledger b r live) (hp : p ∈ live) :
      Ledger b (r.freeFrame p) (live.erase p)

namespace SubRegion

/-- The frames of a sub-region. -/
def frames (sr : SubRegion) : List Nat :=
  (List.range framesPerRegion).map fun i => sr.basePhys + i * frameSize

/-- How many frames of the sub-region are free. -/
def freeCount (sr : SubRegion) : Nat := (List.range framesPerRegion).countP sr.bitmap.bit

/-- A frame is held unless its bit is set. -/
theorem holds_frame {sr : SubRegion} (ha : sr.basePhys % 0x200000 = 0) {i : Nat}
    (hi : i < framesPerRegion) :
    sr.Holds (sr.basePhys + i * frameSize) ↔ sr.bitmap.bit i = false := by
  simp only [framesPerRegion, frameSize] at hi ⊢
  have hidx : (sr.basePhys + i * 4096 - sr.basePhys) / 4096 = i := by omega
  unfold Holds Contains
  rw [hidx]
  exact and_iff_right ⟨by omega, by omega, by omega⟩

theorem alloc_eq_none {sr : SubRegion} (h : sr.alloc = none) {i : Nat} (hi : i < framesPerRegion) :
    sr.bitmap.bit i = false :=
  Bitmap.takeFirst_eq_none.mp (Option.map_eq_none_iff.mp h) i hi

/-- A fresh sub-region has a frame to give. -/
theorem alloc_new (base : Nat) : (new base).alloc ≠ none := by
  intro h
  have h0 := alloc_eq_none h (show 0 < framesPerRegion by decide)
  simp [Bitmap.bit, new] at h0

end SubRegion

/-- Taking a member of a bitmap out makes the set smaller by one. -/
theorem Bitmap.countP_clearBit (b : Bitmap) {i n : Nat} (hi : i < n) (hb : b.bit i = true) :
    (List.range n).countP (b.clearBit i).bit + 1 = (List.range n).countP b.bit := by
  have hbit : ∀ j, (b.clearBit i).bit j = (decide (j ≠ i) && b.bit j) := b.bit_clearBit i
  induction n with
  | zero => cases hi
  | succ n ih =>
    rw [List.range_succ, List.countP_append, List.countP_append, List.countP_singleton,
      List.countP_singleton, hbit]
    by_cases hin : i = n
    · subst hin
      have hsame : (List.range i).countP (b.clearBit i).bit = (List.range i).countP b.bit := by
        refine List.countP_congr fun j hj => ?_
        rw [hbit, decide_eq_true (Nat.ne_of_lt (List.mem_range.mp hj)), Bool.true_and]
      simp [hsame, hb]
    · have hlt := ih (by omega)
      rw [decide_eq_true (Ne.symm hin), Bool.true_and]
      omega

/-- How many frames of the claimed sub-regions are free. -/
def Ram.freeCount (r : Ram) : Nat := (r.subRegions.map SubRegion.freeCount).sum

theorem SubRegion.freeCount_alloc {sr sr' : SubRegion} {p : Nat} (h : sr.alloc = some (p, sr')) :
    sr'.freeCount + 1 = sr.freeCount := by
  unfold alloc at h
  obtain ⟨⟨i, b⟩, hb, he⟩ := Option.map_eq_some_iff.mp h
  obtain rfl := (Prod.mk.inj he).2
  obtain ⟨hlt, hset, rfl, -⟩ := Bitmap.takeFirst_eq_some hb
  exact Bitmap.countP_clearBit _ hlt hset

theorem allocFrom_freeCount {l l' : List SubRegion} {p : Nat} (h : allocFrom l = some (p, l')) :
    (l'.map SubRegion.freeCount).sum + 1 = (l.map SubRegion.freeCount).sum := by
  induction l generalizing l' p with
  | nil => cases h
  | cons sr rest ih =>
    rw [allocFrom] at h
    split at h
    · rename_i q sr' hal
      obtain ⟨rfl, rfl⟩ := Prod.mk.inj (Option.some.inj h)
      have := SubRegion.freeCount_alloc hal
      simp only [List.map_cons, List.sum_cons]
      omega
    · obtain ⟨⟨q, rest'⟩, hrec, he⟩ := Option.map_eq_some_iff.mp h
      obtain ⟨rfl, rfl⟩ := Prod.mk.inj he
      have := ih hrec
      simp only [List.map_cons, List.sum_cons]
      omega

/-- The allocation loop fails only when no claimed sub-region has a free frame. -/
theorem allocFrom_eq_none {l : List SubRegion} (h : allocFrom l = none) {sr : SubRegion}
    (hsr : sr ∈ l) : sr.alloc = none := by
  induction l with
  | nil => cases hsr
  | cons x rest ih =>
    rw [allocFrom] at h
    split at h
    · cases h
    · rename_i hx
      rcases List.mem_cons.mp hsr with rfl | hrest
      · exact hx
      · exact ih (Option.map_eq_none_iff.mp h) hrest

/-! ## The ledger agrees with the bitmaps -/

/-- What holds of the allocator beside its ledger. -/
structure Ram.Accounts (b : Bitmap) (r : Ram) (live : List Nat) : Prop where
  wellFormed : r.WellFormed
  capacity : r.subRegions.length ≤ maxSubRegions
  live_iff : ∀ f, f ∈ live ↔ r.Live f
  nodup : live.Nodup
  -- no frame is managed that was not in a free region at the start
  managed : ∀ f, r.Managed f →
    f % frameSize = 0 ∧ f / regionSize < maxRegions ∧ b.bit (f / regionSize) = true

theorem SameRegions.length_eq {l l' : List SubRegion} (h : SameRegions l l') :
    l'.length = l.length := by
  have hlen := congrArg List.length h
  rwa [List.length_map, List.length_map] at hlen

theorem Ram.capacity_allocFrame {r r' : Ram} {p : Nat} (hw : r.WellFormed)
    (hc : r.subRegions.length ≤ maxSubRegions) (h : r.allocFrame = some (p, r')) :
    r'.subRegions.length ≤ maxSubRegions := by
  unfold allocFrame at h
  split at h
  · rename_i q l hal
    obtain ⟨rfl, rfl⟩ := Prod.mk.inj (Option.some.inj h)
    exact (allocFrom_eq_some hal hw.separate).1.length_eq.trans_le hc
  · split at h
    · cases h
    · rename_i hroom
      obtain ⟨⟨base, b⟩, -, h⟩ := Option.bind_eq_some_iff.mp h
      obtain ⟨⟨q, sr⟩, -, h⟩ := Option.bind_eq_some_iff.mp h
      obtain ⟨rfl, rfl⟩ := Prod.mk.inj (Option.some.inj h)
      rw [List.length_append, List.length_singleton]
      omega

namespace Ram.Accounts

variable {b : Bitmap} {r r' : Ram} {live : List Nat} {p : Nat}

theorem start (b : Bitmap) (mem : Memory) : Accounts b ⟨mem, b, []⟩ [] where
  wellFormed := ⟨nofun, nofun, List.nodup_nil⟩
  capacity := Nat.zero_le _
  live_iff f := by simp [Live]
  nodup := List.nodup_nil
  managed f hf := by
    rcases hf with ⟨sr, hsr, -⟩ | hf
    · cases hsr
    · exact hf

theorem alloc (h : Accounts b r live) (ha : r.allocFrame = some (p, r')) :
    Accounts b r' (p :: live) := by
  obtain ⟨hal, -⟩ := allocFrame_spec h.wellFormed ha
  refine ⟨hal.wellFormed, capacity_allocFrame h.wellFormed h.capacity ha, fun f => ?_, ?_,
    fun f hf => h.managed f ((hal.managed_iff f).mp hf)⟩
  · rw [List.mem_cons, h.live_iff, hal.live_iff, or_comm]
  · exact List.nodup_cons.mpr ⟨fun hp => hal.fresh ((h.live_iff p).mp hp), h.nodup⟩

theorem aligned_of_mem (h : Accounts b r live) (hp : p ∈ live) : p % 4096 = 0 :=
  (h.managed p ((h.live_iff p).mp hp).managed).1

theorem free (h : Accounts b r live) (hp : p ∈ live) :
    Accounts b (r.freeFrame p) (live.erase p) := by
  have hal := h.aligned_of_mem hp
  obtain ⟨hw, hm, hl⟩ := freeFrame_spec h.wellFormed hal
  refine ⟨hw, ?_, fun f => ?_, h.nodup.erase p, fun f hf => h.managed f ((hm f).mp hf)⟩
  · exact (freeFrom_spec h.wellFormed.separate hal).1.length_eq.trans_le h.capacity
  · rw [h.nodup.mem_erase_iff, h.live_iff, hl, and_comm]

end Ram.Accounts

/-- The ledger and the allocator agree after every sequence of calls. -/
theorem Ledger.accounts {b : Bitmap} {r : Ram} {live : List Nat} (h : Ledger b r live) :
    r.Accounts b live := by
  induction h with
  | start mem => exact Ram.Accounts.start b mem
  | alloc _ ha ih => exact ih.alloc ha
  | free _ hp ih => exact ih.free hp

/-! ## Allocations -/

namespace Ram

variable {b : Bitmap} {r r' : Ram} {live : List Nat} {p : Nat}

/-- The 2 MiB region of a frame that was handed out belongs to exactly one sub-region. -/
theorem Accounts.count_region (h : r.Accounts b live) (hp : p ∈ live) :
    (r.subRegions.map (·.basePhys)).count (p / regionSize * regionSize) = 1 := by
  obtain ⟨sr, hsr, ⟨-, hlo, hhi⟩, -⟩ := (h.live_iff p).mp hp
  refine List.count_eq_one_of_mem h.wellFormed.distinct (List.mem_map.mpr ⟨sr, hsr, ?_⟩)
  have hal := (h.wellFormed.aligned sr hsr).1
  simp only [regionSize]
  omega

/-- In a claimed sub-region every frame is either in the ledger or free. -/
theorem Accounts.mem_iff_bit (h : r.Accounts b live) {sr : SubRegion} (hsr : sr ∈ r.subRegions)
    {i : Nat} (hi : i < framesPerRegion) :
    sr.basePhys + i * frameSize ∈ live ↔ sr.bitmap.bit i = false := by
  have hal : ∀ x ∈ r.subRegions, x.basePhys % 0x200000 = 0 := fun x hx =>
    (h.wellFormed.aligned x hx).1
  rw [h.live_iff, ← SubRegion.holds_frame (hal sr hsr) hi]
  constructor
  · rintro ⟨x, hx, hh⟩
    -- a frame lies in one sub-region only
    have hbase : x.basePhys = sr.basePhys := by
      have hx0 := hal x hx
      have hs0 := hal sr hsr
      obtain ⟨⟨-, h1, h2⟩, -⟩ := hh
      simp only [framesPerRegion, frameSize] at hi h1 h2
      omega
    obtain rfl := List.inj_on_of_nodup_map h.wellFormed.distinct hx hsr hbase
    exact hh
  · exact fun hh => ⟨sr, hsr, hh⟩

/-- The frames in the ledger and the free frames of a claimed region are all its frames. -/
theorem Accounts.count_frames (h : r.Accounts b live) {sr : SubRegion} (hsr : sr ∈ r.subRegions) :
    sr.frames.countP (· ∈ live) + sr.freeCount = framesPerRegion := by
  have hlive : sr.frames.countP (· ∈ live) =
      (List.range framesPerRegion).countP fun i => !sr.bitmap.bit i := by
    rw [SubRegion.frames, List.countP_map]
    refine List.countP_congr fun i hi => ?_
    simpa using h.mem_iff_bit hsr (List.mem_range.mp hi)
  rw [hlive, SubRegion.freeCount, Nat.add_comm]
  simpa using (List.length_eq_countP_add_countP (l := List.range framesPerRegion)
    sr.bitmap.bit).symm

/-- An allocation that fails finds every claimed frame handed out, and no further region
to claim. -/
theorem allocFrame_eq_none (h : r.allocFrame = none) :
    (∀ sr ∈ r.subRegions, ∀ i < framesPerRegion, sr.bitmap.bit i = false) ∧
      (maxSubRegions ≤ r.subRegions.length ∨ ∀ i < maxRegions, r.bitmap.bit i = false) := by
  unfold allocFrame at h
  split at h
  · cases h
  · rename_i hnone
    refine ⟨fun sr hsr i hi => SubRegion.alloc_eq_none (allocFrom_eq_none hnone hsr) hi, ?_⟩
    split at h
    · exact Or.inl ‹_›
    · rcases Option.bind_eq_none_iff.mp h with hreg
      cases har : allocRegion r.bitmap with
      | none =>
        refine Or.inr fun i hi => ?_
        exact Bitmap.takeFirst_eq_none.mp (Option.map_eq_none_iff.mp har) i hi
      | some q =>
        exfalso
        have hq := hreg q har
        cases ha : (SubRegion.new q.1).alloc with
        | none => exact SubRegion.alloc_new q.1 ha
        | some x => simp [ha] at hq

/-- The frame that the allocation after `n` others hands out. -/
def allocNth : Nat → Ram → Option (Nat × Ram)
  | 0, r => r.allocFrame
  | n + 1, r => r.allocFrame.bind fun (_, r') => allocNth n r'

/-- As long as a claimed sub-region has a free frame no further region is claimed, and the
allocation uses up one free frame. -/
theorem allocFrame_of_free (hw : r.WellFormed) (hc : ∃ sr ∈ r.subRegions, sr.Contains p)
    (hfree : ¬ r.Live p) :
    ∃ q r', r.allocFrame = some (q, r') ∧ SameRegions r.subRegions r'.subRegions ∧
      r'.freeCount + 1 = r.freeCount := by
  obtain ⟨sr, hsr, hp⟩ := hc
  cases hal : allocFrom r.subRegions with
  | none =>
    refine absurd ⟨sr, hsr, hp, ?_⟩ hfree
    obtain ⟨-, hlo, hhi⟩ := hp
    refine SubRegion.alloc_eq_none (allocFrom_eq_none hal hsr) ?_
    simp only [framesPerRegion]
    omega
  | some q =>
    refine ⟨q.1, { r with subRegions := q.2 }, by simp [allocFrame, hal], ?_, ?_⟩
    · exact (allocFrom_eq_some hal hw.separate).1
    · exact allocFrom_freeCount hal

/-- A free frame of a claimed region is handed out after finitely many allocations: each
allocation before it uses up another free frame of the claimed regions. -/
theorem allocNth_of_free (hw : r.WellFormed) (hc : ∃ sr ∈ r.subRegions, sr.Contains p)
    (hfree : ¬ r.Live p) : ∃ n r', allocNth n r = some (p, r') := by
  induction hn : r.freeCount generalizing r with
  | zero =>
    obtain ⟨q, r', -, -, hcount⟩ := allocFrame_of_free hw hc hfree
    omega
  | succ k ih =>
    obtain ⟨q, r', ha, hs, hcount⟩ := allocFrame_of_free hw hc hfree
    obtain ⟨hal, -⟩ := allocFrame_spec hw ha
    by_cases hq : q = p
    · exact ⟨0, r', hq ▸ ha⟩
    · have hfree' : ¬ r'.Live p := fun hl => by
        rcases (hal.live_iff p).mp hl with hl | rfl
        · exact hfree hl
        · exact hq rfl
      obtain ⟨n, r'', hnth⟩ := ih hal.wellFormed ((hs.contains_iff p).mpr hc) hfree' (by omega)
      exact ⟨n + 1, r'', by rw [allocNth, ha]; exact hnth⟩

/-- A freed frame can be handed out again. -/
theorem Accounts.allocNth_freeFrame (h : r.Accounts b live) (hp : p ∈ live) :
    ∃ n r', allocNth n (r.freeFrame p) = some (p, r') := by
  have hal := h.aligned_of_mem hp
  obtain ⟨hw, -, hl⟩ := freeFrame_spec h.wellFormed hal
  obtain ⟨sr, hsr, hc, -⟩ := (h.live_iff p).mp hp
  refine allocNth_of_free hw ?_ fun hlive => ((hl p).mp hlive).2 rfl
  exact ((freeFrom_spec h.wellFormed.separate hal).1.contains_iff p).mpr ⟨sr, hsr, hc⟩

end Ram

/-- **The frame allocator.**  After every sequence of calls from any PMM bitmap: a frame
handed out is aligned, not live, and in a region that was free at the start and belongs to
one sub-region; in each claimed region the live and the free frames are all 512; a freed
frame can be handed out again; and an allocation fails only when every claimed frame is
live and no further region can be claimed. -/
theorem alloc_frame_exact {b : Bitmap} {r : Ram} {live : List Nat} (h : Ledger b r live) :
    (∀ p r', r.allocFrame = some (p, r') →
      p % frameSize = 0 ∧ p ∉ live ∧ p / regionSize < maxRegions ∧ b.bit (p / regionSize) = true ∧
        (r'.subRegions.map (·.basePhys)).count (p / regionSize * regionSize) = 1) ∧
    (∀ sr ∈ r.subRegions, sr.frames.countP (· ∈ live) + sr.freeCount = framesPerRegion) ∧
    (∀ p ∈ live, ∃ n r', Ram.allocNth n (r.freeFrame p) = some (p, r')) ∧
    (r.allocFrame = none →
      (∀ sr ∈ r.subRegions, ∀ p ∈ sr.frames, p ∈ live) ∧
        (r.subRegions.length = maxSubRegions ∨ ∀ i < maxRegions, r.bitmap.bit i = false)) := by
  have hacc := h.accounts
  refine ⟨fun p r' ha => ?_, fun sr hsr => hacc.count_frames hsr,
    fun p hp => hacc.allocNth_freeFrame hp, fun hnone => ?_⟩
  · obtain ⟨hal, -⟩ := Ram.allocFrame_spec hacc.wellFormed ha
    obtain ⟨halign, hlt, hset⟩ := hacc.managed p hal.managed
    refine ⟨halign, fun hp => hal.fresh ((hacc.live_iff p).mp hp), hlt, hset, ?_⟩
    exact (hacc.alloc ha).count_region List.mem_cons_self
  · obtain ⟨hfull, hmore⟩ := Ram.allocFrame_eq_none hnone
    refine ⟨fun sr hsr p hp => ?_, hmore.imp_left fun hge => le_antisymm hacc.capacity hge⟩
    obtain ⟨i, hi, rfl⟩ := List.mem_map.mp hp
    have hi := List.mem_range.mp hi
    exact (hacc.mem_iff_bit hsr hi).mpr (hfull sr hsr i hi)

/-- A PMM with one free region, the one at 6 MiB. -/
def oneRegion : Bitmap := fun w => if w = 0 then 8#64 else 0#64

theorem alloc_frame_exact_oneRegion :
    ∃ r', Ram.allocFrame ⟨fun _ => 0, oneRegion, []⟩ = some (0x600000, r') ∧
      0x600000 / regionSize < maxRegions ∧ oneRegion.bit (0x600000 / regionSize) = true ∧
        (r'.subRegions.map (·.basePhys)).count (0x600000 / regionSize * regionSize) = 1 := by
  refine ⟨_, rfl, ?_⟩
  exact ((alloc_frame_exact (Ledger.start fun _ => 0)).1 _ _ rfl).2.2

end Coconut
