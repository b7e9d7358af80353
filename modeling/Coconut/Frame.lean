import Coconut.Bitmap
import Coconut.ByteMemory
import Coconut.Shared

/-!
# Physical memory: the PMM and the frame allocator

The lower level hands out 2 MiB regions from a bitmap (`pmm`); the upper level
cuts each region it has claimed into 512 frames of 4 KiB, with a bitmap of its
own (`frame`).  `Ram` is the state of both, with the memory itself.

A frame is **managed** when the allocator may ever hand it out, and **live** while
it is handed out.  The rest of the development uses the allocator through
`allocFrame_spec` and `freeFrame_spec`: an allocation makes one frame live that
was not, a free makes one frame not live, and neither changes what is managed.
-/
namespace Coconut

/-! ## 2 MiB regions -/

@[simp] def regionSize : Nat := 0x200000
@[simp] def maxRegions : Nat := 512 * 1024
@[simp] def regionBitmapWords : Nat := maxRegions / 64

/-- Mark a 2 MiB-aligned region as free. -/
def markFree (b : Bitmap) (physAddr : Nat) : Bitmap :=
  let index := physAddr / regionSize
  if index < maxRegions then b.setBit index else b

/-- Mark a 2 MiB-aligned region as allocated. -/
def markAllocated (b : Bitmap) (physAddr : Nat) : Bitmap :=
  let index := physAddr / regionSize
  if index < maxRegions then b.clearBit index else b

/-- Allocate a single 2 MiB region. -/
def allocRegion (b : Bitmap) : Option (Nat × Bitmap) :=
  (b.takeFirst regionBitmapWords).map fun (index, b') => (index * regionSize, b')

/-- Free a previously allocated 2 MiB region. -/
def freeRegion (b : Bitmap) (physAddr : Nat) : Bitmap := markFree b physAddr

/-! ## 4 KiB frames -/

@[simp] def frameSize : Nat := 4096
@[simp] def framesPerRegion : Nat := 512
@[simp] def frameBitmapWords : Nat := framesPerRegion / 64
@[simp] def maxSubRegions : Nat := 64

/-- A claimed 2 MiB region; a set bit is a free frame. -/
structure SubRegion where
  basePhys : Nat
  bitmap : Bitmap

namespace SubRegion

/-- A sub-region with all frames free. -/
def new (basePhys : Nat) : SubRegion := ⟨basePhys, fun _ => ~~~0#64⟩

/-- Allocate a single frame. -/
def alloc (sr : SubRegion) : Option (Nat × SubRegion) :=
  (sr.bitmap.takeFirst frameBitmapWords).map fun (i, b) =>
    (sr.basePhys + i * frameSize, { sr with bitmap := b })

/-- Free a frame by physical address; `none` if the sub-region does not own it. -/
def free (sr : SubRegion) (phys : Nat) : Option SubRegion :=
  if phys < sr.basePhys ∨ sr.basePhys + framesPerRegion * frameSize ≤ phys then none
  else some { sr with bitmap := sr.bitmap.setBit ((phys - sr.basePhys) / frameSize) }

end SubRegion

/-- Physical memory and its allocators: `BITMAP`, and the first `REGION_COUNT`
entries of `SUB_REGIONS`. -/
structure Ram where
  mem : Memory
  bitmap : Bitmap
  subRegions : List SubRegion

/-- The loop of `alloc_frame` over the claimed sub-regions. -/
def allocFrom : List SubRegion → Option (Nat × List SubRegion)
  | [] => none
  | sr :: rest =>
    match sr.alloc with
    | some (phys, sr') => some (phys, sr' :: rest)
    | none => (allocFrom rest).map fun (phys, rest') => (phys, sr :: rest')

/-- The loop of `free_frame`: the first sub-region that owns the frame frees it. -/
def freeFrom (phys : Nat) : List SubRegion → List SubRegion
  | [] => []
  | sr :: rest =>
    match sr.free phys with
    | some sr' => sr' :: rest
    | none => sr :: freeFrom phys rest

namespace Ram

/-- Allocate a single frame.  A failed call leaves the allocator as it was. -/
def allocFrame (r : Ram) : Option (Nat × Ram) :=
  match allocFrom r.subRegions with
  | some (phys, subRegions) => some (phys, { r with subRegions })
  | none =>
    -- need a new 2 MiB region from the PMM
    if maxSubRegions ≤ r.subRegions.length then none
    else do
      let (regionPhys, bitmap) ← allocRegion r.bitmap
      let (phys, sr) ← (SubRegion.new regionPhys).alloc
      return (phys, { r with bitmap, subRegions := r.subRegions ++ [sr] })

/-- Allocate a frame and zero it. -/
def allocFrameZeroed (r : Ram) : Option (Nat × Ram) := do
  let (phys, r) ← r.allocFrame
  return (phys, { r with mem := r.mem.fill phys frameSize 0 })

/-- Free a previously allocated frame. -/
def freeFrame (r : Ram) (phys : Nat) : Ram :=
  { r with subRegions := freeFrom phys r.subRegions }

end Ram

/-! ## Managed and live frames -/

/-- The frame lies in the sub-region. -/
def SubRegion.Contains (sr : SubRegion) (f : Nat) : Prop :=
  f % 4096 = 0 ∧ sr.basePhys ≤ f ∧ f < sr.basePhys + 0x200000

/-- The frame lies in the sub-region and is handed out. -/
def SubRegion.Holds (sr : SubRegion) (f : Nat) : Prop :=
  sr.Contains f ∧ sr.bitmap.bit ((f - sr.basePhys) / 4096) = false

namespace Ram

/-- The frame is handed out. -/
def Live (r : Ram) (f : Nat) : Prop := ∃ sr ∈ r.subRegions, sr.Holds f

/-- The frame is one the allocator may hand out: it lies in a claimed sub-region,
or in a region the PMM still has. -/
def Managed (r : Ram) (f : Nat) : Prop :=
  (∃ sr ∈ r.subRegions, sr.Contains f) ∨
    f % 4096 = 0 ∧ f / 0x200000 < 0x80000 ∧ r.bitmap.bit (f / 0x200000) = true

/-- Claimed regions are distinct 2 MiB regions below 1 TiB that the PMM no longer
has. -/
structure WellFormed (r : Ram) : Prop where
  aligned : ∀ sr ∈ r.subRegions, sr.basePhys % 0x200000 = 0 ∧ sr.basePhys / 0x200000 < 0x80000
  taken : ∀ sr ∈ r.subRegions, r.bitmap.bit (sr.basePhys / 0x200000) = false
  distinct : (r.subRegions.map (·.basePhys)).Nodup

end Ram

/-! ## One sub-region -/

namespace SubRegion

theorem alloc_eq_some {sr sr' : SubRegion} {p : Nat} (h : sr.alloc = some (p, sr'))
    (ha : sr.basePhys % 0x200000 = 0) :
    sr'.basePhys = sr.basePhys ∧ sr.Contains p ∧ ¬ sr.Holds p ∧
      ∀ f, sr'.Holds f ↔ sr.Holds f ∨ f = p := by
  unfold alloc at h
  rw [Option.map_eq_some_iff] at h
  obtain ⟨⟨i, b⟩, hb, he⟩ := h
  have hp : p = sr.basePhys + i * 4096 := (Prod.mk.inj he).1.symm
  obtain rfl := (Prod.mk.inj he).2
  subst hp
  obtain ⟨hlt, hset, rfl, -⟩ := Bitmap.takeFirst_eq_some hb
  simp only [frameBitmapWords, framesPerRegion] at hlt
  have hidx : (sr.basePhys + i * 4096 - sr.basePhys) / 4096 = i := by omega
  have hin : sr.Contains (sr.basePhys + i * 4096) := ⟨by omega, by omega, by omega⟩
  refine ⟨rfl, hin, fun hh => ?_, fun f => ?_⟩
  · have := hh.2
    rw [hidx, hset] at this
    cases this
  · unfold Holds Contains
    simp only [Bitmap.bit_clearBit, Bool.and_eq_false_iff, decide_eq_false_iff_not, not_not]
    constructor
    · rintro ⟨hc, hf | hf⟩
      · exact Or.inr (by omega)
      · exact Or.inl ⟨hc, hf⟩
    · rintro (⟨hc, hf⟩ | rfl)
      · exact ⟨hc, Or.inr hf⟩
      · exact ⟨hin, Or.inl hidx⟩

theorem free_eq_some {sr sr' : SubRegion} {p : Nat} (h : sr.free p = some sr')
    (ha : sr.basePhys % 0x200000 = 0) (hp : p % 4096 = 0) :
    sr'.basePhys = sr.basePhys ∧ sr.Contains p ∧ ∀ f, sr'.Holds f ↔ sr.Holds f ∧ f ≠ p := by
  unfold free at h
  split at h
  · cases h
  · rename_i hc
    simp only [framesPerRegion, frameSize] at hc h
    obtain rfl := Option.some.inj h
    refine ⟨rfl, ⟨hp, by omega, by omega⟩, fun f => ?_⟩
    unfold Holds Contains
    simp only [Bitmap.bit_setBit, Bool.or_eq_false_iff, decide_eq_false_iff_not]
    constructor
    · rintro ⟨h1, h2, h3⟩
      exact ⟨⟨h1, h3⟩, fun he => h2 (he ▸ rfl)⟩
    · rintro ⟨⟨h1, h2⟩, h3⟩
      exact ⟨h1, by omega, h2⟩

theorem free_eq_none {sr : SubRegion} {p : Nat} (h : sr.free p = none) : ¬ sr.Contains p := by
  unfold free at h
  split at h
  · simp only [framesPerRegion, frameSize] at *
    rintro ⟨-, h1, h2⟩
    omega
  · cases h

theorem not_holds_new (b f : Nat) : ¬ (new b).Holds f := by
  rintro ⟨-, h2⟩
  have hj : (f - b) / 4096 % 64 < 64 := Nat.mod_lt _ (by decide)
  simp only [Bitmap.bit, new, BitVec.getLsbD_not, BitVec.getLsbD_zero, Bool.not_false,
    Bool.and_true, decide_eq_false_iff_not] at h2
  exact h2 hj

end SubRegion

/-! ## All sub-regions -/

/-- What an allocation or a free may not change of the claimed regions. -/
def SameRegions (l l' : List SubRegion) : Prop := l'.map (·.basePhys) = l.map (·.basePhys)

namespace SameRegions

theorem mem_base {l l' : List SubRegion} (h : SameRegions l l') {sr : SubRegion} (hsr : sr ∈ l') :
    ∃ sr₀ ∈ l, sr₀.basePhys = sr.basePhys := by
  have hm : sr.basePhys ∈ l'.map (·.basePhys) := List.mem_map_of_mem hsr
  rw [h] at hm
  exact List.mem_map.mp hm

theorem symm {l l' : List SubRegion} (h : SameRegions l l') : SameRegions l' l := Eq.symm h

theorem contains_iff {l l' : List SubRegion} (h : SameRegions l l') (f : Nat) :
    (∃ sr ∈ l', sr.Contains f) ↔ ∃ sr ∈ l, sr.Contains f := by
  constructor
  · rintro ⟨sr, hsr, hc⟩
    obtain ⟨sr₀, h0, hb⟩ := h.mem_base hsr
    exact ⟨sr₀, h0, by unfold SubRegion.Contains at *; rwa [hb]⟩
  · rintro ⟨sr, hsr, hc⟩
    obtain ⟨sr₀, h0, hb⟩ := h.symm.mem_base hsr
    exact ⟨sr₀, h0, by unfold SubRegion.Contains at *; rwa [hb]⟩

end SameRegions

/-- The sub-regions of a list are aligned and distinct: what the two loops need. -/
structure Separate (l : List SubRegion) : Prop where
  aligned : ∀ sr ∈ l, sr.basePhys % 0x200000 = 0
  distinct : (l.map (·.basePhys)).Nodup

theorem Separate.tail {sr : SubRegion} {l : List SubRegion} (h : Separate (sr :: l)) :
    Separate l where
  aligned x hx := h.aligned x (List.mem_cons_of_mem _ hx)
  distinct := (List.nodup_cons.mp h.distinct).2

/-- A frame lies in at most one sub-region. -/
theorem Separate.not_contains {sr : SubRegion} {l : List SubRegion} (h : Separate (sr :: l))
    {f : Nat} (hf : sr.Contains f) {x : SubRegion} (hx : x ∈ l) : ¬ x.Contains f := by
  intro hc
  have hne : x.basePhys ≠ sr.basePhys := fun he =>
    (List.nodup_cons.mp h.distinct).1 (List.mem_map.mpr ⟨x, hx, he⟩)
  have h1 := h.aligned sr List.mem_cons_self
  have h2 := h.aligned x (List.mem_cons_of_mem _ hx)
  obtain ⟨-, h3, h4⟩ := hf
  obtain ⟨-, h5, h6⟩ := hc
  omega

/-- The allocation loop: one frame that no sub-region held becomes held. -/
theorem allocFrom_eq_some {l l' : List SubRegion} {p : Nat} (h : allocFrom l = some (p, l'))
    (hs : Separate l) :
    SameRegions l l' ∧ (∃ sr ∈ l, sr.Contains p) ∧ (∀ sr ∈ l, ¬ sr.Holds p) ∧
      ∀ f, (∃ sr ∈ l', sr.Holds f) ↔ (∃ sr ∈ l, sr.Holds f) ∨ f = p := by
  induction l generalizing l' p with
  | nil => cases h
  | cons sr rest ih =>
    rw [allocFrom] at h
    split at h
    · rename_i q sr' hal
      obtain ⟨rfl, rfl⟩ := Prod.mk.inj (Option.some.inj h)
      obtain ⟨hb, hc, hn, hh⟩ := SubRegion.alloc_eq_some hal (hs.aligned sr List.mem_cons_self)
      refine ⟨by simp [SameRegions, hb], ⟨sr, List.mem_cons_self, hc⟩, ?_, fun f => ?_⟩
      · intro x hx
        rcases List.mem_cons.mp hx with rfl | hx
        · exact hn
        · exact fun hx' => hs.not_contains hc hx hx'.1
      · simp only [List.mem_cons, exists_eq_or_imp, hh]
        exact or_right_comm
    · rw [Option.map_eq_some_iff] at h
      obtain ⟨⟨q, rest'⟩, hrec, he⟩ := h
      obtain ⟨rfl, rfl⟩ := Prod.mk.inj he
      obtain ⟨hb, ⟨x, hx, hc⟩, hn, hh⟩ := ih hrec hs.tail
      refine ⟨by simpa [SameRegions] using hb, ⟨x, List.mem_cons_of_mem _ hx, hc⟩, ?_, fun f => ?_⟩
      · intro y hy
        rcases List.mem_cons.mp hy with rfl | hy
        · exact fun hy' => hs.not_contains hy'.1 hx hc
        · exact hn y hy
      · simp only [List.mem_cons, exists_eq_or_imp, hh]
        exact or_assoc.symm

/-- The free loop: the frame is no longer held. -/
theorem freeFrom_spec {l : List SubRegion} {p : Nat} (hs : Separate l) (hp : p % 4096 = 0) :
    SameRegions l (freeFrom p l) ∧
      ∀ f, (∃ sr ∈ freeFrom p l, sr.Holds f) ↔ (∃ sr ∈ l, sr.Holds f) ∧ f ≠ p := by
  induction l with
  | nil => exact ⟨rfl, fun f => by simp [freeFrom]⟩
  | cons sr rest ih =>
    rw [freeFrom]
    split
    · rename_i sr' hfr
      obtain ⟨hb, hc, hh⟩ := SubRegion.free_eq_some hfr (hs.aligned sr List.mem_cons_self) hp
      refine ⟨by simp [SameRegions, hb], fun f => ?_⟩
      have hrest : (∃ x ∈ rest, x.Holds f) → f ≠ p := by
        rintro ⟨x, hx, hx'⟩ rfl
        exact hs.not_contains hc hx hx'.1
      simp only [List.mem_cons, exists_eq_or_imp, hh]
      rw [or_and_right, and_iff_left_of_imp hrest]
    · rename_i hfr
      obtain ⟨hb, hh⟩ := ih hs.tail
      refine ⟨by simpa [SameRegions] using hb, fun f => ?_⟩
      have hsr : sr.Holds f → f ≠ p := by
        rintro hx rfl
        exact SubRegion.free_eq_none hfr hx.1
      simp only [List.mem_cons, exists_eq_or_imp, hh]
      rw [or_and_right, and_iff_left_of_imp hsr]

/-! ## The allocator -/

namespace Ram

theorem WellFormed.separate {r : Ram} (h : r.WellFormed) : Separate r.subRegions :=
  ⟨fun sr hsr => (h.aligned sr hsr).1, h.distinct⟩

theorem Live.managed {r : Ram} {f : Nat} (h : r.Live f) : r.Managed f :=
  let ⟨sr, hsr, hh⟩ := h
  Or.inl ⟨sr, hsr, hh.1⟩

/-- Managed frames are aligned and lie below 1 TiB. -/
theorem Managed.bounds {r : Ram} (hw : r.WellFormed) {f : Nat} (h : r.Managed f) :
    f % 4096 = 0 ∧ f < 0x10000000000 := by
  rcases h with ⟨sr, hsr, h1, h2, h3⟩ | ⟨h1, h2, -⟩
  · have := hw.aligned sr hsr
    exact ⟨h1, by omega⟩
  · exact ⟨h1, by omega⟩

/-- The same claimed regions and the same PMM bitmap: the same frames are managed,
and the allocator stays well formed. -/
theorem WellFormed.of_sameRegions {r : Ram} (hw : r.WellFormed) {l : List SubRegion}
    (h : SameRegions r.subRegions l) (m : Memory) :
    WellFormed { r with mem := m, subRegions := l } where
  aligned sr hsr := by
    obtain ⟨sr₀, h0, hb⟩ := h.mem_base hsr
    exact hb ▸ hw.aligned sr₀ h0
  taken sr hsr := by
    obtain ⟨sr₀, h0, hb⟩ := h.mem_base hsr
    exact hb ▸ hw.taken sr₀ h0
  distinct := by rw [h]; exact hw.distinct

theorem managed_of_sameRegions {r : Ram} {l : List SubRegion}
    (h : SameRegions r.subRegions l) (m : Memory) (f : Nat) :
    Managed { r with mem := m, subRegions := l } f ↔ r.Managed f :=
  or_congr (h.contains_iff f) Iff.rfl

/-- What a successful allocation of frame `p` leads to. -/
structure Allocated (r : Ram) (p : Nat) (r' : Ram) : Prop where
  wellFormed : r'.WellFormed
  managed_iff : ∀ f, r'.Managed f ↔ r.Managed f
  managed : r.Managed p
  fresh : ¬ r.Live p
  live_iff : ∀ f, r'.Live f ↔ r.Live f ∨ f = p

/-- A region taken from the PMM: it joins the claimed regions with its first frame
held. -/
theorem allocated_of_newRegion {r : Ram} (hw : r.WellFormed) {base p : Nat} {b : Bitmap}
    {sr : SubRegion} (hr : allocRegion r.bitmap = some (base, b))
    (ha : (SubRegion.new base).alloc = some (p, sr)) :
    Allocated r p { r with bitmap := b, subRegions := r.subRegions ++ [sr] } := by
  unfold allocRegion at hr
  rw [Option.map_eq_some_iff] at hr
  obtain ⟨⟨i, b'⟩, htake, he⟩ := hr
  have hbase : base = i * 0x200000 := (Prod.mk.inj he).1.symm
  obtain rfl := (Prod.mk.inj he).2
  obtain ⟨hlt, hset, rfl, -⟩ := Bitmap.takeFirst_eq_some htake
  simp only [regionBitmapWords, maxRegions] at hlt
  have hidx : base / 0x200000 = i := by omega
  obtain ⟨hb, -, -, hh⟩ := SubRegion.alloc_eq_some ha (by simp only [SubRegion.new]; omega)
  have hb : sr.basePhys = base := hb
  have hsr : ∀ f, sr.Holds f ↔ f = p := fun f => by
    rw [hh]
    exact or_iff_right (SubRegion.not_holds_new base f)
  have hin : ∀ f, sr.Contains f ↔ f % 4096 = 0 ∧ f / 0x200000 = i := fun f => by
    unfold SubRegion.Contains
    rw [hb]
    omega
  have hp : p % 4096 = 0 ∧ p / 0x200000 = i := (hin p).mp ((hsr p).mpr rfl).1
  have hother : ∀ x ∈ r.subRegions, x.basePhys / 0x200000 ≠ i := fun x hx he => by
    have := hw.taken x hx
    rw [he, hset] at this
    cases this
  refine ⟨⟨?_, ?_, ?_⟩, fun f => ?_, Or.inr ⟨hp.1, by omega, by rw [hp.2]; exact hset⟩, ?_, ?_⟩
  · intro x hx
    rcases List.mem_append.mp hx with hx | hx
    · exact hw.aligned x hx
    · obtain rfl := List.mem_singleton.mp hx
      omega
  · intro x hx
    change (r.bitmap.clearBit i).bit _ = false
    rw [Bitmap.bit_clearBit]
    rcases List.mem_append.mp hx with hx | hx
    · rw [hw.taken x hx, Bool.and_false]
    · obtain rfl := List.mem_singleton.mp hx
      simp [hb, hidx]
  · rw [List.map_append, List.map_singleton, List.nodup_append]
    refine ⟨hw.distinct, by simp, ?_⟩
    intro a ha' c hc' hac
    obtain ⟨x, hx, rfl⟩ := List.mem_map.mp ha'
    obtain rfl := List.mem_singleton.mp hc'
    exact hother x hx (by omega)
  · unfold Managed
    change (∃ x ∈ r.subRegions ++ [sr], _) ∨ _ ∧ _ ∧ (r.bitmap.clearBit i).bit _ = true ↔ _
    simp only [List.mem_append, List.mem_singleton, or_and_right, exists_or, exists_eq_left,
      hin, Bitmap.bit_clearBit, Bool.and_eq_true, decide_eq_true_eq]
    by_cases hf : f / 0x200000 = i
    · have hi : i < 0x80000 := by omega
      simp [hf, hset, hi]
    · simp [hf]
  · rintro ⟨x, hx, hx'⟩
    obtain ⟨⟨-, h1, h2⟩, -⟩ := hx'
    have := (hw.aligned x hx).1
    exact hother x hx (by omega)
  · intro f
    unfold Live
    simp only [List.mem_append, List.mem_singleton, or_and_right, exists_or, exists_eq_left, hsr]

/-- **Allocation.**  The frame handed out was managed and not live; it is live
afterwards, and nothing else changes. -/
theorem allocFrame_spec {r r' : Ram} {p : Nat} (hw : r.WellFormed)
    (h : r.allocFrame = some (p, r')) : Allocated r p r' ∧ r'.mem = r.mem := by
  unfold allocFrame at h
  split at h
  · rename_i q l hal
    obtain ⟨rfl, rfl⟩ := Prod.mk.inj (Option.some.inj h)
    obtain ⟨hs, ⟨sr, hsr, hc⟩, hn, hh⟩ := allocFrom_eq_some hal hw.separate
    refine ⟨⟨hw.of_sameRegions hs r.mem, managed_of_sameRegions hs r.mem, Or.inl ⟨sr, hsr, hc⟩, ?_,
      hh⟩, rfl⟩
    rintro ⟨x, hx, hx'⟩
    exact hn x hx hx'
  · split at h
    · cases h
    · obtain ⟨⟨base, b⟩, hr, h⟩ := Option.bind_eq_some_iff.mp h
      obtain ⟨⟨q, sr⟩, ha, h⟩ := Option.bind_eq_some_iff.mp h
      obtain ⟨rfl, rfl⟩ := Prod.mk.inj (Option.some.inj h)
      exact ⟨allocated_of_newRegion hw hr ha, rfl⟩

/-- A zeroed frame: the same, and the frame's bytes are zero. -/
theorem allocFrameZeroed_spec {r r' : Ram} {p : Nat} (hw : r.WellFormed)
    (h : r.allocFrameZeroed = some (p, r')) :
    Allocated r p r' ∧ r'.mem = r.mem.fill p frameSize 0 := by
  obtain ⟨⟨q, r₁⟩, hal, he⟩ := Option.bind_eq_some_iff.mp h
  obtain ⟨rfl, rfl⟩ := Prod.mk.inj (Option.some.inj he)
  obtain ⟨spec, hmem⟩ := allocFrame_spec hw hal
  have hw' : WellFormed { r₁ with mem := r₁.mem.fill q frameSize 0 } :=
    ⟨spec.wellFormed.aligned, spec.wellFormed.taken, spec.wellFormed.distinct⟩
  exact ⟨⟨hw', spec.managed_iff, spec.managed, spec.fresh, spec.live_iff⟩, by rw [hmem]⟩

/-- **Release.**  The frame is no longer live, and nothing else changes. -/
theorem freeFrame_spec {r : Ram} {p : Nat} (hw : r.WellFormed) (hp : p % 4096 = 0) :
    (r.freeFrame p).WellFormed ∧ (∀ f, (r.freeFrame p).Managed f ↔ r.Managed f) ∧
      ∀ f, (r.freeFrame p).Live f ↔ r.Live f ∧ f ≠ p :=
  let ⟨hs, hh⟩ := freeFrom_spec hw.separate hp
  ⟨hw.of_sameRegions hs r.mem, managed_of_sameRegions hs r.mem, hh⟩

@[simp] theorem freeFrame_mem (r : Ram) (p : Nat) : (r.freeFrame p).mem = r.mem := rfl

end Ram
end Coconut
