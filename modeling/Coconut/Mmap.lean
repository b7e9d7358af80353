import Coconut.FrameLedger
import Coconut.Replay
import Coconut.Spaces

/-!
# What a failed `mmap` leaves behind

`handle_sys_mmap` checks the whole request before it touches anything, and then allocates,
records and maps one page after the other.  If the frames run out on the way it returns the
error with the pages so far in place: they are mapped and listed, and the data region does
not cover them.  A failed call therefore changes nothing exactly if it failed in a check, or
if there was no frame for its first page.
-/
namespace Coconut
open Paging

/-! ## The state of the allocator -/

/-- Every claimed frame is handed out and no further region can be claimed. -/
def Ram.Exhausted (r : Ram) : Prop :=
  (∀ sr ∈ r.subRegions, ∀ i < framesPerRegion, sr.bitmap.bit i = false) ∧
    (maxSubRegions ≤ r.subRegions.length ∨ ∀ i < maxRegions, r.bitmap.bit i = false)

theorem allocFrom_of_taken {l : List SubRegion}
    (h : ∀ sr ∈ l, ∀ i < framesPerRegion, sr.bitmap.bit i = false) : allocFrom l = none := by
  induction l with
  | nil => rfl
  | cons sr l ih =>
    have hsr : sr.alloc = none :=
      Option.map_eq_none_iff.mpr (Bitmap.takeFirst_eq_none.mpr (h sr (List.mem_cons_self ..)))
    have hrest := ih fun x hx => h x (List.mem_cons_of_mem _ hx)
    simp only [allocFrom, hsr, hrest, Option.map_none]

/-- No frame is handed out exactly if there is none. -/
theorem Ram.allocFrameZeroed_eq_none {r : Ram} : r.allocFrameZeroed = none ↔ r.Exhausted := by
  have hframe : r.allocFrameZeroed = none ↔ r.allocFrame = none := by
    unfold allocFrameZeroed
    cases r.allocFrame <;> simp
  rw [hframe]
  refine ⟨allocFrame_eq_none, fun ⟨hclaimed, hregions⟩ => ?_⟩
  unfold allocFrame
  rw [allocFrom_of_taken hclaimed]
  simp only
  split
  · rfl
  · rename_i hroom
    have hnone : allocRegion r.bitmap = none := Option.map_eq_none_iff.mpr
      (Bitmap.takeFirst_eq_none.mpr (hregions.resolve_left hroom))
    rw [hnone]
    rfl

/-- The allocator may hand the frame out. -/
def Ram.FreeFrame (r : Ram) (f : Nat) : Prop := r.Managed f ∧ ¬ r.Live f

/-! ## The loop -/

/-- The loop lists the frames it takes, and takes one for its first page if there is any. -/
theorem mmapPages_frames {root vaStart : Nat} {n : Nat} :
    ∀ (i : Nat) {r r' : Ram} {frames frames' : List Nat} {mapped : Bool},
      mmapPages root vaStart n i r frames = .ok (r', frames', mapped) →
      ∃ taken, frames' = frames ++ taken ∧
        (r.allocFrameZeroed = none → taken = [] ∧ r' = r) ∧
        (n ≠ 0 → r.allocFrameZeroed ≠ none → taken ≠ []) := by
  induction n with
  | zero =>
    intro i r r' frames frames' mapped h
    obtain ⟨rfl, hrest⟩ := Prod.mk.inj (Except.ok.inj h)
    obtain ⟨rfl, -⟩ := Prod.mk.inj hrest
    exact ⟨[], (List.append_nil _).symm, fun _ => ⟨rfl, rfl⟩, fun hn => absurd rfl hn⟩
  | succ n ih =>
    intro i r r' frames frames' mapped h
    unfold mmapPages at h
    cases ha : r.allocFrameZeroed with
    | none =>
      simp only [ha] at h
      obtain ⟨rfl, hrest⟩ := Prod.mk.inj (Except.ok.inj h)
      obtain ⟨rfl, -⟩ := Prod.mk.inj hrest
      exact ⟨[], (List.append_nil _).symm, fun _ => ⟨rfl, rfl⟩, fun _ hc => absurd rfl hc⟩
    | some x =>
      simp only [ha] at h
      obtain ⟨frames₁, hpush, h⟩ := Kernel.bind_eq_ok h
      obtain ⟨r₁, -, h⟩ := Kernel.bind_eq_ok h
      obtain ⟨-, rfl⟩ := pushFrame_eq_ok hpush
      obtain ⟨taken, hframes, -, -⟩ := ih (i + 1) h
      refine ⟨x.1 :: taken, ?_, fun hc => absurd hc (Option.some_ne_none _),
        fun _ _ => List.cons_ne_nil _ _⟩
      rw [hframes, List.append_assoc, List.singleton_append]

/-! ## Failed calls -/

/-- The address space of the current shard, its accounts, and the free frames are as
before. -/
structure MmapUnchanged (s s' : Sys) : Prop where
  translations : ∀ va, walk s'.ram.mem s'.current.pml4Phys va = walk s.ram.mem s.current.pml4Phys va
  data : s'.current.dataStart = s.current.dataStart ∧ s'.current.dataEnd = s.current.dataEnd
  frames : s'.current.allocatedFrames = s.current.allocatedFrames
  free : ∀ f, s'.ram.FreeFrame f ↔ s.ram.FreeFrame f

theorem MmapUnchanged.refl (s : Sys) : MmapUnchanged s s :=
  ⟨fun _ => rfl, ⟨rfl, rfl⟩, rfl, fun _ => Iff.rfl⟩

/-- How a call of `mmap` fails: in a check, or in the loop. -/
theorem handleSysMmap_eq_max {s s' : Sys} {vaStart numPages : Nat}
    (h : handleSysMmap s vaStart numPages = .ok (s', u64Max)) :
    (mmapAccepts s.current vaStart numPages = false ∧ s' = s) ∨
    (mmapAccepts s.current vaStart numPages = true ∧ ∃ ram frames,
      mmapPages s.current.pml4Phys vaStart numPages 0 s.ram s.current.allocatedFrames =
        .ok (ram, frames, false) ∧
      s'.ram = ram ∧ s'.current = { s.current with allocatedFrames := frames }) := by
  unfold handleSysMmap at h
  simp only at h
  obtain ⟨d, hd, h⟩ := Kernel.bind_eq_ok h
  obtain ⟨hi, rfl⟩ := Sys.shard_current hd
  rcases guard_eq_ok h with ⟨hrej, h⟩ | ⟨hacc, h⟩
  · exact Or.inl ⟨by simpa using hrej, (Prod.mk.inj h).1⟩
  right
  obtain ⟨⟨ram, frames, mapped⟩, hpages, h⟩ := Kernel.bind_eq_ok h
  cases mapped with
  | true =>
    have hresult := (Prod.mk.inj (Except.ok.inj h)).2
    cases hresult
  | false =>
    obtain ⟨rfl, -⟩ := Prod.mk.inj (Except.ok.inj h)
    refine ⟨by simpa using hacc, ram, frames, hpages, rfl, ?_⟩
    exact (Sys.desc_modifyShard { s with ram } hi _ s.currentShard).trans (if_pos rfl)

/-- **A failed `mmap` changes nothing exactly if** the request is rejected or there is no
free frame at all. -/
theorem mmap_failure_unchanged {s s' : Sys} {vaStart numPages : Nat}
    (h : handleSysMmap s vaStart numPages = .ok (s', u64Max)) :
    MmapUnchanged s s' ↔
      mmapAccepts s.current vaStart numPages = false ∨ s.ram.Exhausted := by
  rcases handleSysMmap_eq_max h with ⟨hrej, rfl⟩ | ⟨hacc, ram, frames, hpages, hram, hdesc⟩
  · exact ⟨fun _ => Or.inl hrej, fun _ => MmapUnchanged.refl s'⟩
  · obtain ⟨taken, hframes, hempty, htaken⟩ := mmapPages_frames 0 hpages
    have hpos := (mmapAccepts_eq_true hacc).pos
    constructor
    · intro hsame
      right
      rw [← Ram.allocFrameZeroed_eq_none]
      by_contra hfree
      -- the first page took a frame, and the descriptor lists it
      have hlist := hsame.frames
      rw [hdesc, hframes] at hlist
      exact htaken (by omega) hfree (List.append_right_eq_self.mp hlist)
    · rintro (hrej | hnone)
      · rw [hacc] at hrej
        cases hrej
      · obtain ⟨rfl, rfl⟩ := hempty (Ram.allocFrameZeroed_eq_none.mpr hnone)
        rw [List.append_nil] at hframes
        subst hframes
        refine ⟨fun va => ?_, ?_, ?_, fun f => ?_⟩
        · rw [hram, hdesc]
        · rw [hdesc]
          exact ⟨rfl, rfl⟩
        · rw [hdesc]
        · rw [hram]

/-- One running shard with an empty root table in the first frame of a region, of which the
next four frames are free: enough for one page and its tables. -/
def tightSys : Sys :=
  { plainSys with
    ram := ⟨fun _ => 0, fun _ => 0#64, [⟨0x600000, fun w => if w = 0 then 0x1E#64 else 0#64⟩]⟩
    shards := fun _ => { ShardDescriptor.initial with
      state := .running, pml4Phys := 0x600000, allocatedFrames := [0x600000] }
    currentShard := 0
    mode := .user }

theorem mmap_failure_unchanged_unaligned : handleSysMmap tightSys 0x1001 1 = .ok (tightSys, u64Max) ∧
    MmapUnchanged tightSys tightSys :=
  have hfail : handleSysMmap tightSys 0x1001 1 = .ok (tightSys, u64Max) := rfl
  ⟨hfail, (mmap_failure_unchanged hfail).mpr (Or.inl rfl)⟩

set_option maxRecDepth 100000 in
theorem tightSys_mmap : ((handleSysMmap tightSys 0x1000 2).toOption.map fun x =>
    (x.1.current.allocatedFrames, x.2)) = some ([0x600000, 0x601000], u64Max) := by
  decide +kernel

/-- Frames for the first of two pages only: the call fails and the first page stays. -/
theorem mmap_failure_keeps_page : ∃ s', handleSysMmap tightSys 0x1000 2 = .ok (s', u64Max) ∧
    ¬ MmapUnchanged tightSys s' := by
  have hrun := tightSys_mmap
  cases h : handleSysMmap tightSys 0x1000 2 with
  | error e =>
    rw [h] at hrun
    cases hrun
  | ok x =>
    rw [h] at hrun
    obtain ⟨hframes, hresult⟩ := Prod.mk.inj (Option.some.inj hrun)
    refine ⟨x.1, by rw [← hresult], fun hsame => ?_⟩
    have hlist := hframes.symm.trans hsame.frames
    revert hlist
    decide

end Coconut
