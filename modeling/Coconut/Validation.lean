import Coconut.Isolation

/-!
# Validation of buffers is sound

The two checks look at five numbers of a descriptor, never at the page tables.  The
invariant of the address spaces ties the numbers to the tables, so what passes a check is
mapped; and because the numbers only grow, a buffer that has passed stays mapped while
its shard waits for a message.
-/
namespace Coconut
open Paging

/-- Every byte of `[ptr, ptr + len)` is present and accessible for the user code of shard
`i`, writable if `w`. -/
def Accessible (s : Sys) (i ptr len : Nat) (w : Bool) : Prop :=
  ∀ virt, ptr ≤ virt → virt < ptr + len → ∃ leaf,
    walk s.ram.mem (s.desc i).pml4Phys virt = some leaf ∧ leaf.user = true ∧
      (w = true → leaf.writable = true)

section Spaces
variable {isRam : Nat → Prop} {own : Owners Nat} {s s' : Sys} {ev : Event} {i ptr len : Nat}

theorem PageOk.accessible {m : Memory} {t root virt : Nat} {w : Bool} (h : PageOk own m t root virt w) :
    ∃ leaf, walk m root virt = some leaf ∧ leaf.user = true ∧ (w = true → leaf.writable = true) := by
  obtain ⟨leaf, hw, hu, hp, -⟩ := h
  exact ⟨leaf, hw, hu, hp⟩

theorem Spaces.readable (h : Spaces own isRam s) (hi : (s.desc i).state ≠ .free)
    (hr : InRegion (readRegions (s.desc i)) ptr len) : Accessible s i ptr len false := by
  intro virt h1 h2
  exact ((h.shard i hi).read virt (hr.read_byte h1 h2)).accessible

theorem Spaces.writable (h : Spaces own isRam s) (hi : (s.desc i).state ≠ .free)
    (hr : InRegion (writeRegions (s.desc i)) ptr len) : Accessible s i ptr len true := by
  intro virt h1 h2
  exact ((h.shard i hi).write virt (hr.write_byte h1 h2)).accessible

/-- No step writes a read-only page of a live shard. -/
theorem Spaces.readOnly_of_step {virt : Nat} {leaf : Leaf} (h : Spaces own isRam s)
    (hv : s.config.VramOk isRam) (hf : Footprint s ev s') (hi : (s.desc i).state.isLive = true)
    (hlt : virt < 2 ^ 64) (hw : walk s.ram.mem (s.desc i).pml4Phys virt = some leaf)
    (hu : leaf.user = true) (hro : leaf.writable = false) (hram : isRam (Memory.frameOf leaf.phys)) :
    Memory.SameFrame s.ram.mem s'.ram.mem (Memory.frameOf leaf.phys) := by
  by_cases hne : i = actor s ev
  · subst hne
    have hroot := (h.shard _ (Sys.hasSpace_of_isLive hi).1).root
    have hlow := h.ram.tables.lower_of_user hroot hlt hw hu
    have hp := (h.ram.tables.walk_frame hroot hlow hw).1.resolve_right fun hd => hd hram
    refine h.sameFrame_of_page hv hf hi hp fun m _ ht => ?_
    exact h.ram.tables.sameFrame_of_readOnly hroot ht hlow hw hro hram
  · exact h.sameFrame_of_step hv hf hi hne hram ⟨virt, leaf, hlt, hw, hu, rfl⟩

end Spaces

/-! ## Runs -/

namespace Run
variable (r : Run) {n i ptr len : Nat}

/-- A shard with an address space: the run has not ended. -/
theorem unhalted_of_hasSpace (h : (r.state n).HasSpace i) : (r.state n).mode ≠ .halted := fun hm =>
  (r.destroyed_of_halted n i hm).elim h.1 h.2

/-- The current shard has an address space. -/
theorem hasSpace_current (h : (r.state n).currentShard < maxShards) :
    (r.state n).HasSpace (r.state n).currentShard :=
  Sys.hasSpace_of_isLive (r.currentLive n h)

/-- What a shard may write, it may write for the rest of the run. -/
theorem writeRegions_mono (k : Nat) (hm : (r.state (n + k)).mode ≠ .halted)
    (h : InRegion (writeRegions ((r.state n).desc i)) ptr len) :
    InRegion (writeRegions ((r.state (n + k)).desc i)) ptr len := by
  induction k with
  | zero => exact h
  | succ k ih =>
    have hm' := r.unhalted hm
    refine (ih hm').mono fun a b => ?_
    exact (r.footprint hm').writeRegions_mono (r.descs (n + k) hm') hm i

theorem accessible_of_writeRegions (hs : (r.state n).HasSpace i)
    (h : InRegion (writeRegions ((r.state n).desc i)) ptr len) :
    Accessible (r.state n) i ptr len true := by
  obtain ⟨own, hok⟩ := r.spaces n (r.unhalted_of_hasSpace hs)
  exact hok.writable hs.1 h

/-- What the checks of user buffers are for, in state `n`. -/
structure ValidationSound (r : Run) (n : Nat) : Prop where
  /-- What may be read is mapped. -/
  read : ∀ ptr len : UInt64, validateUserReadBuf (r.state n) ptr.toNat len.toNat = .ok true →
    Accessible (r.state n) (r.state n).currentShard ptr.toNat len.toNat false
  /-- What may be written is mapped writable. -/
  write : ∀ ptr len : UInt64, validateUserWriteBuf (r.state n) ptr.toNat len.toNat = .ok true →
    Accessible (r.state n) (r.state n).currentShard ptr.toNat len.toNat true
  /-- It stays so, whatever happens, as long as the shard has an address space. -/
  persists : ∀ ptr len : UInt64, validateUserWriteBuf (r.state n) ptr.toNat len.toNat = .ok true →
    ∀ k, (r.state (n + k)).HasSpace (r.state n).currentShard →
      Accessible (r.state (n + k)) (r.state n).currentShard ptr.toNat len.toNat true
  /-- In particular the buffer of a suspended receive is mapped writable. -/
  suspended : ∀ i ch ep buf maxLen, (r.state n).HasSpace i →
    ((r.state n).desc i).savedContext = .channelRecv ch ep buf maxLen →
    Accessible (r.state n) i buf maxLen true
  /-- No step writes a page that is mapped read-only for a live shard. -/
  readOnly : ∀ i virt leaf, ((r.state n).desc i).state.isLive = true → virt < 2 ^ 64 →
    walk (r.state n).ram.mem ((r.state n).desc i).pml4Phys virt = some leaf →
    leaf.user = true → leaf.writable = false → r.isRam (Memory.frameOf leaf.phys) →
    Memory.SameFrame (r.state n).ram.mem (r.state (n + 1)).ram.mem (Memory.frameOf leaf.phys)

/-- **The checks of user buffers are sound** in every state of every run. -/
theorem validation_sound (n : Nat) : r.ValidationSound n where
  read ptr len h := by
    obtain ⟨hlt, -⟩ := validateUserReadBuf_true ptr.toNat_lt h
    have hs := r.hasSpace_current hlt
    obtain ⟨own, hok⟩ := r.spaces n (r.unhalted_of_hasSpace hs)
    exact hok.readable hs.1 (validRead ptr.toNat_lt h)
  write ptr len h := by
    obtain ⟨hlt, -⟩ := validateUserWriteBuf_true ptr.toNat_lt h
    exact r.accessible_of_writeRegions (r.hasSpace_current hlt) (validWrite ptr.toNat_lt h)
  persists ptr len h k hs := by
    have hm := r.unhalted_of_hasSpace hs
    exact r.accessible_of_writeRegions hs (r.writeRegions_mono k hm (validWrite ptr.toNat_lt h))
  suspended i ch ep buf maxLen hs hc := by
    have hd := r.descs n (r.unhalted_of_hasSpace hs) i
    refine r.accessible_of_writeRegions hs (hd.waiting buf maxLen ?_)
    unfold ShardDescriptor.waits
    rw [hc]
  readOnly i virt leaf hi hlt hw hu hro hram := by
    have hm := r.unhalted_of_hasSpace (Sys.hasSpace_of_isLive hi)
    obtain ⟨own, hok⟩ := r.spaces n hm
    exact hok.readOnly_of_step (r.vramOk n) (r.footprint hm) hi hlt hw hu hro hram

end Run
end Coconut
