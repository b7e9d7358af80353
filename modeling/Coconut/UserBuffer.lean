import Coconut.State

/-!
# Validation of user buffers

The two checks every copying syscall makes before it follows a user pointer.  They
trust five numbers of the caller's descriptor: the end of the image, the bounds of its
writable segment, and the bounds of the region added by `mmap`.  The two differ in the
part of the image they accept.
-/
namespace Coconut

/-- `[ptr, ptr + len)` lies in the part of the image that `image` accepts, in the data
region or on the stack. -/
def validateUserBuf (image : ShardDescriptor → Nat → Nat → Bool) (s : Sys) (ptr len : Nat) :
    Kernel Bool :=
  if len == 0 || 4096 < len then .ok false
  else
    let fin := wrappingAdd ptr len
    if fin < ptr then .ok false
    else do
      let d ← s.shard s.currentShard
      if image d ptr fin then return true
      if d.dataStart != 0 && d.dataStart ≤ ptr && fin ≤ d.dataEnd then return true
      return 0x7FF000 ≤ ptr && fin ≤ 0x800000

/-- For reading: all segments of the image. -/
def validateUserReadBuf : Sys → Nat → Nat → Kernel Bool :=
  validateUserBuf fun d ptr fin => 0x1000 ≤ ptr && fin ≤ d.imageEnd

/-- For writing: the data and bss segment of the image. -/
def validateUserWriteBuf : Sys → Nat → Nat → Kernel Bool :=
  validateUserBuf fun d ptr fin =>
    d.imageDataStart != 0 && d.imageDataStart ≤ ptr && fin ≤ d.imageDataEnd

/-! ## What the checks mean -/

/-- The data region and the stack, writable for every shard. -/
def dataRegions (d : ShardDescriptor) (ptr fin : Nat) : Prop :=
  (d.dataStart ≠ 0 ∧ d.dataStart ≤ ptr ∧ fin ≤ d.dataEnd) ∨ (0x7FF000 ≤ ptr ∧ fin ≤ 0x800000)

/-- The regions a syscall may read. -/
def readRegions (d : ShardDescriptor) (ptr fin : Nat) : Prop :=
  (0x1000 ≤ ptr ∧ fin ≤ d.imageEnd) ∨ dataRegions d ptr fin

/-- The regions a syscall may write. -/
def writeRegions (d : ShardDescriptor) (ptr fin : Nat) : Prop :=
  (d.imageDataStart ≠ 0 ∧ d.imageDataStart ≤ ptr ∧ fin ≤ d.imageDataEnd) ∨ dataRegions d ptr fin

/-- The buffer is short, does not wrap, and lies in one of the regions. -/
structure InRegion (regions : Nat → Nat → Prop) (ptr len : Nat) : Prop where
  pos : 0 < len
  short : len ≤ 4096
  lt : ptr + len < 2 ^ 64
  region : regions ptr (ptr + len)

theorem InRegion.mono {p q : Nat → Nat → Prop} {ptr len : Nat} (h : InRegion p ptr len)
    (hpq : ∀ a b, p a b → q a b) : InRegion q ptr len :=
  ⟨h.pos, h.short, h.lt, hpq _ _ h.region⟩

theorem wrappingAdd_of_not_lt {ptr len : Nat} (hp : ptr < 2 ^ 64) (hl : len ≤ 4096)
    (h : ¬ wrappingAdd ptr len < ptr) : wrappingAdd ptr len = ptr + len ∧ ptr + len < 2 ^ 64 := by
  unfold wrappingAdd at *
  omega

theorem validateUserBuf_true {image : ShardDescriptor → Nat → Nat → Bool} {s : Sys} {ptr len : Nat}
    (hp : ptr < 2 ^ 64) (h : validateUserBuf image s ptr len = .ok true) :
    ∃ hi : s.currentShard < maxShards, InRegion (fun a b =>
      image (s.shards ⟨s.currentShard, hi⟩) a b = true ∨
        dataRegions (s.shards ⟨s.currentShard, hi⟩) a b) ptr len := by
  unfold validateUserBuf at h
  split at h
  · cases h
  · rename_i hlen
    simp only [Bool.or_eq_true, beq_iff_eq, decide_eq_true_eq, not_or, not_lt] at hlen
    simp only at h
    split at h
    · cases h
    · rename_i hwrap
      obtain ⟨hfin, hlt⟩ := wrappingAdd_of_not_lt hp hlen.2 hwrap
      rw [hfin] at h
      obtain ⟨d, hd, h⟩ := Kernel.bind_eq_ok h
      obtain ⟨hi, rfl⟩ := Table.index_eq_ok hd
      refine ⟨hi, by omega, hlen.2, hlt, ?_⟩
      unfold dataRegions
      split at h
      · exact Or.inl ‹_›
      · split at h
        · rename_i hc
          simp only [Bool.and_eq_true, decide_eq_true_eq, bne_iff_ne, ne_eq, and_assoc] at hc
          exact Or.inr (Or.inl hc)
        · have hc := Except.ok.inj h
          simp only [Bool.and_eq_true, decide_eq_true_eq] at hc
          exact Or.inr (Or.inr hc)

theorem validateUserBuf_of_region {image : ShardDescriptor → Nat → Nat → Bool} {s : Sys} {ptr len : Nat}
    (hi : s.currentShard < maxShards) (h : InRegion (fun a b =>
      image (s.shards ⟨s.currentShard, hi⟩) a b = true ∨
        dataRegions (s.shards ⟨s.currentShard, hi⟩) a b) ptr len) :
    validateUserBuf image s ptr len = .ok true := by
  have hfin : wrappingAdd ptr len = ptr + len := Nat.mod_eq_of_lt h.lt
  have hpos := h.pos
  have hshort := h.short
  unfold validateUserBuf
  rw [if_neg (by simp; omega)]
  simp only [hfin]
  rw [if_neg (by omega), show s.shard s.currentShard = .ok (s.shards ⟨s.currentShard, hi⟩) from
    Table.index_of_lt _ _ hi]
  change (if image _ _ _ = true then pure true else _) = _
  split
  · rfl
  · rename_i himage
    split
    · rfl
    · rename_i hdata
      have hstack := (h.region.resolve_left himage).resolve_left fun hc => hdata (by
        simpa only [Bool.and_eq_true, decide_eq_true_eq, bne_iff_ne, and_assoc] using hc)
      rw [decide_eq_true hstack.1, decide_eq_true hstack.2]
      rfl

theorem validateUserBuf_error {image : ShardDescriptor → Nat → Nat → Bool} {s : Sys} {ptr len : Nat}
    {p : Panic} (h : validateUserBuf image s ptr len = .error p) : maxShards ≤ s.currentShard := by
  unfold validateUserBuf at h
  split at h
  · cases h
  · simp only at h
    split at h
    · cases h
    · rcases Kernel.bind_eq_error h with h | ⟨d, -, h⟩
      · exact (Table.index_eq_error h).1
      · split at h
        · cases h
        · split at h <;> cases h

theorem validateUserReadBuf_true {s : Sys} {ptr len : Nat} (hp : ptr < 2 ^ 64)
    (h : validateUserReadBuf s ptr len = .ok true) :
    ∃ hi : s.currentShard < maxShards,
      InRegion (readRegions (s.shards ⟨s.currentShard, hi⟩)) ptr len :=
  let ⟨hi, hr⟩ := validateUserBuf_true hp h
  ⟨hi, hr.mono fun a b => Or.imp_left fun hc => by
    simpa only [Bool.and_eq_true, decide_eq_true_eq] using hc⟩

theorem validateUserWriteBuf_true {s : Sys} {ptr len : Nat} (hp : ptr < 2 ^ 64)
    (h : validateUserWriteBuf s ptr len = .ok true) :
    ∃ hi : s.currentShard < maxShards,
      InRegion (writeRegions (s.shards ⟨s.currentShard, hi⟩)) ptr len :=
  let ⟨hi, hr⟩ := validateUserBuf_true hp h
  ⟨hi, hr.mono fun a b => Or.imp_left fun hc => by
    simpa only [Bool.and_eq_true, decide_eq_true_eq, bne_iff_ne, and_assoc] using hc⟩

theorem validateUserWriteBuf_of_region {s : Sys} {ptr len : Nat} (hi : s.currentShard < maxShards)
    (h : InRegion (writeRegions (s.shards ⟨s.currentShard, hi⟩)) ptr len) :
    validateUserWriteBuf s ptr len = .ok true :=
  validateUserBuf_of_region hi (h.mono fun a b => Or.imp_left fun hc => by
    simpa only [Bool.and_eq_true, decide_eq_true_eq, bne_iff_ne, and_assoc] using hc)

end Coconut
