import Coconut.Fs

/-!
# Lookups and reads that return

The parser indexes the ramdisk without a check of its own.  On an image as the builder
makes it (`Ext2Fs.WellFormed`) no index lies outside: every path can be looked up, and
every file that a lookup finds can be read, from any offset on.
-/
namespace Coconut.Ext2Fs
variable {fs : Ext2Fs}

theorem readInode_returns (h : fs.WellFormed) {ino : Nat} (hino : ino < 2 ^ 32) :
    ∃ found, fs.readInode ino = .ok found := by
  by_cases hzero : ino = 0
  · rw [hzero]
    exact ⟨none, rfl⟩
  · have hsize := h.inodeSize
    have htable := h.inodeTable
    have hmul : (ino - 1) * fs.inodeSize + fs.inodeSize ≤ 2 ^ 32 * fs.inodeSize := by
      rw [← Nat.succ_mul]
      exact Nat.mul_le_mul_right _ (by omega)
    exact ⟨_, readInode_at hzero rfl (by omega) (by omega)⟩

/-! ## Lookups -/

/-- A scan of a block of the root directory, from one of its records on. -/
theorem scanDir_returns (h : fs.WellFormed) (name : List UInt8) {b : Nat} (hb : fs.RootBlock b) :
    ∀ (fuel : Nat) {pos : Nat}, Record fs (b * fs.blockSize) pos →
      ∃ found, fs.scanDir name (b * fs.blockSize) fuel pos = .ok found ∧
        ∀ n, found = some n → fs.Listed n ∧ n < 2 ^ 32 := by
  intro fuel
  induction fuel with
  | zero =>
    intro pos _
    exact ⟨none, rfl, nofun⟩
  | succ fuel ih =>
    intro pos hpos
    rw [scanDir]
    by_cases hroom : pos + 8 ≤ fs.blockSize
    · have hblock := h.rootBlocks b hb
      rw [Nat.succ_mul] at hblock
      have hread : ∀ o k, o + k ≤ b * fs.blockSize + pos + 8 →
          fs.data.readLE o k = .ok (fs.data.bytes.readLE o k) := fun o k hle => if_pos (by omega)
      have hinode := hread (b * fs.blockSize + pos) 4 (by omega)
      have hrec := hread (b * fs.blockSize + pos + 4) 2 (by omega)
      have hlen := hread (b * fs.blockSize + pos + 6) 2 (by omega)
      have hname := h.records b pos hb hpos hroom _ hlen
      rw [if_pos hroom]
      simp only [hinode, hrec, hlen, Kernel.ok_bind]
      split
      · exact ⟨none, rfl, nofun⟩
      · rename_i hstop
        have hnext := ih (.next hpos hroom hrec (by simpa using hstop))
        split
        · rw [Slice.range, if_pos hname, Kernel.ok_bind]
          split
          · refine ⟨_, rfl, fun n hn => ?_⟩
            obtain rfl := Option.some.inj hn
            exact ⟨Or.inr ⟨b, pos, hb, hpos, hroom, hinode⟩, Memory.readLE_lt _ _ 4⟩
          · exact hnext
        · exact hnext
    · rw [if_neg hroom]
      exact ⟨none, rfl, nofun⟩

theorem scanBlocks_returns (h : fs.WellFormed) (name : List UInt8) {bs : List Nat}
    (hbs : ∀ b ∈ bs.takeWhile (· != 0), fs.RootBlock b) :
    ∃ found, fs.scanBlocks name bs = .ok found ∧ ∀ n, found = some n → fs.Listed n ∧ n < 2 ^ 32 := by
  induction bs with
  | nil => exact ⟨none, rfl, nofun⟩
  | cons b bs ih =>
    rw [scanBlocks]
    by_cases hzero : b = 0
    · rw [if_pos (by simpa using hzero)]
      exact ⟨none, rfl, nofun⟩
    · rw [List.takeWhile_cons_of_pos (by simpa using hzero)] at hbs
      obtain ⟨found, hfound, hlisted⟩ :=
        scanDir_returns h name (hbs b (List.mem_cons_self ..)) fs.blockSize .first
      rw [if_neg (by simpa using hzero), hfound, Kernel.ok_bind]
      cases found with
      | some n => exact ⟨some n, rfl, hlisted⟩
      | none => exact ih fun c hc => hbs c (List.mem_cons_of_mem _ hc)

/-- **Every path can be looked up**, and what is found is the root or has a record there. -/
theorem lookup_returns (h : fs.WellFormed) (path : List UInt8) : ∃ found, fs.lookup path = .ok found ∧
    ∀ n, found = some n → fs.Listed n ∧ n < 2 ^ 32 := by
  unfold lookup
  generalize (if path.head? == some 0x2F then path.tail else path) = name
  simp only
  split
  · refine ⟨some rootInode, rfl, fun n hn => ?_⟩
    obtain rfl := Option.some.inj hn
    exact ⟨Or.inl rfl, by decide⟩
  · obtain ⟨root, hroot⟩ := readInode_returns h (show rootInode < 2 ^ 32 by decide)
    rw [hroot, Kernel.ok_bind]
    cases root with
    | none => exact ⟨none, rfl, nofun⟩
    | some root => exact scanBlocks_returns h _ fun b hb => ⟨root, hroot, hb⟩

/-! ## Reads -/

theorem readLoop_returns {inode : Inode} (h : fs.FileOk inode) (hsize : 0 < fs.blockSize)
    {toRead : Nat} : ∀ (fuel : Nat) {bytesRead fileOffset : Nat},
      fileOffset + (toRead - bytesRead) ≤ inode.size →
      ∃ bytes, fs.readLoop inode toRead fuel bytesRead fileOffset = .ok bytes := by
  intro fuel
  induction fuel with
  | zero =>
    intro bytesRead fileOffset _
    exact ⟨[], rfl⟩
  | succ fuel ih =>
    intro bytesRead fileOffset hend
    rw [readLoop]
    by_cases hlt : bytesRead < toRead
    · have hmod := Nat.mod_lt fileOffset hsize
      have hdiv := Nat.div_mul_le_self fileOffset fs.blockSize
      obtain ⟨block, hblock, hinside⟩ := h (fileOffset / fs.blockSize) (by omega)
      rw [if_pos hlt, if_neg (by simpa using Nat.pos_iff_ne_zero.mp hsize), hblock, Kernel.ok_bind]
      cases block with
      | none => exact ⟨[], rfl⟩
      | some b =>
        simp only
        split
        · exact ⟨[], rfl⟩
        · rename_i hne
          have hle := hinside b rfl (by simpa using hne)
          rw [Nat.succ_mul] at hle
          generalize hchunk : min (fs.blockSize - fileOffset % fs.blockSize) (toRead - bytesRead) = chunk
          have hleft : fileOffset + chunk + (toRead - (bytesRead + chunk)) ≤ inode.size := by omega
          obtain ⟨rest, hrest⟩ := ih hleft
          rw [Slice.range, if_pos (by omega), Kernel.ok_bind, hrest, Kernel.ok_bind]
          exact ⟨_, rfl⟩
    · rw [if_neg hlt]
      exact ⟨[], rfl⟩

/-- **A file in the image can be read** from any offset on. -/
theorem readData_returns {inode : Inode} (h : fs.FileOk inode) (hsize : 0 < fs.blockSize)
    (offset bufLen : Nat) : ∃ bytes, fs.readData inode offset bufLen = .ok bytes := by
  unfold readData
  split
  · exact ⟨[], rfl⟩
  · exact readLoop_returns h hsize _ (by omega)

end Coconut.Ext2Fs
