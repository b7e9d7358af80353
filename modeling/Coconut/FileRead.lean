import Coconut.Ext2

/-!
# Reading a file into a buffer

`Ext2Fs.readData` returns the bytes `read_data` copies.  Here the buffer is part of
the state: each round of the loop copies one chunk to `buf[bytes_read..]`, and an index
outside the buffer is the panic of `copy_from_slice`.  The loop is the one of
`readLoop` with the buffer carried along (`fillLoop_eq`), and needs no fuel: a round
copies at least one byte.

The contents of a file are its blocks in the order of the block map, clipped to the
inode's size.  On a file whose blocks all lie in the image a read is a window of them.
-/
namespace Coconut.Ext2Fs

/-- `buf[start..start + bytes.len()].copy_from_slice(bytes)`. -/
def copyFromSlice (buf : List UInt8) (start : Nat) (bytes : List UInt8) : Kernel (List UInt8) :=
  if start + bytes.length ≤ buf.length then
    .ok (buf.take start ++ bytes ++ buf.drop (start + bytes.length))
  else .error .indexOutOfBounds

/-- The loop of `read_data`, with the buffer: what it holds in the end, and `bytes_read`. -/
def fillLoop (fs : Ext2Fs) (inode : Inode) (toRead bytesRead fileOffset : Nat) (buf : List UInt8) :
    Kernel (List UInt8 × Nat) :=
  if _hlt : bytesRead < toRead then
    if _hsize : fs.blockSize = 0 then .error .divideByZero
    else do
      match ← fs.blockAt inode (fileOffset / fs.blockSize) with
      | none => return (buf, bytesRead)
      | some blockNr =>
        if blockNr == 0 then return (buf, bytesRead)
        let offsetInBlock := fileOffset % fs.blockSize
        let available := fs.blockSize - offsetInBlock
        let chunk := min available (toRead - bytesRead)
        let bytes ← fs.data.range (blockNr * fs.blockSize + offsetInBlock) chunk
        let buf ← copyFromSlice buf bytesRead bytes
        fillLoop fs inode toRead (bytesRead + chunk) (fileOffset + chunk) buf
  else .ok (buf, bytesRead)
termination_by toRead - bytesRead
decreasing_by
  have := Nat.mod_lt fileOffset (Nat.pos_of_ne_zero _hsize)
  omega

/-- Read file data from `offset` on into `buf`: the buffer afterwards, and the number of
bytes read. -/
def readDataInto (fs : Ext2Fs) (inode : Inode) (offset : Nat) (buf : List UInt8) :
    Kernel (List UInt8 × Nat) :=
  if inode.size ≤ offset then .ok (buf, 0)
  else
    let toRead := min buf.length (inode.size - offset)
    fs.fillLoop inode toRead 0 offset buf

/-- `buf` with `bytes` in place of what it held from `start` on. -/
def splice (buf : List UInt8) (start : Nat) (bytes : List UInt8) : List UInt8 × Nat :=
  (buf.take start ++ bytes ++ buf.drop (start + bytes.length), start + bytes.length)

theorem splice_nil (buf : List UInt8) (start : Nat) : splice buf start [] = (buf, start) := by
  rw [splice, List.append_nil, List.length_nil, Nat.add_zero, List.take_append_drop]

theorem copyFromSlice_eq {buf bytes : List UInt8} {start : Nat}
    (h : start + bytes.length ≤ buf.length) :
    copyFromSlice buf start bytes = .ok (splice buf start bytes).1 := if_pos h

/-- Two copies one after the other are one copy. -/
theorem splice_splice {buf a : List UInt8} {start : Nat} (h : start + a.length ≤ buf.length)
    (b : List UInt8) : splice (splice buf start a).1 (start + a.length) b = splice buf start (a ++ b) := by
  have hpre : (buf.take start ++ a).length = start + a.length := by
    rw [List.length_append, List.length_take, Nat.min_eq_left (by omega)]
  have htake : (splice buf start a).1.take (start + a.length) = buf.take start ++ a := by
    rw [splice, ← hpre, List.take_left]
  have hdrop : (splice buf start a).1.drop (start + a.length + b.length) =
      buf.drop (start + a.length + b.length) := by
    rw [splice, ← List.drop_drop, ← hpre, List.drop_left, hpre, List.drop_drop]
  rw [splice, htake, hdrop, splice, List.length_append]
  simp only [List.append_assoc, Nat.add_assoc]

theorem length_splice {buf bytes : List UInt8} {start : Nat}
    (h : start + bytes.length ≤ buf.length) : (splice buf start bytes).1.length = buf.length := by
  rw [splice, List.length_append, List.length_append, List.length_take, List.length_drop]
  omega

/-- The loop copies what `readLoop` returns, whatever fuel that is given beyond the
bytes left to read. -/
theorem fillLoop_eq {fs : Ext2Fs} {inode : Inode} {toRead : Nat} :
    ∀ {fuel bytesRead fileOffset : Nat} {buf : List UInt8},
      toRead - bytesRead ≤ fuel → toRead ≤ buf.length →
      fs.fillLoop inode toRead bytesRead fileOffset buf =
        (fs.readLoop inode toRead fuel bytesRead fileOffset).map (splice buf bytesRead) := by
  intro fuel
  induction fuel with
  | zero =>
    intro bytesRead fileOffset buf hfuel _
    rw [fillLoop, dif_neg (by omega), readLoop, Except.map, splice_nil]
  | succ fuel ih =>
    intro bytesRead fileOffset buf hfuel hbuf
    rw [fillLoop, readLoop]
    by_cases hlt : bytesRead < toRead
    · rw [dif_pos hlt, if_pos hlt]
      by_cases hsize : fs.blockSize = 0
      · rw [dif_pos hsize, if_pos (by simpa using hsize)]
        rfl
      · have hmod := Nat.mod_lt fileOffset (Nat.pos_of_ne_zero hsize)
        rw [dif_neg hsize, if_neg (by simpa using hsize)]
        cases hb : fs.blockAt inode (fileOffset / fs.blockSize) with
        | error p => rfl
        | ok b? =>
          cases b? with
          | none => exact congrArg Except.ok (splice_nil _ _).symm
          | some b =>
            simp only [Kernel.ok_bind]
            by_cases hzero : b = 0
            · rw [if_pos (by simpa using hzero), if_pos (by simpa using hzero)]
              exact congrArg Except.ok (splice_nil _ _).symm
            · rw [if_neg (by simpa using hzero), if_neg (by simpa using hzero)]
              generalize hchunk :
                min (fs.blockSize - fileOffset % fs.blockSize) (toRead - bytesRead) = chunk
              cases hr : fs.data.range (b * fs.blockSize + fileOffset % fs.blockSize) chunk with
              | error p => rfl
              | ok bytes =>
                have hlen := Slice.length_range hr
                have hfits : bytesRead + bytes.length ≤ buf.length := by omega
                rw [Kernel.ok_bind, Kernel.ok_bind, copyFromSlice_eq hfits, Kernel.ok_bind,
                  ih (by omega) (by rw [length_splice hfits]; exact hbuf)]
                -- the rest of the loop writes behind this chunk
                cases fs.readLoop inode toRead fuel (bytesRead + chunk) (fileOffset + chunk) with
                | error p => rfl
                | ok rest =>
                  rw [← hlen]
                  exact congrArg Except.ok (splice_splice hfits rest)
    · rw [dif_neg hlt, if_neg hlt, Except.map, splice_nil]

/-- The buffer after a read: the bytes `readData` returns, then what it held before. -/
theorem readDataInto_eq (fs : Ext2Fs) (inode : Inode) (offset : Nat) (buf : List UInt8) :
    fs.readDataInto inode offset buf =
      (fs.readData inode offset buf.length).map fun bytes =>
        (bytes ++ buf.drop bytes.length, bytes.length) := by
  have hsplice : splice buf 0 = fun bytes => (bytes ++ buf.drop bytes.length, bytes.length) := by
    funext bytes
    rw [splice, List.take_zero, List.nil_append, Nat.zero_add]
  unfold readDataInto readData
  split
  · rfl
  · rw [fillLoop_eq (Nat.le_refl _) (Nat.min_le_left _ _), hsplice]
    rfl

/-! ## Valid files -/

/-- Block `idx` of a file: the direct pointers, then the words of the indirect block. -/
def blockNr (fs : Ext2Fs) (inode : Inode) (idx : Nat) : Nat :=
  if idx < 12 then inode.blocks.getD idx 0
  else fs.data.bytes.readLE (inode.blocks.getD 12 0 * fs.blockSize + (idx - 12) * 4) 4

/-- The number of blocks a file takes. -/
def blockCount (fs : Ext2Fs) (inode : Inode) : Nat :=
  (inode.size + fs.blockSize - 1) / fs.blockSize

/-- `b` names a block of the image. -/
def InImage (fs : Ext2Fs) (b : Nat) : Prop := b ≠ 0 ∧ (b + 1) * fs.blockSize ≤ fs.data.len

instance (fs : Ext2Fs) (b : Nat) : Decidable (fs.InImage b) := inferInstanceAs (Decidable (_ ∧ _))

/-- A file that twelve direct pointers and one indirect block can hold, with every
block in the image. -/
structure ValidFile (fs : Ext2Fs) (inode : Inode) : Prop where
  blockSize_pos : 0 < fs.blockSize
  words : 4 ∣ fs.blockSize
  mappable : fs.blockCount inode ≤ 12 + fs.blockSize / 4
  indirect : 12 < fs.blockCount inode → fs.InImage (inode.blocks.getD 12 0)
  blocks : ∀ idx < fs.blockCount inode, fs.InImage (fs.blockNr inode idx)

/-- What a file holds: its blocks one after the other, up to its size. -/
def contents (fs : Ext2Fs) (inode : Inode) : List UInt8 :=
  ((List.range (fs.blockCount inode)).flatMap fun idx =>
    fs.data.bytes.readBytes (fs.blockNr inode idx * fs.blockSize) fs.blockSize).take inode.size

variable {fs : Ext2Fs} {inode : Inode}

theorem lt_blockCount (hsize : 0 < fs.blockSize) {idx : Nat} :
    idx < fs.blockCount inode ↔ idx * fs.blockSize < inode.size := by
  rw [blockCount, Nat.lt_iff_add_one_le, Nat.le_div_iff_mul_le hsize, Nat.succ_mul]
  omega

theorem size_le_blocks (inode : Inode) (hsize : 0 < fs.blockSize) :
    inode.size ≤ fs.blockCount inode * fs.blockSize :=
  Nat.le_of_not_lt fun h => Nat.lt_irrefl _ ((lt_blockCount hsize).mpr h)

theorem ValidFile.blockAt (h : fs.ValidFile inode) {idx : Nat} (hidx : idx < fs.blockCount inode) :
    fs.blockAt inode idx = .ok (some (fs.blockNr inode idx)) := by
  have hmap := h.mappable
  unfold Ext2Fs.blockAt blockNr
  by_cases hdirect : idx < 12
  · rw [if_pos hdirect, if_pos hdirect]
  · obtain ⟨hne, hin⟩ := h.indirect (by omega)
    obtain ⟨k, hk⟩ := h.words
    have hword : (idx - 12) * 4 + 4 ≤ fs.blockSize := by omega
    rw [Nat.succ_mul] at hin
    simp only [if_neg hdirect, beq_iff_eq, if_neg hne]
    rw [if_pos (by omega), Slice.readLE, if_pos (by omega)]
    rfl

theorem ValidFile.backed (h : fs.ValidFile inode) : fs.Backed inode := by
  intro idx hidx
  have hlt := (lt_blockCount h.blockSize_pos).mpr hidx
  exact ⟨_, h.blockAt hlt, h.blocks idx hlt⟩

/-- Byte `k` of equally long pieces laid end to end. -/
theorem getElem?_flatMap_range {α : Type} {f : Nat → List α} {m : Nat} (hf : ∀ i, (f i).length = m) :
    ∀ {n k : Nat}, k < n * m → ((List.range n).flatMap f)[k]? = (f (k / m))[k % m]? := by
  intro n
  induction n with
  | zero => intro k hk; omega
  | succ n ih =>
    intro k hk
    have hlen : ((List.range n).flatMap f).length = n * m := by
      rw [List.length_flatMap, List.map_congr_left fun i _ => hf i, List.map_const',
        List.sum_replicate_nat, List.length_range]
    rw [List.range_succ, List.flatMap_append, List.flatMap_singleton]
    by_cases hlt : k < n * m
    · rw [List.getElem?_append_left (by omega), ih hlt]
    · rw [Nat.succ_mul] at hk
      obtain ⟨j, rfl⟩ := Nat.exists_eq_add_of_le (Nat.le_of_not_lt hlt)
      have hj : j < m := by omega
      rw [List.getElem?_append_right (by omega), hlen, Nat.add_sub_cancel_left, Nat.mul_comm n m,
        Nat.mul_add_div (by omega), Nat.div_eq_of_lt hj, Nat.add_zero, Nat.mul_add_mod,
        Nat.mod_eq_of_lt hj]

theorem length_contents (inode : Inode) (hsize : 0 < fs.blockSize) :
    (fs.contents inode).length = inode.size := by
  have := size_le_blocks inode hsize
  rw [contents, List.length_take, List.length_flatMap,
    List.map_congr_left fun i _ => Memory.length_readBytes _ _ _, List.map_const',
    List.sum_replicate_nat, List.length_range]
  omega

/-- The block map of `fileByte` finds the bytes of the contents. -/
theorem ValidFile.fileByte (h : fs.ValidFile inode) {k : Nat} (hk : k < inode.size) :
    fs.fileByte inode k = (fs.contents inode).getD k 0 := by
  have hsize := h.blockSize_pos
  have hidx : k / fs.blockSize < fs.blockCount inode :=
    (lt_blockCount hsize).mpr (Nat.lt_of_le_of_lt (Nat.div_mul_le_self _ _) hk)
  rw [Ext2Fs.fileByte, h.blockAt hidx, List.getD_eq_getElem?_getD, contents,
    List.getElem?_take_of_lt hk,
    getElem?_flatMap_range (fun i => Memory.length_readBytes _ _ _)
      (Nat.lt_of_lt_of_le hk (size_le_blocks inode hsize)),
    Memory.getElem?_readBytes _ (Nat.mod_lt k hsize), Option.getD_some]
  exact if_neg (h.blocks _ hidx).1

theorem ValidFile.fileBytes (h : fs.ValidFile inode) {offset n : Nat}
    (hn : offset + n ≤ inode.size) :
    fs.fileBytes inode offset n = ((fs.contents inode).drop offset).take n := by
  have hlen := length_contents inode h.blockSize_pos
  exact fileBytes_eq (fun k hk => h.fileByte (hlen ▸ hk)) (hlen ▸ hn)

/-- The part of a file that a read of `n` bytes at `offset` covers. -/
def window (fs : Ext2Fs) (inode : Inode) (offset n : Nat) : List UInt8 :=
  ((fs.contents inode).drop offset).take n

theorem length_window (inode : Inode) (hsize : 0 < fs.blockSize) (offset n : Nat) :
    (fs.window inode offset n).length = min n (inode.size - offset) := by
  rw [window, List.length_take, List.length_drop, length_contents inode hsize]

theorem window_add (fs : Ext2Fs) (inode : Inode) (offset m n : Nat) :
    fs.window inode offset (m + n) = fs.window inode offset m ++ fs.window inode (offset + m) n := by
  rw [window, window, window, List.take_add, List.drop_drop]

theorem ValidFile.readDataInto (h : fs.ValidFile inode) (offset : Nat) (buf : List UInt8) :
    fs.readDataInto inode offset buf =
      .ok (fs.window inode offset buf.length ++ buf.drop (min buf.length (inode.size - offset)),
        min buf.length (inode.size - offset)) := by
  have hsize := h.blockSize_pos
  have hbytes : fs.fileBytes inode offset (min buf.length (inode.size - offset)) =
      fs.window inode offset buf.length := by
    by_cases hoff : offset ≤ inode.size
    · rw [h.fileBytes (by omega), window, ← length_contents inode hsize,
        ← List.length_drop, ← List.take_take, List.take_length]
    · have hlen := length_window inode hsize offset buf.length
      rw [show min buf.length (inode.size - offset) = 0 by omega] at hlen ⊢
      rw [List.length_eq_zero_iff.mp hlen]
      rfl
  rw [readDataInto_eq, readData_of_backed h.backed hsize, Except.map, hbytes,
    length_window inode hsize]

/-- The buffer that a read of a longer range fills, cut at `b.length`. -/
theorem ValidFile.readDataInto_append (h : fs.ValidFile inode) (offset : Nat) (b c : List UInt8) :
    fs.window inode offset (b ++ c).length ++
        (b ++ c).drop (min (b ++ c).length (inode.size - offset)) =
      (fs.window inode offset b.length ++ b.drop (min b.length (inode.size - offset))) ++
        (fs.window inode (offset + b.length) c.length ++
          c.drop (min c.length (inode.size - (offset + b.length)))) := by
  rw [List.length_append, window_add]
  by_cases hfull : b.length ≤ inode.size - offset
  · have hdrop : min (b.length + c.length) (inode.size - offset) =
        b.length + min c.length (inode.size - (offset + b.length)) := by omega
    rw [hdrop, ← List.drop_drop, List.drop_left, Nat.min_eq_left hfull, List.drop_length,
      List.append_nil, List.append_assoc]
  · -- the file ends inside `b`: the second read copies nothing
    have hnil : fs.window inode (offset + b.length) c.length = [] := by
      apply List.length_eq_zero_iff.mp
      rw [length_window inode h.blockSize_pos]
      omega
    rw [hnil, List.append_nil, List.nil_append,
      show min (b.length + c.length) (inode.size - offset) = inode.size - offset by omega,
      show min b.length (inode.size - offset) = inode.size - offset by omega,
      show min c.length (inode.size - (offset + b.length)) = 0 by omega, List.drop_zero,
      List.drop_append_of_le_length (by omega), List.append_assoc]

/-- On a valid file `read_data` fills the buffer with the file's bytes from `offset` on
as far as both reach and keeps the rest of it; a read of `[a, c)` is one of `[a, b)`
followed by one of `[b, c)`. -/
theorem readDataInto_exact {fs : Ext2Fs} {inode : Inode} (h : fs.ValidFile inode) :
    (∀ offset buf, fs.readDataInto inode offset buf =
      .ok (((fs.contents inode).drop offset).take buf.length ++
          buf.drop (min buf.length (inode.size - offset)),
        min buf.length (inode.size - offset))) ∧
    (fs.contents inode).length = inode.size ∧
    ∀ a b c, ∃ out₁ out₂ n₁ n₂, fs.readDataInto inode a b = .ok (out₁, n₁) ∧
      fs.readDataInto inode (a + b.length) c = .ok (out₂, n₂) ∧
      fs.readDataInto inode a (b ++ c) = .ok (out₁ ++ out₂, n₁ + n₂) := by
  refine ⟨h.readDataInto, length_contents inode h.blockSize_pos, ?_⟩
  intro a b c
  refine ⟨_, _, _, _, h.readDataInto a b, h.readDataInto (a + b.length) c, ?_⟩
  rw [h.readDataInto, h.readDataInto_append, List.length_append]
  have hcount : min (b.length + c.length) (inode.size - a) =
      min b.length (inode.size - a) + min c.length (inode.size - (a + b.length)) := by omega
  rw [hcount]

/-- An image of fifteen 4-byte blocks; word 0 of block 13 points to block 14. -/
def stripeFs : Ext2Fs where
  data := ⟨fun a => if a = 52 then 14 else if 53 ≤ a ∧ a < 56 then 0 else UInt8.ofNat a, 60⟩
  blockSize := 4
  inodesPerGroup := 1
  inodeSize := 128
  inodeTableBlock := 0

/-- A file of twelve direct blocks and two bytes behind the indirect one. -/
def stripeInode : Inode := ⟨0x8000, 50, [1, 2, 3, 4, 5, 6, 7, 8, 9, 10, 11, 12, 13, 0, 0]⟩

theorem stripe_valid : stripeFs.ValidFile stripeInode where
  blockSize_pos := by decide
  words := by decide
  mappable := by decide
  indirect := by decide
  blocks := by decide

/-- A read over the switch from direct to indirect blocks that also reaches the end. -/
theorem readDataInto_exact_stripe : stripeFs.ValidFile stripeInode ∧
    stripeFs.readDataInto stripeInode 46 [0, 0, 0, 0, 0, 9] = .ok ([50, 51, 56, 57, 0, 9], 4) :=
  ⟨stripe_valid, (readDataInto_exact stripe_valid).1 46 [0, 0, 0, 0, 0, 9]⟩

end Coconut.Ext2Fs
