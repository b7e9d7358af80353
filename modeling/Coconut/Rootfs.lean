import Coconut.Ext2
import Coconut.Layout

/-!
# The ramdisk image

`main` of the build script writes an ext2 image by hand: superblock, group descriptor,
bitmaps, inode table, root directory, and the data of `hello.txt` and `model.bin`.  Every
offset is spelled out, and the writes come in ascending order; a section of the image is
the list of its writes.

The parser agrees with it: what `ext2::init` makes of the image finds both files and reads
them back byte for byte.
-/
namespace Coconut.Rootfs
open Layout

@[simp] def blockSize : Nat := 1024
@[simp] def totalBlocks : Nat := 128
@[simp] def imageSize : Nat := totalBlocks * blockSize
@[simp] def totalInodes : Nat := 32
@[simp] def inodeSize : Nat := 128

@[simp] def blockSuperblock : Nat := 1
@[simp] def blockGroupDesc : Nat := 2
@[simp] def blockBlockBitmap : Nat := 3
@[simp] def blockInodeBitmap : Nat := 4
@[simp] def blockInodeTable : Nat := 5
@[simp] def blockRootDir : Nat := 9
@[simp] def blockHelloTxt : Nat := 10

/-- Why the build stops. -/
inductive BuildPanic where
  | modelTooLarge (need : Nat)
  | indexOutOfBounds
  deriving DecidableEq, Repr

def BuildPanic.message : BuildPanic → String
  | .modelTooLarge need => s!"model too large for image: need {need} blocks, have {totalBlocks}"
  | .indexOutOfBounds => "index out of bounds"

abbrev Build (α : Type) := Except BuildPanic α

/-- The bytes of an ASCII literal. -/
def ascii (s : String) : List UInt8 := s.toList.map fun c => UInt8.ofNat c.toNat

/-! ## Where the blocks of the model go -/

def modelDataBlocks (m : List UInt8) : Nat := (m.length + blockSize - 1) / blockSize

def modelDirectCount (m : List UInt8) : Nat := min (modelDataBlocks m) 12

def modelIndirectCount (m : List UInt8) : Nat :=
  if 12 < modelDataBlocks m then modelDataBlocks m - 12 else 0

def needsIndirect (m : List UInt8) : Bool := 0 < modelIndirectCount m

@[simp] def modelDirectStart : Nat := 11

def modelIndirectPtrBlock (m : List UInt8) : Nat :=
  if needsIndirect m then modelDirectStart + modelDirectCount m else 0

def modelIndirectDataStart (m : List UInt8) : Nat :=
  if needsIndirect m then modelIndirectPtrBlock m + 1 else 0

def totalModelBlocks (m : List UInt8) : Nat :=
  modelDataBlocks m + if needsIndirect m then 1 else 0

def firstFreeBlock (m : List UInt8) : Nat := 11 + totalModelBlocks m

/-! ## Sections of the image -/

def writeU16Le (offset val : Nat) : Field := word 2 offset val

def writeU32Le (offset val : Nat) : Field := word 4 offset val

def superblock (firstFree : Nat) : List Field :=
  let sb := blockSuperblock * blockSize
  [writeU32Le (sb + 0) totalInodes,
    writeU32Le (sb + 4) totalBlocks,
    writeU32Le (sb + 8) 0,
    writeU32Le (sb + 12) (totalBlocks - firstFree),
    writeU32Le (sb + 16) (totalInodes - 12),
    writeU32Le (sb + 20) 1,
    writeU32Le (sb + 24) 0,
    writeU32Le (sb + 28) 0,
    writeU32Le (sb + 32) totalBlocks,
    writeU32Le (sb + 36) totalBlocks,
    writeU32Le (sb + 40) totalInodes,
    writeU16Le (sb + 48) 0,
    writeU16Le (sb + 50) 0xFFFF,
    writeU16Le (sb + 56) 0xEF53,
    writeU16Le (sb + 58) 1,
    writeU16Le (sb + 60) 1,
    writeU32Le (sb + 76) 0]

def groupDescriptor (firstFree : Nat) : List Field :=
  let bgd := blockGroupDesc * blockSize
  [writeU32Le (bgd + 0) blockBlockBitmap,
    writeU32Le (bgd + 4) blockInodeBitmap,
    writeU32Le (bgd + 8) blockInodeTable,
    writeU16Le (bgd + 12) (totalBlocks - firstFree),
    writeU16Le (bgd + 14) (totalInodes - 12),
    writeU16Le (bgd + 16) 1]

def inodeBitmap : List Field := [writeU16Le (blockInodeBitmap * blockSize) 0x0FFF]

/-- The offset of an inode. -/
def inodeOffset (ino : Nat) : Nat := blockInodeTable * blockSize + (ino - 1) * inodeSize

def rootDirInode : List Field :=
  let rootIno := inodeOffset 2
  [writeU16Le (rootIno + 0) (0x4000 ||| 0o755),
    writeU32Le (rootIno + 4) blockSize,
    writeU16Le (rootIno + 26) 2,
    writeU32Le (rootIno + 28) 2,
    writeU32Le (rootIno + 40) blockRootDir]

def helloData : List UInt8 := ascii "Hello from coconutFS!\n"

def helloInode : List Field :=
  let helloIno := inodeOffset 11
  [writeU16Le (helloIno + 0) (0x8000 ||| 0o644),
    writeU32Le (helloIno + 4) helloData.length,
    writeU16Le (helloIno + 26) 1,
    writeU32Le (helloIno + 28) 2,
    writeU32Le (helloIno + 40) blockHelloTxt]

/-- `i_block[0..model_direct_count]`. -/
def directPointers (m : List UInt8) : List Field :=
  (List.range' 0 (modelDirectCount m)).map fun i =>
    writeU32Le (inodeOffset 12 + 40 + i * 4) (modelDirectStart + i)

/-- `i_block[12]`. -/
def indirectPointer (m : List UInt8) : List Field :=
  if needsIndirect m then [writeU32Le (inodeOffset 12 + 40 + 12 * 4) (modelIndirectPtrBlock m)] else []

def modelInode (m : List UInt8) : List Field :=
  let modelIno := inodeOffset 12
  let modelSectors := totalModelBlocks m * (blockSize / 512)
  [writeU16Le (modelIno + 0) (0x8000 ||| 0o644),
    writeU32Le (modelIno + 4) m.length,
    writeU16Le (modelIno + 26) 1,
    writeU32Le (modelIno + 28) modelSectors]

def rootDir : List Field :=
  let rd := blockRootDir * blockSize
  [writeU32Le (rd + 0) 2,
    writeU16Le (rd + 4) 12,
    writeU16Le (rd + 6) 1,
    ⟨rd + 8, ascii "."⟩,
    writeU32Le (rd + 12) 2,
    writeU16Le (rd + 16) 12,
    writeU16Le (rd + 18) 2,
    ⟨rd + 20, ascii "."⟩,
    ⟨rd + 21, ascii "."⟩,
    writeU32Le (rd + 24) 11,
    writeU16Le (rd + 28) 20,
    writeU16Le (rd + 30) 9,
    ⟨rd + 32, ascii "hello.txt"⟩,
    writeU32Le (rd + 44) 12,
    writeU16Le (rd + 48) (blockSize - 44),
    writeU16Le (rd + 50) 9,
    ⟨rd + 52, ascii "model.bin"⟩]

def helloTxt : List Field := [⟨blockHelloTxt * blockSize, helloData⟩]

/-- The block of pointers to the data behind the direct blocks. -/
def indirectPointers (m : List UInt8) : List Field :=
  (List.range' 0 (modelIndirectCount m)).map fun i =>
    writeU32Le (modelIndirectPtrBlock m * blockSize + i * 4) (modelIndirectDataStart m + i)

/-! ## The writes -/

/-- Store one field; every byte is indexed. -/
def put (img : Slice) (f : Field) : Build Slice :=
  if f.stop ≤ img.len then .ok { img with bytes := img.bytes.writeBytes f.off f.bytes }
  else .error .indexOutOfBounds

def putAll (img : Slice) : List Field → Build Slice
  | [] => .ok img
  | f :: fs => do
    let img ← put img f
    putAll img fs

/-- `img[a] |= 1 << bit`. -/
def setBit (m : Memory) (a bit : Nat) : Memory :=
  fun x => if x = a then m x ||| ((1 : UInt8) <<< UInt8.ofNat bit) else m x

/-- The loop that sets bit after bit of the block bitmap at `bb`. -/
def markBlocks (bb : Nat) : Nat → Nat → Slice → Build Slice
  | 0, _, img => .ok img
  | n + 1, bit, img =>
    let byteIdx := bit / 8
    let bitIdx := bit % 8
    if bb + byteIdx < img.len then
      markBlocks bb n (bit + 1) { img with bytes := setBit img.bytes (bb + byteIdx) bitIdx }
    else .error .indexOutOfBounds

/-- `&model_data[start..end]`. -/
def modelSlice (m : List UInt8) (srcStart srcEnd : Nat) : Build (List UInt8) :=
  if srcStart ≤ srcEnd ∧ srcEnd ≤ m.length then .ok ((m.drop srcStart).take (srcEnd - srcStart))
  else .error .indexOutOfBounds

/-- Copy block `src` of the model to block `blockNr` of the image. -/
def copyBlock (m : List UInt8) (img : Slice) (blockNr src : Nat) : Build Slice := do
  let srcStart := src * blockSize
  let srcEnd := min (srcStart + blockSize) m.length
  let bytes ← modelSlice m srcStart srcEnd
  put img ⟨blockNr * blockSize, bytes⟩

/-- The loop over the direct blocks. -/
def copyDirect (m : List UInt8) : Nat → Nat → Slice → Build Slice
  | 0, _, img => .ok img
  | n + 1, i, img => do
    let img ← copyBlock m img (modelDirectStart + i) i
    copyDirect m n (i + 1) img

/-- The loop over the blocks behind the indirect pointers, which also ends where the model
does. -/
def copyIndirect (m : List UInt8) : Nat → Nat → Slice → Build Slice
  | 0, _, img => .ok img
  | n + 1, i, img =>
    if m.length ≤ (12 + i) * blockSize then .ok img
    else do
      let img ← copyBlock m img (modelIndirectDataStart m + i) (12 + i)
      copyIndirect m n (i + 1) img

/-- `main`, for the model data `m`: the image it writes to `rootfs.ext2`. -/
def main (m : List UInt8) : Build Slice := do
  let firstFree := firstFreeBlock m
  if totalBlocks < firstFree then throw (.modelTooLarge firstFree)
  let img : Slice := ⟨fun _ => 0, imageSize⟩
  let img ← putAll img (superblock firstFree ++ groupDescriptor firstFree)
  let img ← markBlocks (blockBlockBitmap * blockSize) firstFree 0 img
  let img ← putAll img (inodeBitmap ++ rootDirInode ++ helloInode ++ modelInode m ++
    directPointers m ++ indirectPointer m ++ rootDir ++ helloTxt)
  let img ← copyDirect m (modelDirectCount m) 0 img
  if needsIndirect m then
    let img ← putAll img (indirectPointers m)
    copyIndirect m (modelIndirectCount m) 0 img
  else return img

/-! ## What is written -/

/-- Block `src` of the model as a block of the image. -/
def blockField (m : List UInt8) (blockNr src : Nat) : Field :=
  ⟨blockNr * blockSize, (m.drop (src * blockSize)).take blockSize⟩

def directData (m : List UInt8) : List Field :=
  (List.range' 0 (modelDirectCount m)).map fun i => blockField m (modelDirectStart + i) i

def indirectData (m : List UInt8) : List Field :=
  (List.range' 0 (modelIndirectCount m)).map fun i =>
    blockField m (modelIndirectDataStart m + i) (12 + i)

/-- Everything in front of the block bitmap. -/
def headFields (m : List UInt8) : List Field :=
  superblock (firstFreeBlock m) ++ groupDescriptor (firstFreeBlock m)

/-- Everything from the inode bitmap to the root directory and `hello.txt`. -/
def tableFields (m : List UInt8) : List Field :=
  inodeBitmap ++ rootDirInode ++ helloInode ++ modelInode m ++ directPointers m ++ indirectPointer m ++
    rootDir ++ helloTxt

/-- Everything behind the block bitmap. -/
def tailFields (m : List UInt8) : List Field :=
  tableFields m ++ directData m ++ indirectPointers m ++ indirectData m

/-- The image with fields stored in it. -/
def stored (img : Slice) (fs : List Field) : Slice := { img with bytes := write img.bytes fs }

section Writes
variable {m : List UInt8} {img : Slice} {fs gs : List Field} {lo hi : Nat}

theorem stored_append : stored img (fs ++ gs) = stored (stored img fs) gs := by
  unfold stored
  rw [write_append]

theorem bind_of_ok {α β : Type} {x : Build α} {a : α} (h : x = .ok a) (f : α → Build β) :
    (x >>= f) = f a := by
  rw [h]
  rfl

theorem put_eq {f : Field} (h : f.stop ≤ img.len) : put img f = .ok (stored img [f]) := if_pos h

theorem putAll_of_ascending (img : Slice) (h : Ascending lo fs hi) (hlen : hi ≤ img.len) :
    putAll img fs = .ok (stored img fs) := by
  induction fs generalizing img lo with
  | nil => rfl
  | cons f fs ih =>
    rw [putAll, put_eq (Nat.le_trans h.2.le hlen)]
    exact ih _ h.2 hlen

/-- The bitmap of 128 blocks takes sixteen bytes. -/
theorem markBlocks_eq (bb : Nat) : ∀ (n bit : Nat) (img : Slice), bit + n ≤ 128 → bb + 16 ≤ img.len →
    ∃ bytes, markBlocks bb n bit img = .ok { img with bytes } ∧
      ∀ x, x < bb ∨ bb + 16 ≤ x → bytes x = img.bytes x
  | 0, _, img, _, _ => ⟨img.bytes, rfl, fun _ _ => rfl⟩
  | n + 1, bit, img, hbit, hlen => by
    obtain ⟨bytes, hmark, hframe⟩ := markBlocks_eq bb n (bit + 1)
      { img with bytes := setBit img.bytes (bb + bit / 8) (bit % 8) } (by omega) hlen
    refine ⟨bytes, ?_, fun x hx => (hframe x hx).trans (if_neg (by omega))⟩
    rw [markBlocks]
    exact (if_pos (by omega)).trans hmark

theorem length_blockField (m : List UInt8) (blockNr src : Nat) :
    (blockField m blockNr src).bytes.length ≤ blockSize := List.length_take_le _ _

theorem copyBlock_eq {blockNr src : Nat} (hsrc : src * blockSize ≤ m.length)
    (hlen : (blockNr + 1) * blockSize ≤ img.len) :
    copyBlock m img blockNr src = .ok (stored img [blockField m blockNr src]) := by
  have hslice : modelSlice m (src * blockSize) (min (src * blockSize + blockSize) m.length) =
      .ok ((m.drop (src * blockSize)).take blockSize) := by
    rw [modelSlice, if_pos (by omega)]
    refine congrArg Except.ok (List.take_eq_take_iff.mpr ?_)
    rw [List.length_drop]
    omega
  have hstop : (blockField m blockNr src).stop ≤ img.len := by
    have := length_blockField m blockNr src
    rw [Nat.succ_mul] at hlen
    exact Nat.le_trans (Nat.add_le_add_left this _) hlen
  unfold copyBlock
  simp only [hslice]
  exact put_eq hstop

theorem copyDirect_eq {n i : Nat} (hsrc : ∀ j, j < i + n → j * blockSize ≤ m.length)
    (hlen : ∀ j, j < i + n → (modelDirectStart + j + 1) * blockSize ≤ img.len) :
    copyDirect m n i img =
      .ok (stored img ((List.range' i n).map fun j => blockField m (modelDirectStart + j) j)) := by
  induction n generalizing i img with
  | zero => rfl
  | succ n ih =>
    rw [copyDirect, copyBlock_eq (hsrc i (by omega)) (hlen i (by omega))]
    exact ih (fun j hj => hsrc j (by omega)) fun j hj => hlen j (by omega)

theorem copyIndirect_eq {n i : Nat} (hsrc : ∀ j, j < i + n → (12 + j) * blockSize < m.length)
    (hlen : ∀ j, j < i + n → (modelIndirectDataStart m + j + 1) * blockSize ≤ img.len) :
    copyIndirect m n i img = .ok (stored img
      ((List.range' i n).map fun j => blockField m (modelIndirectDataStart m + j) (12 + j))) := by
  induction n generalizing i img with
  | zero => rfl
  | succ n ih =>
    have hi := hsrc i (by omega)
    rw [copyIndirect, if_neg (Nat.not_le_of_lt hi), copyBlock_eq (Nat.le_of_lt hi) (hlen i (by omega))]
    exact ih (fun j hj => hsrc j (by omega)) fun j hj => hlen j (by omega)

end Writes

/-! ## Where it is written -/

section Places
variable {m : List UInt8} {img : Slice}

theorem needsIndirect_eq (m : List UInt8) : needsIndirect m = decide (12 < modelDataBlocks m) := by
  unfold needsIndirect modelIndirectCount
  split
  · exact decide_eq_decide.mpr (by omega)
  · exact decide_eq_decide.mpr (by omega)

theorem modelIndirectCount_eq (m : List UInt8) : modelIndirectCount m = modelDataBlocks m - 12 := by
  unfold modelIndirectCount
  split <;> omega

theorem modelIndirectPtrBlock_eq (h : 12 < modelDataBlocks m) : modelIndirectPtrBlock m = 23 := by
  rw [modelIndirectPtrBlock, needsIndirect_eq, if_pos (decide_eq_true h), modelDirectCount,
    modelDirectStart, Nat.min_eq_right (by omega)]

theorem modelIndirectDataStart_eq (h : 12 < modelDataBlocks m) : modelIndirectDataStart m = 24 := by
  rw [modelIndirectDataStart, needsIndirect_eq, if_pos (decide_eq_true h), modelIndirectPtrBlock_eq h]

theorem length_le (m : List UInt8) : m.length ≤ modelDataBlocks m * 1024 := by
  unfold modelDataBlocks blockSize
  omega

theorem lt_length {n : Nat} (h : n < modelDataBlocks m) : n * 1024 < m.length := by
  unfold modelDataBlocks blockSize at h
  omega

/-- The size assertion lets 116 blocks through. -/
theorem firstFreeBlock_le_iff : firstFreeBlock m ≤ totalBlocks ↔ modelDataBlocks m ≤ 116 := by
  unfold firstFreeBlock totalModelBlocks
  rw [needsIndirect_eq]
  simp only [decide_eq_true_eq, totalBlocks]
  split <;> omega

@[simp] theorem off_writeU16Le (offset val : Nat) : (writeU16Le offset val).off = offset := rfl

@[simp] theorem off_writeU32Le (offset val : Nat) : (writeU32Le offset val).off = offset := rfl

@[simp] theorem stop_writeU16Le (offset val : Nat) : (writeU16Le offset val).stop = offset + 2 :=
  stop_word ..

@[simp] theorem stop_writeU32Le (offset val : Nat) : (writeU32Le offset val).stop = offset + 4 :=
  stop_word ..

theorem ascending_head (m : List UInt8) : Ascending 1024 (headFields m) 3072 := by
  simp [headFields, superblock, groupDescriptor, Ascending]

theorem ascending_rootDirInode : Ascending 5248 rootDirInode 5292 := by
  simp [rootDirInode, inodeOffset, Ascending]

theorem ascending_helloInode : Ascending 6400 helloInode 6444 := by
  simp [helloInode, inodeOffset, Ascending]

theorem ascending_modelInode (m : List UInt8) : Ascending 6528 (modelInode m) 6560 := by
  simp [modelInode, inodeOffset, Ascending]

theorem ascending_directPointers (m : List UInt8) :
    Ascending 6568 (directPointers m) (6568 + modelDirectCount m * 4) := by
  have h := ascending_map_range (a := 6568) (d := 4) (s := 0) (n := modelDirectCount m)
    (g := fun i => writeU32Le (inodeOffset 12 + 40 + i * 4) (modelDirectStart + i))
    (fun _ => rfl) fun _ => Nat.le_of_eq (length_leBytes ..)
  rwa [Nat.zero_mul, Nat.add_zero, Nat.zero_add] at h

theorem ascending_indirectPointer (m : List UInt8) : Ascending 6616 (indirectPointer m) 6620 := by
  unfold indirectPointer
  split <;> simp [inodeOffset, Ascending]

theorem ascending_rootDir : Ascending 9216 rootDir 9277 := by decide

theorem ascending_helloTxt : Ascending 10240 helloTxt 10262 := by decide

theorem ascending_directData (m : List UInt8) :
    Ascending 11264 (directData m) (11264 + modelDirectCount m * 1024) := by
  have h := ascending_map_range (a := 11264) (d := 1024) (s := 0) (n := modelDirectCount m)
    (g := fun i => blockField m (modelDirectStart + i) i) (fun i => Nat.add_mul 11 i 1024)
    fun i => length_blockField m _ i
  rwa [Nat.zero_mul, Nat.add_zero, Nat.zero_add] at h

theorem ascending_indirectPointers (m : List UInt8) :
    Ascending 23552 (indirectPointers m) (23552 + modelIndirectCount m * 4) := by
  by_cases h : 12 < modelDataBlocks m
  · have h := ascending_map_range (a := 23552) (d := 4) (s := 0) (n := modelIndirectCount m)
      (g := fun i => writeU32Le (modelIndirectPtrBlock m * blockSize + i * 4) (modelIndirectDataStart m + i))
      (fun i => by rw [modelIndirectPtrBlock_eq h]; rfl) fun _ => Nat.le_of_eq (length_leBytes ..)
    rwa [Nat.zero_mul, Nat.add_zero, Nat.zero_add] at h
  · rw [indirectPointers, modelIndirectCount_eq, Nat.sub_eq_zero_of_le (by omega)]
    exact Nat.le_refl _

theorem ascending_indirectData (m : List UInt8) :
    Ascending 24576 (indirectData m) (24576 + modelIndirectCount m * 1024) := by
  by_cases h : 12 < modelDataBlocks m
  · have h := ascending_map_range (a := 24576) (d := 1024) (s := 0) (n := modelIndirectCount m)
      (g := fun i => blockField m (modelIndirectDataStart m + i) (12 + i))
      (fun i => by rw [modelIndirectDataStart_eq h]; exact Nat.add_mul 24 i 1024)
      fun i => length_blockField m _ (12 + i)
    rwa [Nat.zero_mul, Nat.add_zero, Nat.zero_add] at h
  · rw [indirectData, modelIndirectCount_eq, Nat.sub_eq_zero_of_le (by omega)]
    exact Nat.le_refl _

theorem modelDirectCount_le (m : List UInt8) : modelDirectCount m ≤ 12 := Nat.min_le_right _ _

theorem ascending_table (m : List UInt8) : Ascending 4096 (tableFields m) 10262 := by
  have hdirect := modelDirectCount_le m
  have hbitmap : Ascending 4096 inodeBitmap 5248 := by decide
  have hroot : Ascending 5248 rootDirInode 6400 := by decide
  have hhello : Ascending 6400 helloInode 6528 := by decide
  have hmodel : Ascending 6528 (modelInode m) 6568 := (ascending_modelInode m).mono (Nat.le_refl _) (by decide)
  have hpointers : Ascending 6568 (directPointers m) 6616 :=
    (ascending_directPointers m).mono (Nat.le_refl _) (by omega)
  have hindirect : Ascending 6616 (indirectPointer m) 9216 :=
    (ascending_indirectPointer m).mono (Nat.le_refl _) (by decide)
  have hdir : Ascending 9216 rootDir 10240 := by decide
  exact ((((((hbitmap.append hroot).append hhello).append hmodel).append hpointers).append
    hindirect).append hdir).append ascending_helloTxt

theorem ascending_tail (h : firstFreeBlock m ≤ totalBlocks) : Ascending 4096 (tailFields m) imageSize := by
  have hfit := firstFreeBlock_le_iff.mp h
  have hcount := modelIndirectCount_eq m
  have hdirect := modelDirectCount_le m
  exact ((((ascending_table m).mono (Nat.le_refl _) (by decide)).append
    ((ascending_directData m).mono (Nat.le_refl 11264) (by omega))).append
    ((ascending_indirectPointers m).mono (Nat.le_refl 23552) (by omega))).append
    ((ascending_indirectData m).mono (Nat.le_refl 24576) (by simp only [imageSize, totalBlocks, blockSize]; omega))

theorem copied (h : firstFreeBlock m ≤ totalBlocks) (hlen : img.len = imageSize) :
    copyDirect m (modelDirectCount m) 0 img = .ok (stored img (directData m)) ∧
      (needsIndirect m = true → copyIndirect m (modelIndirectCount m) 0 img =
        .ok (stored img (indirectData m))) := by
  have hfit := firstFreeBlock_le_iff.mp h
  have hdirect : modelDirectCount m ≤ modelDataBlocks m := Nat.min_le_left _ _
  have hle := modelDirectCount_le m
  refine ⟨copyDirect_eq (fun j hj => Nat.le_of_lt (lt_length (by omega))) fun j hj => ?_, fun hneeds => ?_⟩
  · simp only [hlen, modelDirectStart, blockSize, imageSize, totalBlocks]
    omega
  · rw [needsIndirect_eq] at hneeds
    have hlt := of_decide_eq_true hneeds
    have hcount := modelIndirectCount_eq m
    refine copyIndirect_eq (fun j hj => lt_length (by omega)) fun j hj => ?_
    simp only [hlen, modelIndirectDataStart_eq hlt, blockSize, imageSize, totalBlocks]
    omega

/-- The parts of the inode table that no write touches. -/
def Unused (m : List UInt8) (x : Nat) : Prop :=
  (5292 ≤ x ∧ x < 6400) ∨ (6444 ≤ x ∧ x < 6528) ∨ (6568 + modelDirectCount m * 4 ≤ x ∧ x < 6616) ∨
    (6620 ≤ x ∧ x < 9216) ∨ (modelDataBlocks m ≤ 12 ∧ 6616 ≤ x ∧ x < 9216)

theorem write_of_unused {base : Memory} {x : Nat} (hx : Unused m x) :
    write base (tailFields m) x = base x := by
  unfold Unused at hx
  have hdirect := modelDirectCount_le m
  have hbitmap : Ascending 4096 inodeBitmap 4098 := by decide
  have hpointer : ∀ base, write base (indirectPointer m) x = base x := by
    intro base
    by_cases hneeds : modelDataBlocks m ≤ 12
    · rw [indirectPointer, needsIndirect_eq, decide_eq_false (by omega)]
      rfl
    · exact write_of_outside (ascending_indirectPointer m) (by omega)
  rw [tailFields, tableFields]
  simp only [write_append]
  rw [write_of_outside (ascending_indirectData m) (by omega),
    write_of_outside (ascending_indirectPointers m) (by omega),
    write_of_outside (ascending_directData m) (by omega), write_of_outside ascending_helloTxt (by omega),
    write_of_outside ascending_rootDir (by omega), hpointer,
    write_of_outside (ascending_directPointers m) (by omega),
    write_of_outside (ascending_modelInode m) (by omega), write_of_outside ascending_helloInode (by omega),
    write_of_outside ascending_rootDirInode (by omega), write_of_outside hbitmap (by omega)]

/-- `bytes` is an image of the model `m`. -/
structure IsImage (m : List UInt8) (bytes : Memory) : Prop where
  fits : modelDataBlocks m ≤ 116
  head : ∀ f, f ∈ headFields m → bytes.Holds f
  tail : ∀ f, f ∈ tailFields m → bytes.Holds f
  unused : ∀ x, Unused m x → bytes x = 0

/-- **What `main` writes.**  A model that passes the size assertion makes no write panic. -/
theorem main_eq (h : firstFreeBlock m ≤ totalBlocks) :
    ∃ bytes, IsImage m bytes ∧ main m = .ok ⟨bytes, imageSize⟩ := by
  obtain ⟨base, hmark, hframe⟩ := markBlocks_eq 3072 (firstFreeBlock m) 0
    (stored ⟨fun _ => 0, imageSize⟩ (headFields m)) (by rw [Nat.zero_add]; exact h)
    (show 3088 ≤ imageSize by decide)
  refine ⟨write base (tailFields m), ⟨firstFreeBlock_le_iff.mp h, fun f hf => ?_,
    fun f hf => holds_write (ascending_tail h) hf, fun x hx => ?_⟩, ?_⟩
  · refine (holds_write (m := fun _ => 0) (ascending_head m) hf).congr fun x _ hx => ?_
    have hlt := ((ascending_head m).bounds hf).2
    rw [write_of_outside (ascending_tail h) (Or.inl (by omega)), hframe x (Or.inl (by omega))]
    rfl
  · rw [write_of_unused hx, hframe x (Or.inr (by unfold Unused at hx; omega))]
    exact write_of_outside (ascending_head m) (Or.inr (by unfold Unused at hx; omega))
  have hhead := putAll_of_ascending ⟨fun _ => 0, imageSize⟩ (ascending_head m)
    (show 3072 ≤ imageSize by decide)
  have htable := putAll_of_ascending ⟨base, imageSize⟩ (ascending_table m)
    (show 10262 ≤ imageSize by decide)
  unfold main
  simp only
  rw [if_neg (Nat.not_lt_of_le h)]
  refine (bind_of_ok hhead _).trans ((bind_of_ok hmark _).trans ((bind_of_ok htable _).trans
    ((bind_of_ok (copied h rfl).1 _).trans ?_)))
  rw [← stored_append]
  by_cases hneeds : needsIndirect m = true
  · rw [if_pos hneeds]
    have hpointers := putAll_of_ascending (stored ⟨base, imageSize⟩ (tableFields m ++ directData m))
      ((ascending_indirectPointers m).mono (Nat.le_refl _) ?_) (Nat.le_refl imageSize)
    · refine (bind_of_ok hpointers _).trans (((copied h rfl).2 hneeds).trans ?_)
      rw [← stored_append, ← stored_append, ← List.append_assoc]
      rfl
    · have hfit := firstFreeBlock_le_iff.mp h
      have hcount := modelIndirectCount_eq m
      simp only [imageSize, totalBlocks, blockSize]
      omega
  · rw [if_neg hneeds]
    have hnone : modelIndirectCount m = 0 := by
      rw [needsIndirect_eq, decide_eq_true_eq] at hneeds
      rw [modelIndirectCount_eq]
      omega
    rw [tailFields, indirectPointers, indirectData, hnone, List.range'_zero, List.map_nil, List.map_nil,
      List.append_nil, List.append_nil]
    rfl

end Places
end Coconut.Rootfs
