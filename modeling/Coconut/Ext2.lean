import Coconut.State

/-!
# The ext2 parser

Read-only ext2 on the embedded ramdisk: inodes, a lookup in the root directory, and
reading file data through twelve direct blocks and one indirect block.  The two
`while` loops advance by at least one byte a round; their fuel is the number of
bytes they may advance.
-/
namespace Coconut

@[simp] def ext2Magic : Nat := 0xEF53
@[simp] def rootInode : Nat := 2

structure Inode where
  mode : Nat
  size : Nat
  /-- 12 direct blocks, a single indirect block, two unused. -/
  blocks : List Nat
  deriving DecidableEq, Repr

/-- True for regular files. -/
def Inode.isRegularFile (i : Inode) : Bool := i.mode &&& 0xF000 == 0x8000

/-- `n` consecutive `u32` words. -/
def readWords (data : Slice) : Nat → Nat → Kernel (List Nat)
  | _, 0 => .ok []
  | off, n + 1 => do
    let w ← data.readLE off 4
    let ws ← readWords data (off + 4) n
    return w :: ws

namespace Ext2Fs

/-- Initialize the parser from the ramdisk. -/
def init (data : Slice) : Kernel Ext2Fs := do
  let magic ← data.readLE (1024 + 56) 2
  assertThat (magic == ext2Magic) .ext2BadMagic
  let logBlockSize ← data.readLE (1024 + 24) 4
  let blockSize := (1024 <<< (logBlockSize % 32)) % 2 ^ 32
  let inodesPerGroup ← data.readLE (1024 + 40) 4
  let revLevel ← data.readLE (1024 + 76) 4
  let inodeSize ← if revLevel == 0 then pure 128 else data.readLE (1024 + 88) 2
  let bgdtOffset := 2 * blockSize
  let inodeTableBlock ← data.readLE (bgdtOffset + 8) 4
  return { data, blockSize, inodesPerGroup, inodeSize, inodeTableBlock }

/-- A revision 0 image with 1024-byte blocks. -/
theorem init_eq {data : Slice} {inodes table : Nat} (hmagic : data.readLE (1024 + 56) 2 = .ok ext2Magic)
    (hlog : data.readLE (1024 + 24) 4 = .ok 0) (hinodes : data.readLE (1024 + 40) 4 = .ok inodes)
    (hrev : data.readLE (1024 + 76) 4 = .ok 0) (htable : data.readLE (2 * 1024 + 8) 4 = .ok table) :
    init data = .ok ⟨data, 1024, inodes, 128, table⟩ := by
  unfold init
  rw [hmagic, Kernel.ok_bind, show assertThat (ext2Magic == ext2Magic) .ext2BadMagic = .ok () from rfl,
    Kernel.ok_bind, hlog, Kernel.ok_bind, hinodes, Kernel.ok_bind, hrev]
  change data.readLE (2 * 1024 + 8) 4 >>= _ = _
  rw [htable]
  rfl

/-- Read an inode by number (1-based). -/
def readInode (fs : Ext2Fs) (ino : Nat) : Kernel (Option Inode) :=
  if ino == 0 then .ok none
  else do
    let index := ino - 1
    let offset := wrappingAdd (fs.inodeTableBlock * fs.blockSize) (index * fs.inodeSize)
    if fs.data.len < wrappingAdd offset fs.inodeSize then return none
    let mode ← fs.data.readLE offset 2
    let size ← fs.data.readLE (offset + 4) 4
    let blocks ← readWords fs.data (offset + 40) 15
    return some { mode, size, blocks }

theorem readWords_eq {data : Slice} {off k n : Nat} (h : off + 4 * (k + n) ≤ data.len) :
    readWords data (off + 4 * k) n =
      .ok ((List.range' k n).map fun i => data.bytes.readLE (off + 4 * i) 4) := by
  induction n generalizing k with
  | zero => rfl
  | succ n ih =>
    have hword : data.readLE (off + 4 * k) 4 = .ok (data.bytes.readLE (off + 4 * k) 4) := if_pos (by omega)
    rw [readWords, hword, Kernel.ok_bind, Nat.add_assoc, ← Nat.mul_succ, ih (by omega)]
    rfl

/-- An inode of which no sum wraps: there is none if it does not lie in the image. -/
theorem readInode_at {fs : Ext2Fs} {ino off : Nat} (hino : ino ≠ 0)
    (hoff : fs.inodeTableBlock * fs.blockSize + (ino - 1) * fs.inodeSize = off)
    (hfields : off + fs.inodeSize ≤ fs.data.len → off + 100 ≤ fs.data.len)
    (hlt : off + fs.inodeSize < 2 ^ 64) :
    fs.readInode ino = .ok (if off + fs.inodeSize ≤ fs.data.len then
      some ⟨fs.data.bytes.readLE off 2, fs.data.bytes.readLE (off + 4) 4,
        (List.range' 0 15).map fun i => fs.data.bytes.readLE (off + 40 + 4 * i) 4⟩ else none) := by
  have hoffset : wrappingAdd (fs.inodeTableBlock * fs.blockSize) ((ino - 1) * fs.inodeSize) = off := by
    rw [wrappingAdd, hoff, Nat.mod_eq_of_lt (by omega)]
  have hend : wrappingAdd off fs.inodeSize = off + fs.inodeSize := Nat.mod_eq_of_lt hlt
  unfold readInode
  rw [if_neg (by simpa using hino)]
  simp only [hoffset, hend]
  by_cases hlen : off + fs.inodeSize ≤ fs.data.len
  · have hfields := hfields hlen
    rw [if_neg (by omega), if_pos hlen, Slice.readLE, if_pos (by omega), Kernel.ok_bind, Slice.readLE,
      if_pos (by omega), Kernel.ok_bind, show off + 40 = off + 40 + 4 * 0 from rfl, readWords_eq (by omega)]
    rfl
  · rw [if_pos (by omega), if_neg hlen]
    rfl

/-- An inode whose hundred bytes of fields lie in the image. -/
theorem readInode_fields {fs : Ext2Fs} {ino off : Nat} (hino : ino ≠ 0)
    (hoff : fs.inodeTableBlock * fs.blockSize + (ino - 1) * fs.inodeSize = off)
    (hfields : off + 100 ≤ fs.data.len) (hlen : off + fs.inodeSize ≤ fs.data.len)
    (hlt : fs.data.len < 2 ^ 64) :
    fs.readInode ino = .ok (some ⟨fs.data.bytes.readLE off 2, fs.data.bytes.readLE (off + 4) 4,
      (List.range' 0 15).map fun i => fs.data.bytes.readLE (off + 40 + 4 * i) 4⟩) := by
  rw [readInode_at hino hoff (fun _ => hfields) (by omega), if_pos hlen]

/-- An inode that lies in the image. -/
theorem readInode_eq {fs : Ext2Fs} {ino off : Nat} (hino : ino ≠ 0)
    (hoff : fs.inodeTableBlock * fs.blockSize + (ino - 1) * fs.inodeSize = off)
    (hsize : 100 ≤ fs.inodeSize) (hlen : off + fs.inodeSize ≤ fs.data.len) (hlt : fs.data.len < 2 ^ 64) :
    fs.readInode ino = .ok (some ⟨fs.data.bytes.readLE off 2, fs.data.bytes.readLE (off + 4) 4,
      (List.range' 0 15).map fun i => fs.data.bytes.readLE (off + 40 + 4 * i) 4⟩) :=
  readInode_fields hino hoff (by omega) hlen hlt

theorem readInode_size_lt {fs : Ext2Fs} {ino : Nat} {inode : Inode}
    (h : fs.readInode ino = .ok (some inode)) : inode.size < 2 ^ 32 := by
  unfold readInode at h
  split at h
  · cases Except.ok.inj h
  · simp only at h
    split at h
    · cases Except.ok.inj h
    · obtain ⟨mode, -, h⟩ := Kernel.bind_eq_ok h
      obtain ⟨size, hsize, h⟩ := Kernel.bind_eq_ok h
      obtain ⟨blocks, -, h⟩ := Kernel.bind_eq_ok h
      obtain rfl := Option.some.inj (Except.ok.inj h)
      unfold Slice.readLE at hsize
      split at hsize
      · rw [← Except.ok.inj hsize]
        exact Memory.readLE_lt _ _ 4
      · cases hsize

/-- The scan of one directory block for `name`, from `pos` on. -/
def scanDir (fs : Ext2Fs) (name : List UInt8) (blockOffset : Nat) :
    Nat → Nat → Kernel (Option Nat)
  | 0, _ => .ok none
  | fuel + 1, pos =>
    if pos + 8 ≤ fs.blockSize then do
      let entryOffset := blockOffset + pos
      let inodeNr ← fs.data.readLE entryOffset 4
      let recLen ← fs.data.readLE (entryOffset + 4) 2
      let nameLen ← fs.data.readLE (entryOffset + 6) 2
      if recLen == 0 then return none
      if inodeNr != 0 && nameLen == name.length then
        let entryName ← fs.data.range (entryOffset + 8) nameLen
        if entryName == name then return some inodeNr
      scanDir fs name blockOffset fuel (pos + recLen)
    else .ok none

/-- One round of the scan: a live record with this name ends it. -/
theorem scanDir_record {fs : Ext2Fs} {name entryName : List UInt8} {blockOffset pos fuel : Nat}
    (inodeNr recLen : Nat) (hpos : pos + 8 ≤ fs.blockSize)
    (hinode : fs.data.readLE (blockOffset + pos) 4 = .ok inodeNr)
    (hrec : fs.data.readLE (blockOffset + pos + 4) 2 = .ok recLen)
    (hlen : fs.data.readLE (blockOffset + pos + 6) 2 = .ok entryName.length)
    (hname : fs.data.range (blockOffset + pos + 8) entryName.length = .ok entryName)
    (hrec0 : recLen ≠ 0) :
    fs.scanDir name blockOffset (fuel + 1) pos =
      if inodeNr ≠ 0 ∧ entryName = name then .ok (some inodeNr)
      else fs.scanDir name blockOffset fuel (pos + recLen) := by
  rw [scanDir, if_pos hpos]
  simp only [hinode, hrec, hlen, Kernel.ok_bind]
  rw [if_neg (by simpa using hrec0)]
  by_cases hlive : inodeNr ≠ 0 ∧ entryName = name
  · obtain ⟨hinode0, rfl⟩ := hlive
    rw [if_pos (by simpa using hinode0), hname, Kernel.ok_bind, if_pos (beq_self_eq_true _),
      if_pos ⟨hinode0, rfl⟩]
    rfl
  · rw [if_neg hlive]
    split
    · rename_i hmatch
      have heq : entryName ≠ name := fun heq => hlive ⟨by simpa using (Bool.and_eq_true_iff.mp hmatch).1, heq⟩
      rw [hname, Kernel.ok_bind, if_neg (by simpa using heq)]
    · rfl

theorem scanDir_step {fs : Ext2Fs} {name entryName : List UInt8} {blockOffset pos fuel inodeNr recLen : Nat}
    (hpos : pos + 8 ≤ fs.blockSize) (hinode : fs.data.readLE (blockOffset + pos) 4 = .ok inodeNr)
    (hrec : fs.data.readLE (blockOffset + pos + 4) 2 = .ok recLen)
    (hlen : fs.data.readLE (blockOffset + pos + 6) 2 = .ok entryName.length)
    (hname : fs.data.range (blockOffset + pos + 8) entryName.length = .ok entryName)
    (hrec0 : recLen ≠ 0) (hinode0 : inodeNr ≠ 0) :
    fs.scanDir name blockOffset (fuel + 1) pos =
      if entryName = name then .ok (some inodeNr) else fs.scanDir name blockOffset fuel (pos + recLen) := by
  rw [scanDir_record _ _ hpos hinode hrec hlen hname hrec0]
  simp only [ne_eq, hinode0, not_false_eq_true, true_and]

/-- The loop over the root directory's direct blocks; a zero block ends it. -/
def scanBlocks (fs : Ext2Fs) (name : List UInt8) : List Nat → Kernel (Option Nat)
  | [] => .ok none
  | blockNr :: rest =>
    if blockNr == 0 then .ok none
    else do
      match ← scanDir fs name (blockNr * fs.blockSize) fs.blockSize 0 with
      | some inodeNr => return some inodeNr
      | none => scanBlocks fs name rest

/-- Look up a path in the root directory and return its inode number. -/
def lookup (fs : Ext2Fs) (path : List UInt8) : Kernel (Option Nat) := do
  let name := if path.head? == some 0x2F then path.tail else path
  if name.isEmpty then return some rootInode
  match ← fs.readInode rootInode with
  | none => return none
  | some root => fs.scanBlocks name (root.blocks.take 12)

/-- The block that holds block `blockIndex` of a file; `none` ends the read. -/
def blockAt (fs : Ext2Fs) (inode : Inode) (blockIndex : Nat) : Kernel (Option Nat) :=
  let ptrsPerBlock := fs.blockSize / 4
  if blockIndex < 12 then .ok (some (inode.blocks.getD blockIndex 0))
  else if blockIndex < 12 + ptrsPerBlock then
    let indirectBlock := inode.blocks.getD 12 0
    if indirectBlock == 0 then .ok none
    else do
      let blockNr ← fs.data.readLE (indirectBlock * fs.blockSize + (blockIndex - 12) * 4) 4
      return some blockNr
  else .ok none

/-- The copy loop of `read_data`. -/
def readLoop (fs : Ext2Fs) (inode : Inode) (toRead : Nat) :
    Nat → Nat → Nat → Kernel (List UInt8)
  | 0, _, _ => .ok []
  | fuel + 1, bytesRead, fileOffset =>
    if bytesRead < toRead then
      if fs.blockSize == 0 then .error .divideByZero
      else do
        match ← fs.blockAt inode (fileOffset / fs.blockSize) with
        | none => return []
        | some blockNr =>
          if blockNr == 0 then return []
          let offsetInBlock := fileOffset % fs.blockSize
          let available := fs.blockSize - offsetInBlock
          let chunk := min available (toRead - bytesRead)
          let bytes ← fs.data.range (blockNr * fs.blockSize + offsetInBlock) chunk
          let rest ← readLoop fs inode toRead fuel (bytesRead + chunk) (fileOffset + chunk)
          return bytes ++ rest
    else .ok []

/-- Read file data from `offset` on into a buffer of `bufLen` bytes: the bytes copied. -/
def readData (fs : Ext2Fs) (inode : Inode) (offset bufLen : Nat) : Kernel (List UInt8) :=
  if inode.size ≤ offset then .ok []
  else
    let toRead := min bufLen (inode.size - offset)
    fs.readLoop inode toRead toRead 0 offset

theorem readLoop_length {fs : Ext2Fs} {inode : Inode} {toRead : Nat} :
    ∀ {fuel bytesRead fileOffset : Nat} {bytes : List UInt8},
      fs.readLoop inode toRead fuel bytesRead fileOffset = .ok bytes →
      bytes.length ≤ toRead - bytesRead := by
  intro fuel
  induction fuel with
  | zero =>
    intro bytesRead fileOffset bytes h
    obtain rfl := Except.ok.inj h
    exact Nat.zero_le _
  | succ fuel ih =>
    intro bytesRead fileOffset bytes h
    unfold readLoop at h
    split at h
    · split at h
      · cases h
      · obtain ⟨_ | b, -, h⟩ := Kernel.bind_eq_ok h
        · obtain rfl := Except.ok.inj h
          exact Nat.zero_le _
        · simp only at h
          split at h
          · obtain rfl := Except.ok.inj h
            exact Nat.zero_le _
          · obtain ⟨chunk, hchunk, h⟩ := Kernel.bind_eq_ok h
            obtain ⟨rest, hrest, h⟩ := Kernel.bind_eq_ok h
            obtain rfl := Except.ok.inj h
            have := ih hrest
            rw [List.length_append, Slice.length_range hchunk]
            omega
    · obtain rfl := Except.ok.inj h
      exact Nat.zero_le _

/-- No more bytes are read than the buffer holds. -/
theorem readData_length {fs : Ext2Fs} {inode : Inode} {offset bufLen : Nat} {bytes : List UInt8}
    (h : fs.readData inode offset bufLen = .ok bytes) : bytes.length ≤ bufLen := by
  unfold readData at h
  split at h
  · obtain rfl := Except.ok.inj h
    exact Nat.zero_le _
  · have := readLoop_length h
    omega

/-! ## File contents -/

/-- Byte `k` of a file, found through its block map; a hole reads as zeros. -/
def fileByte (fs : Ext2Fs) (inode : Inode) (k : Nat) : UInt8 :=
  match fs.blockAt inode (k / fs.blockSize) with
  | .ok (some b) => if b = 0 then 0 else fs.data.bytes (b * fs.blockSize + k % fs.blockSize)
  | _ => 0

/-- The `n` bytes of a file from `offset` on. -/
def fileBytes (fs : Ext2Fs) (inode : Inode) (offset n : Nat) : List UInt8 :=
  (List.range' offset n).map (fs.fileByte inode)

theorem length_fileBytes (fs : Ext2Fs) (inode : Inode) (offset n : Nat) :
    (fs.fileBytes inode offset n).length = n := by
  rw [fileBytes, List.length_map, List.length_range']

theorem fileBytes_add (fs : Ext2Fs) (inode : Inode) (offset m n : Nat) :
    fs.fileBytes inode offset (m + n) =
      fs.fileBytes inode offset m ++ fs.fileBytes inode (offset + m) n := by
  unfold fileBytes
  rw [← List.map_append, List.range'_append_1]

/-- The part of a block that one round of the copy loop reads. -/
theorem readBytes_block {fs : Ext2Fs} {inode : Inode} {b offset n : Nat}
    (hb : fs.blockAt inode (offset / fs.blockSize) = .ok (some b)) (hne : b ≠ 0)
    (hn : offset % fs.blockSize + n ≤ fs.blockSize) :
    fs.data.bytes.readBytes (b * fs.blockSize + offset % fs.blockSize) n =
      fs.fileBytes inode offset n := by
  refine List.ext_getElem? fun k => ?_
  by_cases hk : k < n
  · have hlt : offset % fs.blockSize + k < fs.blockSize := by omega
    have hsplit : offset + k =
        fs.blockSize * (offset / fs.blockSize) + (offset % fs.blockSize + k) := by
      have := Nat.div_add_mod offset fs.blockSize
      omega
    have hdiv : (offset + k) / fs.blockSize = offset / fs.blockSize := by
      rw [hsplit, Nat.mul_add_div (by omega), Nat.div_eq_of_lt hlt, Nat.add_zero]
    have hmod : (offset + k) % fs.blockSize = offset % fs.blockSize + k := by
      rw [hsplit, Nat.mul_add_mod, Nat.mod_eq_of_lt hlt]
    rw [Memory.getElem?_readBytes _ hk, fileBytes, List.getElem?_map, List.getElem?_range' hk,
      Option.map_some, Nat.one_mul, fileByte, hdiv, hb, hmod, Nat.add_assoc]
    exact congrArg some (if_neg hne).symm
  · rw [List.getElem?_eq_none (by rw [Memory.length_readBytes]; omega),
      List.getElem?_eq_none (by rw [length_fileBytes]; omega)]

/-- What is read is what the file holds there. -/
theorem readLoop_eq_ok {fs : Ext2Fs} {inode : Inode} {toRead : Nat} :
    ∀ {fuel bytesRead fileOffset : Nat} {bytes : List UInt8},
      fs.readLoop inode toRead fuel bytesRead fileOffset = .ok bytes →
      bytes = fs.fileBytes inode fileOffset bytes.length := by
  intro fuel
  induction fuel with
  | zero =>
    intro bytesRead fileOffset bytes h
    obtain rfl := Except.ok.inj h
    rfl
  | succ fuel ih =>
    intro bytesRead fileOffset bytes h
    unfold readLoop at h
    split at h
    · split at h
      · cases h
      · rename_i hsize
        obtain ⟨_ | b, hb, h⟩ := Kernel.bind_eq_ok h
        · obtain rfl := Except.ok.inj h
          rfl
        · simp only at h
          split at h
          · obtain rfl := Except.ok.inj h
            rfl
          · rename_i hne
            obtain ⟨chunk, hchunk, h⟩ := Kernel.bind_eq_ok h
            obtain ⟨rest, hrest, h⟩ := Kernel.bind_eq_ok h
            obtain rfl := Except.ok.inj h
            have hlen := Slice.length_range hchunk
            have hmod : fileOffset % fs.blockSize < fs.blockSize :=
              Nat.mod_lt _ (Nat.pos_of_ne_zero (by simpa using hsize))
            have hblock := readBytes_block (n := chunk.length) hb (by simpa using hne) (by omega)
            have hbytes : chunk = fs.fileBytes inode fileOffset chunk.length := by
              unfold Slice.range at hchunk
              split at hchunk
              · rw [← hblock, hlen]
                exact (Except.ok.inj hchunk).symm
              · cases hchunk
            rw [List.length_append, fileBytes_add, ← hbytes, hlen]
            exact congrArg (chunk ++ ·) (ih hrest)
    · obtain rfl := Except.ok.inj h
      rfl

theorem readData_eq_ok {fs : Ext2Fs} {inode : Inode} {offset bufLen : Nat} {bytes : List UInt8}
    (h : fs.readData inode offset bufLen = .ok bytes) (hoff : offset ≤ inode.size) :
    bytes = fs.fileBytes inode offset bytes.length ∧ offset + bytes.length ≤ inode.size := by
  unfold readData at h
  split at h
  · obtain rfl := Except.ok.inj h
    exact ⟨rfl, hoff⟩
  · have := readLoop_length h
    exact ⟨readLoop_eq_ok h, by omega⟩

/-- A file whose bytes are those of `m`. -/
theorem fileBytes_eq {fs : Ext2Fs} {inode : Inode} {m : List UInt8} {offset n : Nat}
    (hm : ∀ k, k < m.length → fs.fileByte inode k = m.getD k 0) (hn : offset + n ≤ m.length) :
    fs.fileBytes inode offset n = (m.drop offset).take n := by
  refine List.ext_getElem? fun k => ?_
  by_cases hk : k < n
  · rw [fileBytes, List.getElem?_map, List.getElem?_range' hk, Option.map_some, Nat.one_mul,
      hm _ (by omega), List.getElem?_take_of_lt hk, List.getElem?_drop, List.getD_eq_getElem?_getD,
      List.getElem?_eq_getElem (by omega), Option.getD_some]
  · rw [List.getElem?_eq_none (by rw [length_fileBytes]; omega),
      List.getElem?_eq_none (by rw [List.length_take]; omega)]

/-- Where every block of the file lies in the image, a read returns what the file holds. -/
def Backed (fs : Ext2Fs) (inode : Inode) : Prop :=
  ∀ idx, idx * fs.blockSize < inode.size → ∃ b, fs.blockAt inode idx = .ok (some b) ∧ b ≠ 0 ∧
    (b + 1) * fs.blockSize ≤ fs.data.len

theorem readLoop_of_backed {fs : Ext2Fs} {inode : Inode} (h : fs.Backed inode)
    (hsize : 0 < fs.blockSize) {toRead : Nat} : ∀ {fuel bytesRead fileOffset : Nat},
      toRead - bytesRead ≤ fuel → fileOffset + (toRead - bytesRead) ≤ inode.size →
      fs.readLoop inode toRead fuel bytesRead fileOffset =
        .ok (fs.fileBytes inode fileOffset (toRead - bytesRead)) := by
  intro fuel
  induction fuel with
  | zero =>
    intro bytesRead fileOffset hfuel _
    rw [Nat.le_zero.mp hfuel]
    rfl
  | succ fuel ih =>
    intro bytesRead fileOffset hfuel hend
    unfold readLoop
    by_cases hlt : bytesRead < toRead
    · have hmod := Nat.mod_lt fileOffset hsize
      have hdiv := Nat.div_mul_le_self fileOffset fs.blockSize
      obtain ⟨b, hb, hne, hlen⟩ := h (fileOffset / fs.blockSize) (by omega)
      rw [if_pos hlt, if_neg (by simpa using Nat.pos_iff_ne_zero.mp hsize), hb]
      simp only [Kernel.ok_bind, beq_iff_eq, if_neg hne]
      generalize hchunk : min (fs.blockSize - fileOffset % fs.blockSize) (toRead - bytesRead) = chunk
      rw [Nat.succ_mul] at hlen
      have hrange : fs.data.range (b * fs.blockSize + fileOffset % fs.blockSize) chunk =
          .ok (fs.fileBytes inode fileOffset chunk) := by
        rw [Slice.range, if_pos (by omega), readBytes_block hb hne (by omega)]
      rw [hrange, Kernel.ok_bind, ih (by omega) (by omega), Kernel.ok_bind,
        show toRead - bytesRead = chunk + (toRead - (bytesRead + chunk)) by omega, fileBytes_add]
      rfl
    · rw [if_neg hlt, Nat.sub_eq_zero_of_le (by omega)]
      rfl

theorem readData_of_backed {fs : Ext2Fs} {inode : Inode} (h : fs.Backed inode)
    (hsize : 0 < fs.blockSize) (offset bufLen : Nat) : fs.readData inode offset bufLen =
      .ok (fs.fileBytes inode offset (min bufLen (inode.size - offset))) := by
  unfold readData
  split
  · rw [show min bufLen (inode.size - offset) = 0 by omega]
    rfl
  · exact readLoop_of_backed h hsize (Nat.le_refl _) (by omega)

/-! ## Well-formed images -/

/-- Positions at which a scan of the directory block at `blockOffset` looks for a
record: the records follow each other by their length. -/
inductive Record (fs : Ext2Fs) (blockOffset : Nat) : Nat → Prop
  | first : Record fs blockOffset 0
  | next {pos recLen : Nat} : Record fs blockOffset pos → pos + 8 ≤ fs.blockSize →
      fs.data.readLE (blockOffset + pos + 4) 2 = .ok recLen → recLen ≠ 0 →
      Record fs blockOffset (pos + recLen)

/-- Block `b` is one of the blocks a scan of the root directory visits. -/
def RootBlock (fs : Ext2Fs) (b : Nat) : Prop :=
  ∃ root, fs.readInode rootInode = .ok (some root) ∧ b ∈ (root.blocks.take 12).takeWhile (· != 0)

/-- Inode `n` is the root, or has a record in the root directory. -/
def Listed (fs : Ext2Fs) (n : Nat) : Prop :=
  n = rootInode ∨ ∃ b pos, fs.RootBlock b ∧ Record fs (b * fs.blockSize) pos ∧
    pos + 8 ≤ fs.blockSize ∧ fs.data.readLE (b * fs.blockSize + pos) 4 = .ok n

/-- Every block of the file that is not a hole lies in the image. -/
def FileOk (fs : Ext2Fs) (inode : Inode) : Prop :=
  ∀ idx, idx * fs.blockSize < inode.size → ∃ b?, fs.blockAt inode idx = .ok b? ∧
    ∀ b, b? = some b → b ≠ 0 → (b + 1) * fs.blockSize ≤ fs.data.len

/-- What the image builder guarantees of the ramdisk. -/
structure WellFormed (fs : Ext2Fs) : Prop where
  blockSize : 0 < fs.blockSize
  inodeSize : 100 ≤ fs.inodeSize
  inodeTable : fs.inodeTableBlock * fs.blockSize + 2 ^ 32 * fs.inodeSize < 2 ^ 64
  rootBlocks : ∀ b, fs.RootBlock b → (b + 1) * fs.blockSize ≤ fs.data.len
  records : ∀ b pos, fs.RootBlock b → Record fs (b * fs.blockSize) pos → pos + 8 ≤ fs.blockSize →
    ∀ nameLen, fs.data.readLE (b * fs.blockSize + pos + 6) 2 = .ok nameLen →
      b * fs.blockSize + pos + 8 + nameLen ≤ fs.data.len
  files : ∀ n inode, fs.Listed n → fs.readInode n = .ok (some inode) → fs.FileOk inode

end Ext2Fs
end Coconut
