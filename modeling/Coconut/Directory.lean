import Coconut.FileRead
import Coconut.Fs

/-!
# Looking up a path

A directory block is a row of records: inode number, record length, name length and the
name, each record reaching to the next and the last one to the end of the block.  A
record whose inode number is 0 is deleted.  `RootDirectory` says which records the root
directory of an image holds, block by block; `lookup` is then a search of that list, and
`handle_fs_open` opens nothing that the search does not find.
-/
namespace Coconut.Ext2Fs

/-- A directory record. -/
structure DirEntry where
  inodeNr : Nat
  recLen : Nat
  name : List UInt8
  deriving DecidableEq, Repr

/-- A record that names a file. -/
def DirEntry.Names (e : DirEntry) (name : List UInt8) : Prop := e.inodeNr ≠ 0 ∧ e.name = name

instance (e : DirEntry) (name : List UInt8) : Decidable (e.Names name) :=
  inferInstanceAs (Decidable (_ ∧ _))

/-- The image holds the record `e` at `off`, and the record has room for its name. -/
structure HoldsEntry (fs : Ext2Fs) (off : Nat) (e : DirEntry) : Prop where
  inodeNr : fs.data.bytes.readLE off 4 = e.inodeNr
  recLen : fs.data.bytes.readLE (off + 4) 2 = e.recLen
  nameLen : fs.data.bytes.readLE (off + 6) 2 = e.name.length
  name : fs.data.bytes.readBytes (off + 8) e.name.length = e.name
  room : 8 + e.name.length ≤ e.recLen

instance (fs : Ext2Fs) (off : Nat) (e : DirEntry) : Decidable (HoldsEntry fs off e) :=
  decidable_of_iff (fs.data.bytes.readLE off 4 = e.inodeNr ∧
      fs.data.bytes.readLE (off + 4) 2 = e.recLen ∧
      fs.data.bytes.readLE (off + 6) 2 = e.name.length ∧
      fs.data.bytes.readBytes (off + 8) e.name.length = e.name ∧ 8 + e.name.length ≤ e.recLen)
    ⟨fun ⟨h1, h2, h3, h4, h5⟩ => ⟨h1, h2, h3, h4, h5⟩, fun ⟨h1, h2, h3, h4, h5⟩ => ⟨h1, h2, h3, h4, h5⟩⟩

/-- The records fill the image from `off` to `stop`. -/
def TiledBy (fs : Ext2Fs) : Nat → List DirEntry → Nat → Prop
  | off, [], stop => off = stop
  | off, e :: es, stop => HoldsEntry fs off e ∧ TiledBy fs (off + e.recLen) es stop

instance decidableTiledBy (fs : Ext2Fs) : ∀ (off : Nat) (es : List DirEntry) (stop : Nat),
    Decidable (TiledBy fs off es stop)
  | off, [], stop => inferInstanceAs (Decidable (off = stop))
  | off, e :: es, stop =>
    have := decidableTiledBy fs (off + e.recLen) es stop
    inferInstanceAs (Decidable (HoldsEntry fs off e ∧ _))

/-- The blocks up to the first 0 hold these records, one list a block. -/
def Holds (fs : Ext2Fs) : List Nat → List (List DirEntry) → Prop
  | [], dir => dir = []
  | b :: _, [] => b = 0
  | b :: bs, es :: dir =>
    fs.InImage b ∧ TiledBy fs (b * fs.blockSize) es ((b + 1) * fs.blockSize) ∧ Holds fs bs dir

instance decidableHolds (fs : Ext2Fs) : ∀ (bs : List Nat) (dir : List (List DirEntry)),
    Decidable (Holds fs bs dir)
  | [], dir => inferInstanceAs (Decidable (dir = []))
  | b :: _, [] => inferInstanceAs (Decidable (b = 0))
  | b :: bs, es :: dir =>
    have := decidableHolds fs bs dir
    inferInstanceAs (Decidable (fs.InImage b ∧
      TiledBy fs (b * fs.blockSize) es ((b + 1) * fs.blockSize) ∧ _))

/-- Where the root directory's inode lies. -/
def rootOffset (fs : Ext2Fs) : Nat := fs.inodeTableBlock * fs.blockSize + fs.inodeSize

/-- The root directory has its inode in the image and holds these records in its direct
blocks. -/
structure RootDirectory (fs : Ext2Fs) (dir : List (List DirEntry)) : Prop where
  slice : fs.data.len < 2 ^ 64
  inode : fs.rootOffset + fs.inodeSize ≤ fs.data.len
  fields : fs.rootOffset + 100 ≤ fs.data.len
  blocks : fs.Holds ((List.range 12).map fun i =>
    fs.data.bytes.readLE (fs.rootOffset + 40 + 4 * i) 4) dir

/-- The inode number of the first live record with this name. -/
def findEntry (es : List DirEntry) (name : List UInt8) : Option Nat :=
  (es.find? fun e => e.Names name).map DirEntry.inodeNr

/-- A path without its leading slash. -/
def stripSlash : List UInt8 → List UInt8
  | 0x2F :: rest => rest
  | path => path

variable {fs : Ext2Fs}

theorem findEntry_cons (e : DirEntry) (es : List DirEntry) (name : List UInt8) :
    findEntry (e :: es) name = if e.Names name then some e.inodeNr else findEntry es name := by
  rw [findEntry, List.find?_cons]
  by_cases h : e.Names name
  · rw [if_pos h, decide_eq_true h]
    rfl
  · rw [if_neg h, decide_eq_false h]
    rfl

theorem findEntry_append (es rest : List DirEntry) (name : List UInt8) :
    findEntry (es ++ rest) name = (findEntry es name).or (findEntry rest name) := by
  rw [findEntry, List.find?_append, findEntry, findEntry]
  cases es.find? fun e => e.Names name <;> rfl

theorem TiledBy.le : ∀ {es : List DirEntry} {off stop : Nat}, TiledBy fs off es stop → off ≤ stop
  | [], _, _, h => Nat.le_of_eq h
  | _ :: _, _, _, h => Nat.le_trans (Nat.le_add_right _ _) (TiledBy.le h.2)

/-! ## The scan -/

/-- The fuel of a scan does not run out: a round without a match moves on by at least a
byte. -/
theorem scanDir_fuel (name : List UInt8) (blockOffset : Nat) : ∀ {fuel fuel' pos : Nat},
    fs.blockSize - pos ≤ fuel → fs.blockSize - pos ≤ fuel' →
    fs.scanDir name blockOffset fuel pos = fs.scanDir name blockOffset fuel' pos := by
  have done : ∀ {fuel pos : Nat}, fs.blockSize ≤ pos → fs.scanDir name blockOffset fuel pos = .ok none := by
    intro fuel pos hpos
    cases fuel with
    | zero => rfl
    | succ fuel => exact if_neg (by omega)
  intro fuel
  induction fuel with
  | zero =>
    intro fuel' pos hfuel _
    rw [done (by omega), done (by omega)]
  | succ fuel ih =>
    intro fuel' pos hfuel hfuel'
    cases fuel' with
    | zero => rw [done (by omega), done (by omega)]
    | succ fuel' =>
      rw [scanDir, scanDir]
      split
      · refine bind_congr fun inodeNr => bind_congr fun recLen => bind_congr fun nameLen => ?_
        by_cases hrec : recLen = 0
        · rw [if_pos (by simpa using hrec), if_pos (by simpa using hrec)]
        · have hrest : fs.scanDir name blockOffset fuel (pos + recLen) =
              fs.scanDir name blockOffset fuel' (pos + recLen) := ih (by omega) (by omega)
          rw [hrest]
      · rfl

/-- A scan of a block from one of its records on. -/
theorem scanDir_tiled (name : List UInt8) {blockOffset : Nat}
    (hblock : blockOffset + fs.blockSize ≤ fs.data.len) :
    ∀ {es : List DirEntry} {fuel pos : Nat},
      TiledBy fs (blockOffset + pos) es (blockOffset + fs.blockSize) → fs.blockSize - pos ≤ fuel →
      fs.scanDir name blockOffset fuel pos = .ok (findEntry es name) := by
  intro es
  induction es with
  | nil =>
    intro fuel pos htiled _
    have hpos : blockOffset + pos = blockOffset + fs.blockSize := htiled
    cases fuel with
    | zero => rfl
    | succ fuel => exact if_neg (by omega)
  | cons e es ih =>
    intro fuel pos htiled hfuel
    obtain ⟨hentry, hrest⟩ := htiled
    have hend := hrest.le
    have hroom := hentry.room
    cases fuel with
    | zero => omega
    | succ fuel =>
      have hread : ∀ {off k : Nat}, off + k ≤ blockOffset + pos + 8 →
          fs.data.readLE off k = .ok (fs.data.bytes.readLE off k) := fun h => if_pos (by omega)
      have hname : fs.data.range (blockOffset + pos + 8) e.name.length = .ok e.name := by
        rw [Slice.range, if_pos (by omega), hentry.name]
      rw [scanDir_record e.inodeNr e.recLen (by omega)
        (by rw [hread (by omega), hentry.inodeNr]) (by rw [hread (by omega), hentry.recLen])
        (by rw [hread (by omega), hentry.nameLen]) hname (by omega), findEntry_cons]
      rw [Nat.add_assoc] at hrest
      by_cases hnames : e.inodeNr ≠ 0 ∧ e.name = name
      · rw [if_pos hnames, if_pos (show e.Names name from hnames)]
      · rw [if_neg hnames, if_neg (show ¬ e.Names name from hnames), ih hrest (by omega)]

/-- The scan of all blocks finds the first match in block order. -/
theorem scanBlocks_holds (name : List UInt8) : ∀ {bs : List Nat} {dir : List (List DirEntry)},
    fs.Holds bs dir → fs.scanBlocks name bs = .ok (findEntry dir.flatten name) := by
  intro bs
  induction bs with
  | nil =>
    intro dir h
    obtain rfl : dir = [] := h
    rfl
  | cons b bs ih =>
    intro dir h
    cases dir with
    | nil =>
      obtain rfl : b = 0 := h
      rfl
    | cons es dir =>
      obtain ⟨⟨hne, hin⟩, htiled, hrest⟩ := h
      rw [Nat.succ_mul] at hin htiled
      rw [scanBlocks, if_neg (by simpa using hne),
        scanDir_tiled name hin htiled (Nat.sub_le _ _), Kernel.ok_bind, List.flatten_cons,
        findEntry_append]
      cases findEntry es name with
      | some n => rfl
      | none => exact ih hrest

theorem stripSlash_eq (path : List UInt8) :
    (if path.head? == some 0x2F then path.tail else path) = stripSlash path := by
  cases path with
  | nil => rfl
  | cons c rest =>
    by_cases hc : c = 0x2F
    · subst hc
      rfl
    · rw [if_neg (by simpa using hc)]
      unfold stripSlash
      split
      · rename_i heq
        exact absurd (List.cons.inj heq).1 hc
      · rfl

theorem RootDirectory.lookup {dir : List (List DirEntry)} (h : fs.RootDirectory dir)
    (path : List UInt8) : fs.lookup path =
      .ok (if stripSlash path = [] then some rootInode
        else findEntry dir.flatten (stripSlash path)) := by
  have hoff : fs.inodeTableBlock * fs.blockSize + (rootInode - 1) * fs.inodeSize = fs.rootOffset := by
    rw [show rootInode - 1 = 1 from rfl, Nat.one_mul]
    rfl
  unfold Ext2Fs.lookup
  simp only [stripSlash_eq]
  by_cases hempty : stripSlash path = []
  · rw [if_pos (by rw [hempty]; rfl), if_pos hempty]
    rfl
  · rw [if_neg (by simpa using hempty), if_neg hempty,
      readInode_fields (by decide) hoff h.fields h.inode h.slice, Kernel.ok_bind]
    exact scanBlocks_holds _ h.blocks

/-- A path leads to inode `n`: it is the root's, or `n` stands in the first live record
that has its name. -/
def LeadsTo (dir : List (List DirEntry)) (path : List UInt8) (n : Nat) : Prop :=
  (stripSlash path = [] ∧ n = rootInode) ∨
    (stripSlash path ≠ [] ∧ ∃ before e after, dir.flatten = before ++ e :: after ∧
      e.Names (stripSlash path) ∧ e.inodeNr = n ∧ ∀ e' ∈ before, ¬ e'.Names (stripSlash path))

theorem findEntry_eq_some {es : List DirEntry} {name : List UInt8} {n : Nat} :
    findEntry es name = some n ↔ ∃ before e after, es = before ++ e :: after ∧
      e.Names name ∧ e.inodeNr = n ∧ ∀ e' ∈ before, ¬ e'.Names name := by
  rw [findEntry, Option.map_eq_some_iff]
  constructor
  · rintro ⟨e, he, hn⟩
    obtain ⟨hnames, before, after, hes, hbefore⟩ := List.find?_eq_some_iff_append.mp he
    exact ⟨before, e, after, hes, of_decide_eq_true hnames, hn, fun e' he' => by
      simpa using hbefore e' he'⟩
  · rintro ⟨before, e, after, hes, hnames, hn, hbefore⟩
    exact ⟨e, List.find?_eq_some_iff_append.mpr ⟨decide_eq_true hnames, before, after, hes,
      fun e' he' => by simpa using hbefore e' he'⟩, hn⟩

theorem leadsTo_iff {dir : List (List DirEntry)} {path : List UInt8} {n : Nat} :
    (if stripSlash path = [] then some rootInode else findEntry dir.flatten (stripSlash path)) = some n ↔
      LeadsTo dir path n := by
  unfold LeadsTo
  by_cases hempty : stripSlash path = []
  · rw [if_pos hempty, Option.some.injEq]
    exact ⟨fun h => .inl ⟨hempty, h.symm⟩, fun h => (h.resolve_right fun h => h.1 hempty).2.symm⟩
  · rw [if_neg hempty, findEntry_eq_some]
    exact ⟨fun h => .inr ⟨hempty, h⟩, fun h => (h.resolve_left fun h => hempty h.1).2⟩

/-! ## Opening a file -/

/-- What stands behind a descriptor that `handle_fs_open` hands out. -/
theorem handleFsOpen_eq_ok {s s' : Sys} {pathPtr pathLen fd : Nat}
    (h : handleFsOpen s pathPtr pathLen = .ok (s', fd)) (hfd : fd ≠ u64Max) :
    ∃ path inodeNr inode, copyIn s.ram.mem s.cr3 pathPtr pathLen = .ok path ∧
      s.fs.lookup path = .ok (some inodeNr) ∧ s.fs.readInode inodeNr = .ok (some inode) ∧
      inode.isRegularFile = true ∧ fd < maxOpenFiles ∧
      (s.openFiles.getD fd OpenFile.closed).active = false := by
  have failed : ∀ {r : Sys × Nat}, (Except.ok (s, u64Max) : Kernel _) = .ok r → r.2 = u64Max := by
    intro r hr
    rw [← Except.ok.inj hr]
  unfold handleFsOpen at h
  split at h
  · exact absurd (failed h) hfd
  · obtain ⟨valid, -, h⟩ := Kernel.bind_eq_ok h
    split at h
    · exact absurd (failed h) hfd
    · obtain ⟨path, hpath, h⟩ := Kernel.bind_eq_ok h
      obtain ⟨_ | inodeNr, hlookup, h⟩ := Kernel.bind_eq_ok h
      · exact absurd (failed h) hfd
      · obtain ⟨_ | inode, hinode, h⟩ := Kernel.bind_eq_ok h
        · exact absurd (failed h) hfd
        · simp only at h
          split at h
          · exact absurd (failed h) hfd
          · rename_i hregular
            cases hfree : firstFrom (fun fd => !(s.openFiles.getD fd OpenFile.closed).active)
                maxOpenFiles 0 with
            | none =>
              rw [hfree] at h
              exact absurd (failed h) hfd
            | some slot =>
              rw [hfree] at h
              obtain rfl : slot = fd := (Prod.mk.inj (Except.ok.inj h)).2
              obtain ⟨-, hlt, hinactive, -⟩ := firstFrom_eq_some.mp hfree
              exact ⟨path, inodeNr, inode, hpath, hlookup, hinode, by simpa using hregular,
                by omega, by simpa using hinactive⟩

/-- Lookup is exact: in an image whose root directory holds the records `dir`, a path is
resolved to `n` just when it leads there, by a scan that needs no more rounds than a
block has bytes; and a file that is opened is a regular one that the path leads to, at
a table entry that was free. -/
theorem lookup_exact {fs : Ext2Fs} {dir : List (List DirEntry)} (h : fs.RootDirectory dir) :
    (∀ path, ∃ found, fs.lookup path = .ok found ∧ ∀ n, found = some n ↔ LeadsTo dir path n) ∧
    (∀ name block fuel, fs.blockSize ≤ fuel →
      fs.scanDir name block fuel 0 = fs.scanDir name block fs.blockSize 0) ∧
    ∀ s s' pathPtr pathLen fd, s.fs = fs → handleFsOpen s pathPtr pathLen = .ok (s', fd) →
      fd ≠ u64Max → ∃ path n inode, copyIn s.ram.mem s.cr3 pathPtr pathLen = .ok path ∧
        LeadsTo dir path n ∧ fs.readInode n = .ok (some inode) ∧ inode.isRegularFile = true ∧
        fd < maxOpenFiles ∧ (s.openFiles.getD fd OpenFile.closed).active = false := by
  refine ⟨?_, ?_, ?_⟩
  · intro path
    exact ⟨_, h.lookup path, fun n => leadsTo_iff⟩
  · intro name block fuel hfuel
    exact scanDir_fuel name block (by omega) (by omega)
  · rintro s s' pathPtr pathLen fd rfl hopen hfd
    obtain ⟨path, n, inode, hpath, hlookup, hinode, hregular, hfree⟩ := handleFsOpen_eq_ok hopen hfd
    rw [h.lookup path] at hlookup
    exact ⟨path, n, inode, hpath, leadsTo_iff.mp (Except.ok.inj hlookup), hinode, hregular, hfree⟩

/-- An image whose root directory is the one block 9: a deleted record, then `ab`. -/
def tinyFs : Ext2Fs where
  data := ⟨fun a => if a = 200 then 9 else ([0, 0, 0, 0, 12, 0, 1, 0, 0x78, 0, 0, 0,
    11, 0, 0, 0, 20, 0, 2, 0, 0x61, 0x62] : List UInt8).getD (a - 288) 0, 320⟩
  blockSize := 32
  inodesPerGroup := 2
  inodeSize := 128
  inodeTableBlock := 1

def tinyDir : List (List DirEntry) := [[⟨0, 12, [0x78]⟩, ⟨11, 20, [0x61, 0x62]⟩]]

theorem tiny_root : tinyFs.RootDirectory tinyDir where
  slice := by decide
  inode := by decide
  fields := by decide
  blocks := by decide

/-- `/ab` is found in `tinyFs`. -/
theorem lookup_exact_tiny : tinyFs.RootDirectory tinyDir ∧
    (∃ found, tinyFs.lookup [0x2F, 0x61, 0x62] = .ok found ∧
      ∀ n, found = some n ↔ LeadsTo tinyDir [0x2F, 0x61, 0x62] n) ∧
    LeadsTo tinyDir [0x2F, 0x61, 0x62] 11 :=
  ⟨tiny_root, (lookup_exact tiny_root).1 [0x2F, 0x61, 0x62],
    .inr ⟨by decide, [⟨0, 12, [0x78]⟩], ⟨11, 20, [0x61, 0x62]⟩, [], rfl, by decide, rfl, by decide⟩⟩

end Coconut.Ext2Fs
