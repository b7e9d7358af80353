import Coconut.Elf
import Coconut.PmmInit
import Mathlib.Data.List.TakeWhile

/-!
# The bootloader's ELF loader

`coconut-boot` reads the supervisor's ELF file into a buffer, collects its `PT_LOAD`
segments (`parse_elf64`), and copies them to the pages it gets at the load address
(`load_elf_segments`).  The release build adds without overflow checks, and both the
program headers and the segments are reached through raw pointers, so what the loader
touches is decided by fields nobody has checked.

A run is kept with what it touches: the offsets of the headers it reads, the ranges of the
file it copies from and the ranges of memory it writes to.  The buffer is no part of the
pages the firmware hands out, so the file is a value of its own; a run that has written
outside the pages is not followed any further than its list of writes.
-/
namespace Coconut.BootLoader

/-- Physical address where the supervisor will be loaded. -/
@[simp] def supervisorLoadAddr : Nat := 0x200000

/-- `PT_LOAD`. -/
@[simp] def ptLoad : Nat := 1

/-- The buffer that holds the file: `bytes o` lies `o` bytes behind its start.  Physical
addresses have at most 52 bits. -/
structure ElfData where
  bytes : Memory
  len : Nat
  len_le : len ≤ 2 ^ 52

/-- What a pointer into the buffer reads; pointers wrap around. -/
def ElfData.raw (d : ElfData) : Memory := fun o => d.bytes (o % 0x10000000000000000)

/-! ## `parse_elf64` -/

/-- A loadable segment extracted from the ELF. -/
structure LoadSegment where
  fileOffset : Nat
  fileSize : Nat
  loadAddr : Nat
  memSize : Nat
  fileOffset_lt : fileOffset < 2 ^ 64
  fileSize_lt : fileSize < 2 ^ 64
  loadAddr_lt : loadAddr < 2 ^ 64
  memSize_lt : memSize < 2 ^ 64

/-- The refusals of `parse_elf64`. -/
inductive ParseError where
  | tooSmall
  | badMagic
  | notElf64
  | notLittleEndian
  | notX8664
  | headerOutOfBounds
  | tooManySegments
  deriving DecidableEq, Repr

def ParseError.message : ParseError → String
  | tooSmall => "ELF data too small for header"
  | badMagic => "invalid ELF magic"
  | notElf64 => "not ELF64"
  | notLittleEndian => "not little-endian"
  | notX8664 => "not x86_64"
  | headerOutOfBounds => "program header out of bounds"
  | tooManySegments => "too many PT_LOAD segments"

/-- Parsed ELF information: `segments[..segment_count]` of an array of eight. -/
structure ElfInfo where
  entryPoint : Nat
  segments : List LoadSegment
  count_le : segments.length ≤ 8
  /-- The offsets of the program headers that were read. -/
  headers : List Nat

/-- The segment described by the program header at `o`. -/
def segmentAt (d : ElfData) (o : Nat) : LoadSegment where
  fileOffset := d.raw.readLE (o + 8) 8
  loadAddr := d.raw.readLE (o + 24) 8
  fileSize := d.raw.readLE (o + 32) 8
  memSize := d.raw.readLE (o + 40) 8
  fileOffset_lt := Memory.readLE_lt _ _ 8
  fileSize_lt := Memory.readLE_lt _ _ 8
  loadAddr_lt := Memory.readLE_lt _ _ 8
  memSize_lt := Memory.readLE_lt _ _ 8

/-- One program header. -/
def parseHeader (d : ElfData) (o : Nat) (info : ElfInfo) : Except ParseError ElfInfo :=
  if d.len < wrappingAdd o phdrSize then .error .headerOutOfBounds
  else if d.raw.readLE o 4 = ptLoad then
    if hfull : 8 ≤ info.segments.length then .error .tooManySegments
    else .ok { info with
      segments := info.segments ++ [segmentAt d o]
      count_le := by rw [List.length_append, List.length_singleton]; omega
      headers := info.headers ++ [o] }
  else .ok { info with headers := info.headers ++ [o] }

/-- The loop over the `n` program headers from the `i`-th on. -/
def parseHeaders (d : ElfData) (phOffset phEntsize : Nat) :
    Nat → Nat → ElfInfo → Except ParseError ElfInfo
  | 0, _, info => .ok info
  | n + 1, i, info => do
    let info ← parseHeader d (wrappingAdd phOffset (i * phEntsize)) info
    parseHeaders d phOffset phEntsize n (i + 1) info

namespace ElfData

variable (d : ElfData)

/-- `e_entry`. -/
def entry : Nat := d.raw.readLE 24 8
/-- `e_phoff`. -/
def phOffset : Nat := d.raw.readLE 32 8
/-- `e_phentsize`. -/
def phEntsize : Nat := d.raw.readLE 54 2
/-- `e_phnum`. -/
def phNum : Nat := d.raw.readLE 56 2

end ElfData

/-- Parse an ELF64 file from a byte buffer. -/
def parseElf64 (d : ElfData) : Except ParseError ElfInfo :=
  if d.len < ehdrSize then .error .tooSmall
  else if d.raw.readBytes 0 4 ≠ [0x7F, 0x45, 0x4C, 0x46] then .error .badMagic
  else if d.raw 4 ≠ 2 then .error .notElf64
  else if d.raw 5 ≠ 1 then .error .notLittleEndian
  else if d.raw.readLE 18 2 ≠ 0x3E then .error .notX8664
  else parseHeaders d d.phOffset d.phEntsize d.phNum 0 ⟨d.entry, [], Nat.zero_le 8, []⟩

/-! ## `load_elf_segments` -/

/-- The firmware: how many pages can be had at the load address. -/
structure Firmware where
  allocates : Nat → Bool
  fits : ∀ n, allocates n = true → supervisorLoadAddr + n * 4096 ≤ 2 ^ 52

/-- A run of `load_elf_segments`. -/
structure LoadRun where
  memory : Memory
  /-- Destination and size of every write. -/
  writes : List (Nat × Nat)
  /-- Offset and size of every range of the file that is copied. -/
  sources : List (Nat × Nat)
  /-- The bytes loaded so far. -/
  totalLoaded : Nat
  panicked : Bool

/-- `n` bytes stored from `dest` on, where the address wraps around. -/
def store (m : Memory) (dest n : Nat) (src : Nat → UInt8) : Memory := fun a =>
  let k := (a + 0x10000000000000000 - dest) % 0x10000000000000000
  if k < n then src k else m a

/-- The loop that finds the lowest and the highest address. -/
def addressRange : List LoadSegment → Nat × Nat → Nat × Nat
  | [], range => range
  | seg :: rest, (minAddr, maxAddr) =>
    let minAddr := if seg.loadAddr < minAddr then seg.loadAddr else minAddr
    let segEnd := wrappingAdd seg.loadAddr seg.memSize
    addressRange rest (minAddr, if maxAddr < segEnd then segEnd else maxAddr)

/-- The pages asked for. -/
def pageCount (segments : List LoadSegment) : Nat :=
  let (minAddr, maxAddr) := addressRange segments (u64Max, 0)
  let totalSize := (maxAddr + 0x10000000000000000 - minAddr) % 0x10000000000000000
  wrappingAdd totalSize 4095 / 4096

/-- The loop that copies each segment; slicing the file panics outside it. -/
def copySegments (d : ElfData) : List LoadSegment → LoadRun → LoadRun
  | [], run => run
  | seg :: rest, run =>
    let stop := wrappingAdd seg.fileOffset seg.fileSize
    if stop < seg.fileOffset ∨ d.len < stop then { run with panicked := true }
    else copySegments d rest {
      memory := store run.memory seg.loadAddr seg.fileSize fun k => d.raw (seg.fileOffset + k)
      writes := run.writes ++ [(seg.loadAddr, seg.fileSize)]
      sources := run.sources ++ [(seg.fileOffset, seg.fileSize)]
      totalLoaded := wrappingAdd run.totalLoaded seg.fileSize
      panicked := run.panicked }

/-- The run once the allocated region is zeroed. -/
def zeroPages (pages : Nat) (m : Memory) : LoadRun :=
  let size := pages * 4096 % 0x10000000000000000
  { memory := store m supervisorLoadAddr size fun _ => 0
    writes := [(supervisorLoadAddr, size)]
    sources := []
    totalLoaded := 0
    panicked := false }

/-- Allocate pages at the load address and copy the segments. -/
def loadElfSegments (fw : Firmware) (d : ElfData) (info : ElfInfo) (m : Memory) : LoadRun :=
  let pages := pageCount info.segments
  if fw.allocates pages then copySegments d info.segments (zeroPages pages m)
  else ⟨m, [], [], 0, true⟩

/-! ## What the file asks for -/

namespace ElfData

variable (d : ElfData)

/-- The offset of the `i`-th program header, as the loop computes it. -/
def headerOffset (i : Nat) : Nat := (d.phOffset + i * d.phEntsize) % 2 ^ 64

/-- The segments of the file: its `PT_LOAD` headers. -/
def loadSegments : List LoadSegment :=
  (((List.range d.phNum).map d.headerOffset).filter fun o => d.raw.readLE o 4 = ptLoad).map
    (segmentAt d)

end ElfData

/-- The lowest load address. -/
def lowest (segments : List LoadSegment) : Nat :=
  segments.foldl (fun a seg => min a seg.loadAddr) u64Max

/-- The highest end, modulo 2^64. -/
def highest (segments : List LoadSegment) : Nat :=
  segments.foldl (fun a seg => max a ((seg.loadAddr + seg.memSize) % 2 ^ 64)) 0

/-- The pages from the lowest address to the highest end. -/
def spanPages (segments : List LoadSegment) : Nat :=
  ((highest segments + 2 ^ 64 - lowest segments) % 2 ^ 64 + 4095) % 2 ^ 64 / 4096

/-- An address inside `pages` pages at the load address. -/
def InPages (pages a : Nat) : Prop :=
  supervisorLoadAddr ≤ a ∧ a < supervisorLoadAddr + pages * 4096

instance (pages a : Nat) : Decidable (InPages pages a) := inferInstanceAs (Decidable (_ ∧ _))

namespace LoadSegment

variable (seg : LoadSegment)

/-- The address of byte `k` of the segment. -/
def addr (k : Nat) : Nat := (seg.loadAddr + k) % 2 ^ 64

/-- How far behind the load address `a` lies. -/
def offsetOf (a : Nat) : Nat := (a + 2 ^ 64 - seg.loadAddr) % 2 ^ 64

/-- The file bytes of the segment go to `a`, among others. -/
def Covers (a : Nat) : Prop := seg.offsetOf a < seg.fileSize

instance (a : Nat) : Decidable (seg.Covers a) := inferInstanceAs (Decidable (_ < _))

/-- The file holds the bytes of the segment. -/
def InFile (d : ElfData) : Prop := seg.fileOffset + seg.fileSize ≤ d.len

instance (d : ElfData) : Decidable (seg.InFile d) := inferInstanceAs (Decidable (_ ≤ _))

end LoadSegment

/-- The byte the segments put at `a`: that of the last one that covers it. -/
def imageByte (d : ElfData) (segments : List LoadSegment) (a : Nat) : Option UInt8 :=
  (segments.filter fun seg => seg.Covers a).getLast?.map fun seg =>
    d.raw (seg.fileOffset + seg.offsetOf a)

/-- The loader stays in bounds: the headers it reads and the ranges it copies lie inside
the file, it writes inside its pages, and when it returns the bytes of each segment behind
its file bytes are zero. -/
structure InBounds (d : ElfData) (info : ElfInfo) (run : LoadRun) : Prop where
  headers : ∀ o ∈ info.headers, o + phdrSize ≤ d.len
  sources : ∀ r ∈ run.sources, r.1 + r.2 ≤ d.len
  writes : ∀ w ∈ run.writes, ∀ k < w.2,
    InPages (pageCount info.segments) ((w.1 + k) % 2 ^ 64)
  zeros : run.panicked = false → ∀ seg ∈ info.segments, ∀ k, seg.fileSize ≤ k → k < seg.memSize →
    run.memory (seg.addr k) = 0

/-- The files that are loaded in bounds. -/
structure Loadable (fw : Firmware) (d : ElfData) (m : Memory) : Prop where
  /-- No header ends at or behind the end of the address space. -/
  headers : ∀ i < d.phNum, d.headerOffset i + phdrSize < 2 ^ 64
  /-- The segments up to the first that is not in the file go to the pages. -/
  destinations : fw.allocates (spanPages d.loadSegments) = true →
    ∀ seg ∈ d.loadSegments.takeWhile fun seg => seg.InFile d,
      seg.fileSize = 0 ∨ supervisorLoadAddr ≤ seg.loadAddr ∧
        seg.loadAddr + seg.fileSize ≤ supervisorLoadAddr + spanPages d.loadSegments * 4096
  /-- Where a segment has no file bytes the last other one that does has a zero, and
  memory outside the pages was zero before. -/
  zeros : fw.allocates (spanPages d.loadSegments) = true → (∀ seg ∈ d.loadSegments, seg.InFile d) →
    ∀ seg ∈ d.loadSegments, ∀ k, seg.fileSize ≤ k → k < seg.memSize →
      (∀ b, imageByte d d.loadSegments (seg.addr k) = some b → b = 0) ∧
        (imageByte d d.loadSegments (seg.addr k) = none →
          InPages (spanPages d.loadSegments) (seg.addr k) ∨ m (seg.addr k) = 0)

/-! ## Parsing -/

theorem parseHeader_eq_ok {d : ElfData} {o : Nat} {info info' : ElfInfo}
    (h : parseHeader d o info = .ok info') :
    (o + phdrSize) % 2 ^ 64 ≤ d.len ∧ info'.headers = info.headers ++ [o] ∧
      info'.segments = info.segments ++
        (([o].filter fun o => d.raw.readLE o 4 = ptLoad).map (segmentAt d)) := by
  unfold parseHeader at h
  by_cases hlen : d.len < wrappingAdd o phdrSize
  · rw [if_pos hlen] at h
    cases h
  · rw [if_neg hlen] at h
    refine ⟨Nat.le_of_not_lt hlen, ?_⟩
    by_cases hload : d.raw.readLE o 4 = ptLoad
    · rw [if_pos hload] at h
      rw [List.filter_cons, if_pos (decide_eq_true hload)]
      by_cases hfull : 8 ≤ info.segments.length
      · rw [dif_pos hfull] at h
        cases h
      · rw [dif_neg hfull] at h
        cases h
        exact ⟨rfl, rfl⟩
    · rw [if_neg hload] at h
      cases h
      rw [List.filter_cons, if_neg (by rwa [decide_eq_true_eq])]
      exact ⟨rfl, (List.append_nil _).symm⟩

theorem parseHeaders_eq_ok {d : ElfData} {phOffset phEntsize : Nat} :
    ∀ {n i : Nat} {info info' : ElfInfo}, parseHeaders d phOffset phEntsize n i info = .ok info' →
      let offsets := (List.range' i n).map fun i => (phOffset + i * phEntsize) % 2 ^ 64
      (∀ o ∈ offsets, (o + phdrSize) % 2 ^ 64 ≤ d.len) ∧ info'.headers = info.headers ++ offsets ∧
        info'.segments = info.segments ++
          ((offsets.filter fun o => d.raw.readLE o 4 = ptLoad).map (segmentAt d))
  | 0, _, info, info', h => by
    cases h
    exact ⟨nofun, (List.append_nil _).symm, (List.append_nil _).symm⟩
  | n + 1, i, info, info', h => by
    rw [parseHeaders] at h
    cases hnext : parseHeader d (wrappingAdd phOffset (i * phEntsize)) info with
    | error e =>
      rw [hnext] at h
      cases h
    | ok next =>
      rw [hnext] at h
      obtain ⟨hlen, hheaders, hsegments⟩ := parseHeader_eq_ok hnext
      obtain ⟨ihlen, ihheaders, ihsegments⟩ := parseHeaders_eq_ok h
      simp only [List.range'_succ, List.map_cons]
      refine ⟨List.forall_mem_cons.mpr ⟨hlen, ihlen⟩, ?_, ?_⟩
      · rw [ihheaders, hheaders, List.append_assoc]
        rfl
      · rw [ihsegments, hsegments, List.append_assoc, ← List.map_append, ← List.filter_append]
        rfl

/-- What a file that is accepted is parsed into. -/
theorem parseElf64_eq_ok {d : ElfData} {info : ElfInfo} (h : parseElf64 d = .ok info) :
    (∀ i < d.phNum, (d.headerOffset i + phdrSize) % 2 ^ 64 ≤ d.len) ∧
      info.headers = (List.range d.phNum).map d.headerOffset ∧ info.segments = d.loadSegments := by
  unfold parseElf64 at h
  split at h
  · cases h
  split at h
  · cases h
  split at h
  · cases h
  split at h
  · cases h
  split at h
  · cases h
  obtain ⟨hlen, hheaders, hsegments⟩ := parseHeaders_eq_ok h
  rw [← List.range_eq_range'] at hlen hheaders hsegments
  refine ⟨fun i hi => hlen _ (List.mem_map_of_mem (List.mem_range.mpr hi)), hheaders, hsegments⟩

/-! ## Copying -/

theorem addressRange_eq (segments : List LoadSegment) (minAddr maxAddr : Nat) :
    addressRange segments (minAddr, maxAddr) =
      (segments.foldl (fun a seg => min a seg.loadAddr) minAddr,
        segments.foldl (fun a seg => max a ((seg.loadAddr + seg.memSize) % 2 ^ 64)) maxAddr) := by
  induction segments generalizing minAddr maxAddr with
  | nil => rfl
  | cons seg rest ih =>
    have hmin : (if seg.loadAddr < minAddr then seg.loadAddr else minAddr) =
        min minAddr seg.loadAddr := by
      rw [Nat.min_def]
      split
      · rw [if_neg (by omega)]
      · rw [if_pos (by omega)]
    have hmax : (if maxAddr < wrappingAdd seg.loadAddr seg.memSize then
        wrappingAdd seg.loadAddr seg.memSize else maxAddr) =
          max maxAddr ((seg.loadAddr + seg.memSize) % 2 ^ 64) := by
      change (if maxAddr < (seg.loadAddr + seg.memSize) % 2 ^ 64 then _ else _) = _
      rw [Nat.max_def]
      split
      · rw [if_pos (by omega)]
        rfl
      · split
        · omega
        · rfl
    simp only [addressRange, List.foldl_cons]
    rw [hmin, hmax, ih]

theorem pageCount_eq (segments : List LoadSegment) : pageCount segments = spanPages segments := by
  unfold pageCount
  rw [addressRange_eq]
  rfl

/-- Slicing the file panics exactly if the bytes of the segment are not all in it. -/
theorem slice_panics_iff (d : ElfData) (seg : LoadSegment) :
    (wrappingAdd seg.fileOffset seg.fileSize < seg.fileOffset ∨
      d.len < wrappingAdd seg.fileOffset seg.fileSize) ↔ ¬ seg.InFile d := by
  have hlen := d.len_le
  have hoffset := seg.fileOffset_lt
  have hsize := seg.fileSize_lt
  unfold wrappingAdd LoadSegment.InFile
  omega

theorem imageByte_cons (d : ElfData) (seg : LoadSegment) (rest : List LoadSegment) (a : Nat)
    (b : UInt8) : (imageByte d (seg :: rest) a).getD b =
      (imageByte d rest a).getD
        (if seg.Covers a then d.raw (seg.fileOffset + seg.offsetOf a) else b) := by
  unfold imageByte
  by_cases hcovers : seg.Covers a
  · rw [List.filter_cons, if_pos (decide_eq_true hcovers), if_pos hcovers, List.getLast?_cons]
    cases (rest.filter fun seg => seg.Covers a).getLast? with
    | none => rfl
    | some last => rfl
  · rw [List.filter_cons, if_neg (by rwa [decide_eq_true_eq]), if_neg hcovers]

/-- What the copying loop does to a run: it copies the segments up to the first that is not
in the file. -/
structure Copies (d : ElfData) (segments : List LoadSegment) (run run' : LoadRun) : Prop where
  writes : run'.writes = run.writes ++
    (segments.takeWhile fun seg => seg.InFile d).map fun seg => (seg.loadAddr, seg.fileSize)
  sources : run'.sources = run.sources ++
    (segments.takeWhile fun seg => seg.InFile d).map fun seg => (seg.fileOffset, seg.fileSize)
  panicked : run'.panicked = false ↔ run.panicked = false ∧ ∀ seg ∈ segments, seg.InFile d
  memory : (∀ seg ∈ segments, seg.InFile d) →
    ∀ a, run'.memory a = (imageByte d segments a).getD (run.memory a)
  totalLoaded : (∀ seg ∈ segments, seg.InFile d) →
    run'.totalLoaded = (run.totalLoaded + (segments.map LoadSegment.fileSize).sum) % 2 ^ 64

theorem copySegments_copies (d : ElfData) : ∀ (segments : List LoadSegment) (run : LoadRun),
    run.totalLoaded < 2 ^ 64 → Copies d segments run (copySegments d segments run)
  | [], run, htotal => by
    refine ⟨(List.append_nil _).symm, (List.append_nil _).symm, ?_, fun _ _ => rfl, fun _ => ?_⟩
    · exact ⟨fun h => ⟨h, nofun⟩, fun h => h.1⟩
    · exact (Nat.mod_eq_of_lt htotal).symm
  | seg :: rest, run, htotal => by
    rw [copySegments]
    by_cases hfile : seg.InFile d
    · rw [if_neg (mt (slice_panics_iff d seg).mp (not_not_intro hfile))]
      generalize hnext : LoadRun.mk _ _ _ _ _ = next
      have htotal' : next.totalLoaded = wrappingAdd run.totalLoaded seg.fileSize := by rw [← hnext]
      have ih := copySegments_copies d rest next (htotal' ▸ Nat.mod_lt _ (by decide))
      have hinit : (seg :: rest).takeWhile (fun seg => seg.InFile d) =
          seg :: rest.takeWhile fun seg => seg.InFile d :=
        List.takeWhile_cons_of_pos (decide_eq_true hfile)
      constructor
      · rw [ih.writes, hinit, List.map_cons, ← hnext, List.append_assoc, List.singleton_append]
      · rw [ih.sources, hinit, List.map_cons, ← hnext, List.append_assoc, List.singleton_append]
      · rw [ih.panicked, List.forall_mem_cons, ← hnext]
        exact and_congr_right fun _ => (and_iff_right hfile).symm
      · intro hall a
        rw [ih.memory (List.forall_mem_cons.mp hall).2, imageByte_cons, ← hnext]
        rfl
      · intro hall
        rw [ih.totalLoaded (List.forall_mem_cons.mp hall).2, htotal', List.map_cons, List.sum_cons,
          ← Nat.add_assoc]
        exact Nat.mod_add_mod _ _ _
    · rw [if_pos ((slice_panics_iff d seg).mpr hfile)]
      have hinit : (seg :: rest).takeWhile (fun seg => seg.InFile d) = [] :=
        List.takeWhile_cons_of_neg (by rwa [decide_eq_true_eq])
      have hnot : ¬ ∀ s ∈ seg :: rest, s.InFile d := fun hall => hfile (hall seg List.mem_cons_self)
      constructor
      · rw [hinit]
        exact (List.append_nil _).symm
      · rw [hinit]
        exact (List.append_nil _).symm
      · exact ⟨nofun, fun h => absurd h.2 hnot⟩
      · exact fun hall => absurd hall hnot
      · exact fun hall => absurd hall hnot

/-! ## Staying in bounds -/

/-- The check on a header is right as long as the end of the header does not wrap. -/
theorem header_inside_iff (d : ElfData) {o : Nat} (ho : o < 2 ^ 64)
    (haccepted : (o + phdrSize) % 2 ^ 64 ≤ d.len) :
    o + phdrSize ≤ d.len ↔ o + phdrSize < 2 ^ 64 := by
  have hlen := d.len_le
  simp only [phdrSize] at haccepted ⊢
  omega

/-- A range of memory lies in the pages, byte by byte. -/
theorem range_in_pages_iff {pages dest n : Nat}
    (hpages : supervisorLoadAddr + pages * 4096 ≤ 2 ^ 52)
    (hdest : dest < 2 ^ 64) : (∀ k < n, InPages pages ((dest + k) % 2 ^ 64)) ↔
      n = 0 ∨ supervisorLoadAddr ≤ dest ∧ dest + n ≤ supervisorLoadAddr + pages * 4096 := by
  unfold InPages
  simp only [supervisorLoadAddr] at hpages ⊢
  constructor
  · intro h
    refine or_iff_not_imp_left.mpr fun hn => ?_
    have hfirst := h 0 (by omega)
    refine ⟨by omega, Nat.le_of_not_lt fun hend => ?_⟩
    -- the byte right behind the pages would be written
    have hbehind := h (0x200000 + pages * 4096 - dest) (by omega)
    omega
  · intro h k hk
    omega

theorem zeroPages_size {pages : Nat} (hpages : supervisorLoadAddr + pages * 4096 ≤ 2 ^ 52) :
    pages * 4096 % 0x10000000000000000 = pages * 4096 := by
  simp only [supervisorLoadAddr] at hpages
  omega

theorem zeroPages_totalLoaded_lt (pages : Nat) (m : Memory) :
    (zeroPages pages m).totalLoaded < 2 ^ 64 := by
  show 0 < 2 ^ 64
  decide

/-- The zeroing itself stays in the pages. -/
theorem zeroPages_writes {m : Memory} {pages : Nat}
    (hpages : supervisorLoadAddr + pages * 4096 ≤ 2 ^ 52) {w : Nat × Nat}
    (hw : w ∈ (zeroPages pages m).writes) : ∀ k < w.2, InPages pages ((w.1 + k) % 2 ^ 64) := by
  obtain rfl := List.mem_singleton.mp hw
  have hstart : supervisorLoadAddr < 2 ^ 64 := by decide
  refine (range_in_pages_iff hpages hstart).mpr (.inr ⟨Nat.le_refl _, ?_⟩)
  exact Nat.add_le_add_left (Nat.mod_le _ _) _

theorem zeroPages_eq_zero_iff {m : Memory} {pages a : Nat}
    (hpages : supervisorLoadAddr + pages * 4096 ≤ 2 ^ 52) (ha : a < 2 ^ 64) :
    (zeroPages pages m).memory a = 0 ↔ InPages pages a ∨ m a = 0 := by
  have hin : (a + 0x10000000000000000 - supervisorLoadAddr) % 0x10000000000000000 < pages * 4096 ↔
      InPages pages a := by
    unfold InPages
    simp only [supervisorLoadAddr] at hpages ⊢
    omega
  simp only [zeroPages, zeroPages_size hpages, store]
  by_cases h : InPages pages a
  · exact iff_of_true (if_pos (hin.mpr h)) (.inl h)
  · rw [if_neg (mt hin.mp h), or_iff_right h]

theorem ElfData.headerOffset_lt (d : ElfData) (i : Nat) : d.headerOffset i < 2 ^ 64 :=
  Nat.mod_lt _ (by decide)

theorem LoadSegment.addr_lt (seg : LoadSegment) (k : Nat) : seg.addr k < 2 ^ 64 :=
  Nat.mod_lt _ (by decide)

/-- **The loader stays in bounds** for the files of `Loadable`, and for no others that
`parse_elf64` accepts. -/
theorem boot_load_in_bounds_iff (fw : Firmware) (d : ElfData) (m : Memory) {info : ElfInfo}
    (hparse : parseElf64 d = .ok info) :
    InBounds d info (loadElfSegments fw d info m) ↔ Loadable fw d m := by
  obtain ⟨haccepted, hheaders, hsegments⟩ := parseElf64_eq_ok hparse
  have hheaders_iff : (∀ o ∈ info.headers, o + phdrSize ≤ d.len) ↔
      ∀ i < d.phNum, d.headerOffset i + phdrSize < 2 ^ 64 := by
    rw [hheaders, List.forall_mem_map]
    refine ⟨fun h i hi => ?_, fun h i hi => ?_⟩
    · exact (header_inside_iff d (d.headerOffset_lt i) (haccepted i hi)).mp
        (h i (List.mem_range.mpr hi))
    · have hi := List.mem_range.mp hi
      exact (header_inside_iff d (d.headerOffset_lt i) (haccepted i hi)).mpr (h i hi)
  unfold loadElfSegments
  rw [hsegments, pageCount_eq]
  simp only
  by_cases hallocates : fw.allocates (spanPages d.loadSegments) = true
  · rw [if_pos hallocates]
    have hpages := fw.fits _ hallocates
    have hcopies := copySegments_copies d d.loadSegments
      (zeroPages (spanPages d.loadSegments) m) (zeroPages_totalLoaded_lt _ _)
    generalize copySegments d d.loadSegments _ = run at hcopies
    have hreturns : run.panicked = false ↔ ∀ seg ∈ d.loadSegments, seg.InFile d :=
      hcopies.panicked.trans (and_iff_right rfl)
    have hbyte : (∀ seg ∈ d.loadSegments, seg.InFile d) → ∀ (seg : LoadSegment) (k : Nat),
        run.memory (seg.addr k) = 0 ↔
          (∀ b, imageByte d d.loadSegments (seg.addr k) = some b → b = 0) ∧
            (imageByte d d.loadSegments (seg.addr k) = none →
              InPages (spanPages d.loadSegments) (seg.addr k) ∨ m (seg.addr k) = 0) := by
      intro hall seg k
      rw [hcopies.memory hall]
      cases imageByte d d.loadSegments (seg.addr k) with
      | some b =>
        refine ⟨fun h => ⟨fun c hc => ?_, nofun⟩, fun h => h.1 b rfl⟩
        rw [← Option.some.inj hc]
        exact h
      | none =>
        rw [Option.getD_none, zeroPages_eq_zero_iff hpages (seg.addr_lt k)]
        exact ⟨fun h => ⟨nofun, fun _ => h⟩, fun h => h.2 rfl⟩
    constructor
    · intro h
      refine ⟨hheaders_iff.mp h.headers, fun _ seg hseg => ?_, fun _ hall seg hseg k hk hk' => ?_⟩
      · refine (range_in_pages_iff hpages seg.loadAddr_lt).mp ?_
        have hwrite := h.writes (seg.loadAddr, seg.fileSize)
          (hcopies.writes ▸ List.mem_append_right _ (List.mem_map_of_mem hseg))
        rwa [hsegments, pageCount_eq] at hwrite
      · exact (hbyte hall seg k).mp (h.zeros (hreturns.mpr hall) seg (hsegments ▸ hseg) k hk hk')
    · intro h
      refine ⟨hheaders_iff.mpr h.headers, fun r hr => ?_, fun w hw => ?_,
        fun hret seg hseg k hk hk' => ?_⟩
      · rw [hcopies.sources, zeroPages, List.nil_append] at hr
        obtain ⟨seg, hseg, rfl⟩ := List.mem_map.mp hr
        have hfile := List.mem_takeWhile_imp hseg
        rwa [decide_eq_true_eq] at hfile
      · rw [hsegments, pageCount_eq]
        rw [hcopies.writes] at hw
        rcases List.mem_append.mp hw with hw | hw
        · exact zeroPages_writes hpages hw
        · obtain ⟨seg, hseg, rfl⟩ := List.mem_map.mp hw
          exact (range_in_pages_iff hpages seg.loadAddr_lt).mpr (h.destinations hallocates seg hseg)
      · have hall := hreturns.mp hret
        exact (hbyte hall seg k).mpr (h.zeros hallocates hall seg (hsegments ▸ hseg) k hk hk')
  · rw [if_neg hallocates]
    constructor
    · intro h
      exact ⟨hheaders_iff.mp h.headers, fun ha => absurd ha hallocates,
        fun ha => absurd ha hallocates⟩
    · intro h
      exact ⟨hheaders_iff.mpr h.headers, nofun, nofun, nofun⟩

/-! ## Three files -/

theorem parse_of_toBool {d : ElfData} (h : (parseElf64 d).toBool = true) :
    ∃ info, parseElf64 d = .ok info := by
  cases hd : parseElf64 d with
  | ok info => exact ⟨info, rfl⟩
  | error e =>
    rw [hd] at h
    cases h

/-- A file of 124 bytes with one `PT_LOAD` header, at offset 64, and four bytes to load. -/
def sampleElf (phOffset loadAddr memSize : Nat) : ElfData where
  bytes :=
    let ident := Memory.writeBytes (fun _ => 0) 0 [0x7F, 0x45, 0x4C, 0x46, 2, 1]
    let ehdr := ((ident.writeLE 18 2 0x3E).writeLE 32 8 phOffset).writeLE 54 4 0x10038
    let phdr := ((ehdr.writeLE 64 4 1).writeLE 72 8 120).writeLE 88 8 loadAddr
    ((phdr.writeLE 96 8 4).writeLE 104 8 memSize).writeBytes 120 [0xFA, 0xF4, 0xEB, 0xFD]
  len := 124
  len_le := by decide

/-- Firmware with eight mebibytes free at the load address. -/
def sampleFirmware : Firmware where
  allocates n := n ≤ 2048
  fits n h := by
    have := of_decide_eq_true h
    simp only [supervisorLoadAddr]
    omega

set_option maxRecDepth 100000 in
/-- A file linked at the load address, with four bytes of bss. -/
theorem boot_load_in_bounds_iff_sample : ∃ info,
    parseElf64 (sampleElf 64 0x200000 8) = .ok info ∧
      InBounds (sampleElf 64 0x200000 8) info
        (loadElfSegments sampleFirmware (sampleElf 64 0x200000 8) info fun _ => 0xFF) := by
  obtain ⟨info, hparse⟩ := parse_of_toBool (d := sampleElf 64 0x200000 8) (by decide +kernel)
  refine ⟨info, hparse, (boot_load_in_bounds_iff _ _ _ hparse).mpr ⟨?_, ?_, ?_⟩⟩
  · decide +kernel
  · decide +kernel
  · intro _ _ seg hseg k hk hk'
    have hbss : ∀ seg ∈ (sampleElf 64 0x200000 8).loadSegments, seg.fileSize = 4 ∧
        seg.memSize = 8 ∧ ∀ k < 8, 4 ≤ k →
          imageByte (sampleElf 64 0x200000 8) (sampleElf 64 0x200000 8).loadSegments
            (seg.addr k) = none ∧
          InPages (spanPages (sampleElf 64 0x200000 8).loadSegments) (seg.addr k) := by
      decide +kernel
    have hseg := hbss seg hseg
    rw [hseg.1] at hk
    rw [hseg.2.1] at hk'
    have hbyte := hseg.2.2 k hk' hk
    refine ⟨fun b hb => ?_, fun _ => .inl hbyte.2⟩
    rw [hbyte.1] at hb
    cases hb

set_option maxRecDepth 100000 in
/-- A header offset right below the end of the address space, and a segment linked at one
mebibyte: the first file has its header read outside it, the second its segment written
below the pages. -/
theorem boot_load_leaves_bounds :
    (∃ info, parseElf64 (sampleElf 0xFFFFFFFFFFFFFFC8 0x200000 8) = .ok info ∧
      info.headers = [0xFFFFFFFFFFFFFFC8] ∧
      ¬ InBounds (sampleElf 0xFFFFFFFFFFFFFFC8 0x200000 8) info (loadElfSegments sampleFirmware
        (sampleElf 0xFFFFFFFFFFFFFFC8 0x200000 8) info fun _ => 0)) ∧
    ∃ info, parseElf64 (sampleElf 64 0x100000 8) = .ok info ∧
      (loadElfSegments sampleFirmware (sampleElf 64 0x100000 8) info fun _ => 0).writes =
        [(0x200000, 4096), (0x100000, 4)] ∧
      ¬ InBounds (sampleElf 64 0x100000 8) info
        (loadElfSegments sampleFirmware (sampleElf 64 0x100000 8) info fun _ => 0) := by
  constructor
  · obtain ⟨info, hparse⟩ := parse_of_toBool (d := sampleElf 0xFFFFFFFFFFFFFFC8 0x200000 8)
      (by decide +kernel)
    have hheaders : info.headers = [0xFFFFFFFFFFFFFFC8] := by
      rw [(parseElf64_eq_ok hparse).2.1]
      decide +kernel
    refine ⟨info, hparse, hheaders, fun hin => ?_⟩
    have hmem : 0xFFFFFFFFFFFFFFC8 ∈ info.headers := by
      rw [hheaders]
      exact List.mem_singleton_self _
    have hinside := hin.headers _ hmem
    simp only [phdrSize, sampleElf] at hinside
    omega
  · obtain ⟨info, hparse⟩ := parse_of_toBool (d := sampleElf 64 0x100000 8) (by decide +kernel)
    have hwrites : (loadElfSegments sampleFirmware (sampleElf 64 0x100000 8) info
        fun _ => 0).writes = [(0x200000, 4096), (0x100000, 4)] := by
      rw [loadElfSegments, (parseElf64_eq_ok hparse).2.2]
      decide +kernel
    refine ⟨info, hparse, hwrites, fun hin => ?_⟩
    have hmem : (0x100000, 4) ∈ (loadElfSegments sampleFirmware (sampleElf 64 0x100000 8) info
        fun _ => 0).writes := by
      rw [hwrites]
      decide
    have hlow := (hin.writes (0x100000, 4) hmem 0 (by decide)).1
    simp only [supervisorLoadAddr] at hlow
    omega

end Coconut.BootLoader
