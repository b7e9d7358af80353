import Coconut.ByteMemory
import Coconut.Shared

/-!
# ACPI table discovery

`acpi::init` finds the root table through the RSDP and caches the tables it points to.
The XSDT has 8-byte pointers, the RSDT 4-byte ones; both stand behind a 36-byte header
that declares the length of the table and gives it a checksum.  A walk records the
offsets at which it reads pointers, beside the tables it caches.

The number of pointers is `(length - 36) / width` on `usize`.  The checksum says nothing
about the length, and a table shorter than its header makes the difference wrap.
-/
namespace Coconut.Acpi

@[simp] def maxTables : Nat := 32

/-- `a - b` in a release build. -/
def wrappingSub (a b : Nat) : Nat := (a + 0x10000000000000000 - b) % 0x10000000000000000

/-- The assertions of `acpi.rs`. -/
inductive AcpiPanic where
  | rsdpSignature
  | rsdpChecksum
  | rsdpExtendedChecksum
  | xsdtChecksum
  | rsdtChecksum
  deriving DecidableEq, Repr

def AcpiPanic.message : AcpiPanic → String
  | .rsdpSignature => "ACPI: invalid RSDP signature"
  | .rsdpChecksum => "ACPI: RSDP checksum failed"
  | .rsdpExtendedChecksum => "ACPI: RSDP extended checksum failed"
  | .xsdtChecksum => "ACPI: XSDT checksum failed"
  | .rsdtChecksum => "ACPI: RSDT checksum failed"

/-- Cached ACPI table location. -/
structure TableEntry where
  signature : List UInt8
  physAddr : Nat
  length : Nat
  deriving DecidableEq, Repr

/-- The cached tables, and the offsets in the root table at which pointers were read. -/
structure Walk where
  tables : List TableEntry
  reads : List Nat

/-- Checksum the first `len` bytes at `virt`. Valid if sum wraps to 0. -/
def checksumValid (m : Memory) (virt len : Nat) : Bool :=
  (List.range len).foldl (fun sum i => sum + m (virt + i)) (0 : UInt8) == 0

/-- What the header of the table at `phys` says. -/
def sdtHeader (m : Memory) (phys : Nat) : TableEntry where
  signature := m.readBytes phys 4
  physAddr := phys
  length := m.readLE (phys + 4) 4

/-- Read a table's SDT header and cache its signature, address, and length. -/
def cacheTable (m : Memory) (phys : Nat) (tables : List TableEntry) : List TableEntry :=
  if maxTables ≤ tables.length then tables else tables ++ [sdtHeader m phys]

/-- The two root tables. -/
inductive RootTable where
  | xsdt
  | rsdt
  deriving DecidableEq, Repr

namespace RootTable

/-- The size of an entry. -/
@[simp] def width : RootTable → Nat
  | xsdt => 8
  | rsdt => 4

def badChecksum : RootTable → AcpiPanic
  | xsdt => .xsdtChecksum
  | rsdt => .rsdtChecksum

end RootTable

/-- Where entry `i` is read. -/
def entryOffset (width i : Nat) : Nat := wrappingAdd 36 (i * width)

/-- The loop over the entries, from entry `i` on. -/
def parseEntries (m : Memory) (table width : Nat) : Nat → Nat → Walk → Walk
  | 0, _, w => w
  | n + 1, i, w =>
    let tablePhys := m.readLE (table + entryOffset width i) width
    parseEntries m table width n (i + 1)
      ⟨cacheTable m tablePhys w.tables, w.reads ++ [entryOffset width i]⟩

/-- `parse_xsdt` and `parse_rsdt`. -/
def parseRoot (kind : RootTable) (m : Memory) (table : Nat) (tables : List TableEntry) :
    Except AcpiPanic Walk :=
  let length := m.readLE (table + 4) 4
  if checksumValid m table length then
    let entryCount := wrappingSub length 36 / kind.width
    .ok (parseEntries m table kind.width entryCount 0 ⟨tables, []⟩)
  else .error kind.badChecksum

/-- Parse XSDT (64-bit table pointers). -/
def parseXsdt : Memory → Nat → List TableEntry → Except AcpiPanic Walk := parseRoot .xsdt

/-- Parse RSDT (32-bit table pointers). -/
def parseRsdt : Memory → Nat → List TableEntry → Except AcpiPanic Walk := parseRoot .rsdt

/-- Initialize ACPI table cache from the RSDP physical address. -/
def init (m : Memory) (rsdpPhys : Nat) (tables : List TableEntry) : Except AcpiPanic Walk :=
  if rsdpPhys = 0 then .ok ⟨tables, []⟩
  -- "RSD PTR "
  else if m.readBytes rsdpPhys 8 ≠ [0x52, 0x53, 0x44, 0x20, 0x50, 0x54, 0x52, 0x20] then
    .error .rsdpSignature
  else if !checksumValid m rsdpPhys 20 then .error .rsdpChecksum
  else if 2 ≤ m.readLE (rsdpPhys + 15) 1 then
    if !checksumValid m rsdpPhys 36 then .error .rsdpExtendedChecksum
    else parseXsdt m (m.readLE (rsdpPhys + 24) 8) tables
  else parseRsdt m (m.readLE (rsdpPhys + 16) 4) tables

/-- Find a cached ACPI table by its 4-byte signature. -/
def findTable (tables : List TableEntry) (signature : List UInt8) : Option (Nat × Nat) :=
  (tables.find? fun e => e.signature == signature).map fun e => (e.physAddr, e.length)

/-! ## The loop -/

variable {m : Memory} {table width : Nat}

theorem parseEntries_reads : ∀ (n i : Nat) (w : Walk), (parseEntries m table width n i w).reads =
    w.reads ++ (List.range' i n).map (entryOffset width)
  | 0, _, w => (List.append_nil _).symm
  | n + 1, i, w => by
    rw [parseEntries, parseEntries_reads n (i + 1), List.range'_succ, List.map_cons, List.append_assoc,
      List.singleton_append]

/-- The tables behind the pointers are cached while there is room. -/
theorem parseEntries_tables : ∀ (n i : Nat) (w : Walk), w.tables.length ≤ maxTables →
    (parseEntries m table width n i w).tables = w.tables ++
      ((List.range' i (min (maxTables - w.tables.length) n)).map fun j =>
        sdtHeader m (m.readLE (table + entryOffset width j) width))
  | 0, _, w, _ => by
    rw [Nat.min_zero]
    exact (List.append_nil _).symm
  | n + 1, i, w, hw => by
    rw [parseEntries]
    simp only [cacheTable]
    by_cases hfull : maxTables ≤ w.tables.length
    · have hnone : maxTables - w.tables.length = 0 := by omega
      rw [if_pos hfull, parseEntries_tables n (i + 1) ⟨w.tables, w.reads ++ [entryOffset width i]⟩ hw,
        hnone, Nat.zero_min, Nat.zero_min]
      rfl
    · have hlen : (w.tables ++ [sdtHeader m (m.readLE (table + entryOffset width i) width)]).length =
          w.tables.length + 1 := by
        rw [List.length_append, List.length_singleton]
      have hmin : min (maxTables - w.tables.length) (n + 1) =
          min (maxTables - (w.tables.length + 1)) n + 1 := by omega
      rw [if_neg hfull, parseEntries_tables n (i + 1)
        ⟨_, w.reads ++ [entryOffset width i]⟩ (by rw [hlen]; omega), hlen, hmin,
        List.range'_succ, List.map_cons, List.append_assoc, List.singleton_append]

/-! ## The walk stays inside the table -/

/-- The number of whole entries in a table of this length. -/
def wholeEntries (kind : RootTable) (length : Nat) : Nat := (length - 36) / kind.width

/-- The pointers are read inside the table and behind its header, the tables of the first 32
of them are cached in order, and a search returns the first of these with the signature. -/
structure WalkExact (kind : RootTable) (m : Memory) (table : Nat) (w : Walk) : Prop where
  inside : ∀ off ∈ w.reads, 36 ≤ off ∧ off + kind.width ≤ m.readLE (table + 4) 4
  cached : w.tables = (List.range (min maxTables (wholeEntries kind (m.readLE (table + 4) 4)))).map
    fun i => sdtHeader m (m.readLE (table + (36 + i * kind.width)) kind.width)
  found : ∀ signature phys length, findTable w.tables signature = some (phys, length) ↔
    ∃ before e after, w.tables = before ++ e :: after ∧ e.signature = signature ∧
      e.physAddr = phys ∧ e.length = length ∧ ∀ e' ∈ before, e'.signature ≠ signature

theorem findTable_eq_some {tables : List TableEntry} {signature : List UInt8} {phys length : Nat} :
    findTable tables signature = some (phys, length) ↔
      ∃ before e after, tables = before ++ e :: after ∧ e.signature = signature ∧
        e.physAddr = phys ∧ e.length = length ∧ ∀ e' ∈ before, e'.signature ≠ signature := by
  rw [findTable, Option.map_eq_some_iff]
  constructor
  · rintro ⟨e, he, hpair⟩
    obtain ⟨hsig, before, after, htables, hbefore⟩ := List.find?_eq_some_iff_append.mp he
    obtain ⟨hphys, hlength⟩ := Prod.mk.inj hpair
    exact ⟨before, e, after, htables, by simpa using hsig, hphys, hlength,
      fun e' he' => by simpa using hbefore e' he'⟩
  · rintro ⟨before, e, after, htables, hsig, rfl, rfl, hbefore⟩
    exact ⟨e, List.find?_eq_some_iff_append.mpr ⟨by simpa using hsig, before, after, htables,
      fun e' he' => by simpa using hbefore e' he'⟩, rfl⟩

theorem RootTable.width_pos (kind : RootTable) : 0 < kind.width := by cases kind <;> decide

theorem length_lt (m : Memory) (table : Nat) : m.readLE (table + 4) 4 < 2 ^ 32 :=
  Memory.readLE_lt _ _ 4

/-- No entry of a table with a header lies outside it, and no offset wraps. -/
theorem entryOffset_eq {kind : RootTable} {length i : Nat} (hlength : length < 2 ^ 32)
    (hi : i < wholeEntries kind length) :
    entryOffset kind.width i = 36 + i * kind.width ∧ 36 + i * kind.width + kind.width ≤ length := by
  have hpos := kind.width_pos
  have hwhole : (i + 1) * kind.width ≤ length - 36 :=
    Nat.le_trans (Nat.mul_le_mul_right _ hi) (Nat.div_mul_le_self _ _)
  rw [Nat.succ_mul] at hwhole
  have hfits : 36 + i * kind.width + kind.width ≤ length := by omega
  exact ⟨wrappingAdd_eq (by omega), hfits⟩

theorem wrappingSub_of_le {length : Nat} (hlength : length < 2 ^ 32) (hle : 36 ≤ length) :
    wrappingSub length 36 = length - 36 := by
  unfold wrappingSub
  omega

/-- A length below that of the header leaves room for an entry all the same. -/
theorem entryCount_of_lt (kind : RootTable) {length : Nat} (hlt : length < 36) :
    0 < wrappingSub length 36 / kind.width := by
  have hwrap : 8 ≤ wrappingSub length 36 := by
    unfold wrappingSub
    omega
  apply Nat.div_pos _ kind.width_pos
  cases kind with
  | xsdt => exact hwrap
  | rsdt => exact Nat.le_trans (by decide) hwrap

theorem parseRoot_eq (kind : RootTable) {m : Memory} {table : Nat}
    (h : checksumValid m table (m.readLE (table + 4) 4) = true) : parseRoot kind m table [] =
      .ok (parseEntries m table kind.width (wrappingSub (m.readLE (table + 4) 4) 36 / kind.width) 0
        ⟨[], []⟩) := if_pos h

/-- The walk of a table shorter than its header reads a pointer all the same. -/
theorem short_reads (kind : RootTable) {m : Memory} {table : Nat}
    (hlt : m.readLE (table + 4) 4 < 36) : 36 ∈ (parseEntries m table kind.width
      (wrappingSub (m.readLE (table + 4) 4) 36 / kind.width) 0 ⟨[], []⟩).reads := by
  have hcount := entryCount_of_lt kind hlt
  rw [parseEntries_reads, List.nil_append]
  refine List.mem_map.mpr ⟨0, List.mem_range'_1.mpr ⟨Nat.le_refl _, by omega⟩, ?_⟩
  rw [entryOffset, Nat.zero_mul]
  rfl

/-- The walk of a root table whose checksum is right is exact just when the table is at
least as long as its header. -/
theorem root_walk_exact_iff (kind : RootTable) (m : Memory) (table : Nat)
    (h : checksumValid m table (m.readLE (table + 4) 4) = true) :
    ∃ w, parseRoot kind m table [] = .ok w ∧
      (WalkExact kind m table w ↔ 36 ≤ m.readLE (table + 4) 4) := by
  have hlength := length_lt m table
  refine ⟨_, parseRoot_eq kind h, ?_, ?_⟩
  · intro hexact
    apply Nat.le_of_not_lt
    intro hlt
    have hinside := (hexact.inside 36 (short_reads kind hlt)).2
    omega
  · intro hge
    rw [wrappingSub_of_le hlength hge]
    refine ⟨?_, ?_, fun signature phys length => findTable_eq_some⟩
    · intro off hoff
      rw [parseEntries_reads, List.nil_append] at hoff
      obtain ⟨i, hi, rfl⟩ := List.mem_map.mp hoff
      have hlt := (List.mem_range'_1.mp hi).2
      rw [Nat.zero_add] at hlt
      obtain ⟨hoffset, hfits⟩ := entryOffset_eq hlength hlt
      rw [hoffset]
      exact ⟨Nat.le_add_right _ _, hfits⟩
    · rw [parseEntries_tables _ _ _ (Nat.zero_le _), List.nil_append, List.range_eq_range']
      apply List.map_congr_left
      intro i hi
      have hlt := (List.mem_range'_1.mp hi).2
      rw [Nat.zero_add, List.length_nil, Nat.sub_zero] at hlt
      rw [(entryOffset_eq hlength (Nat.lt_of_lt_of_le hlt (Nat.min_le_right _ _))).1]

/-- An XSDT of one entry, which points to a table at `0x2000`. -/
def oneEntry : Memory := fun a =>
  if a = 0x1004 then 44 else if a = 0x1009 then 180 else if a = 0x1025 then 0x20 else 0

theorem root_walk_exact_iff_one :
    checksumValid oneEntry 0x1000 (oneEntry.readLE (0x1000 + 4) 4) = true ∧
    ∃ w, parseRoot .xsdt oneEntry 0x1000 [] = .ok w ∧
      (WalkExact .xsdt oneEntry 0x1000 w ↔ 36 ≤ oneEntry.readLE (0x1000 + 4) 4) :=
  ⟨by decide +kernel, root_walk_exact_iff .xsdt oneEntry 0x1000 (by decide +kernel)⟩

/-- A table that declares the length 0. -/
def blank : Memory := fun _ => 0

/-- The checksum of a table of length 0 is right, and the walk of an XSDT of that length
reads a pointer behind its end. -/
theorem short_table_read_outside :
    checksumValid blank 0x1000 (blank.readLE (0x1000 + 4) 4) = true ∧
    ∃ w, parseXsdt blank 0x1000 [] = .ok w ∧ 36 ∈ w.reads ∧ blank.readLE (0x1000 + 4) 4 < 36 ∧
      ¬ WalkExact .xsdt blank 0x1000 w := by
  have hsum : checksumValid blank 0x1000 (blank.readLE (0x1000 + 4) 4) = true := by decide
  have hlt : blank.readLE (0x1000 + 4) 4 < 36 := by decide
  refine ⟨hsum, _, parseRoot_eq .xsdt hsum, short_reads .xsdt hlt, hlt, ?_⟩
  intro hexact
  have hinside := (hexact.inside 36 (short_reads .xsdt hlt)).2
  omega

end Coconut.Acpi
