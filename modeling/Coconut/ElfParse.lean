import Coconut.ImageLoad

/-!
# The ELF parser never leaves its image

`parse` computes with numbers that have no end and reads through `Slice.readLE`.  Here
is the same parser as the processor runs it: every index and every slice bound is
checked by itself, and a sum or product that does not fit in a `usize` is a trap of its
own.  One check, that the program headers end inside the image, covers every field of
every header; so the traps are out of reach, and the parser returns, or stops at one of
its assertions, just as `parse` does.
-/
namespace Coconut.ElfParse

/-- The ways a run of the parser can end early: at an assertion, at an index out of
range, or at a sum that wraps. -/
inductive Trap where
  | assertion (p : Panic)
  | index
  | overflow
  deriving DecidableEq, Repr

abbrev Watched (α : Type) := Except Trap α

/-! ## Machine operations -/

/-- `a + b` on `usize`. -/
def add (a b : Nat) : Watched Nat := if a + b < 2 ^ 64 then .ok (a + b) else .error .overflow

/-- `a * b` on `usize`. -/
def mul (a b : Nat) : Watched Nat := if a * b < 2 ^ 64 then .ok (a * b) else .error .overflow

/-- `data[i]`. -/
def byteAt (data : Slice) (i : Nat) : Watched UInt8 :=
  if i < data.len then .ok (data.bytes i) else .error .index

/-- `&data[start..stop]`. -/
def slice (data : Slice) (start stop : Nat) : Watched (List UInt8) :=
  if start ≤ stop ∧ stop ≤ data.len then .ok (data.bytes.readBytes start (stop - start))
  else .error .index

/-- `assert!(cond, …)`. -/
def check (cond : Bool) (p : Panic) : Watched Unit :=
  if cond then .ok () else .error (.assertion p)

/-- `from_le_bytes`. -/
def fromLeBytes : List UInt8 → Nat
  | [] => 0
  | b :: bs => b.toNat + 256 * fromLeBytes bs

/-! ## The parser -/

def readU16 (data : Slice) (off : Nat) : Watched Nat := do
  let low ← byteAt data off
  let high ← byteAt data (← add off 1)
  return fromLeBytes [low, high]

/-- `read_u32` and `read_u64`: the `k` bytes at `off`. -/
def readWord (data : Slice) (off k : Nat) : Watched Nat := do
  let bytes ← slice data off (← add off k)
  return fromLeBytes bytes

def readU32 (data : Slice) (off : Nat) : Watched Nat := readWord data off 4

def readU64 (data : Slice) (off : Nat) : Watched Nat := readWord data off 8

/-- The body of the loop over the program headers. -/
def parseHeader (data : Slice) (phOffset i : Nat) (segments : List Segment) :
    Watched (List Segment) := do
  let ph ← add phOffset (← mul i phdrSize)
  let memSize ← readU64 data (← add ph 40)
  let pType ← readU32 data ph
  if pType != 1 || memSize == 0 then return segments
  let flags ← readU32 data (← add ph 4)
  let fileOffset ← readU64 data (← add ph 8)
  let fileSize ← readU64 data (← add ph 32)
  check (fileSize ≤ memSize) .elfFileszExceedsMemsz
  check ((checkedAdd fileOffset fileSize).any (· ≤ data.len)) .elfSegmentOutOfBounds
  check (segments.length < maxSegments) .elfTooManySegments
  let vaddr ← readU64 data (← add ph 16)
  -- `image.segments[image.segment_count] = …`
  if maxSegments ≤ segments.length then throw .index
  return segments ++ [{
    vaddr, memSize, fileOffset, fileSize,
    writable := flags &&& 2 != 0,
    executable := flags &&& 1 != 0 }]

/-- `for i in 0..ph_count`, from `i` on. -/
def parseHeaders (data : Slice) (phOffset : Nat) : Nat → Nat → List Segment → Watched (List Segment)
  | 0, _, segments => .ok segments
  | n + 1, i, segments => do
    let segments ← parseHeader data phOffset i segments
    parseHeaders data phOffset n (i + 1) segments

/-- `elf::parse`. -/
def parseWatched (data : Slice) : Watched Image := do
  check (ehdrSize ≤ data.len) .elfSmallerThanHeader
  check ((← slice data 0 4) == [0x7F, 0x45, 0x4C, 0x46]) .elfBadMagic
  check ((← byteAt data 4) == 2) .elfNotElf64
  check ((← byteAt data 5) == 1) .elfNotLittleEndian
  check ((← readU16 data 16) == 2) .elfNotExecutable
  check ((← readU16 data 18) == 0x3E) .elfNotX8664
  check ((← readU16 data 54) == phdrSize) .elfBadPhdrSize
  let entry ← readU64 data 24
  let phOffset ← readU64 data 32
  let phCount ← readU16 data 56
  let phdrs ← mul phCount phdrSize
  check ((checkedAdd phOffset phdrs).any (· ≤ data.len)) .elfPhdrsOutOfBounds
  let segments ← parseHeaders data phOffset phCount 0 []
  return { entry, segments }

/-! ## Operations in range -/

theorem add_eq {a b : Nat} (h : a + b < 2 ^ 64) : add a b = .ok (a + b) := if_pos h

theorem mul_eq {a b : Nat} (h : a * b < 2 ^ 64) : mul a b = .ok (a * b) := if_pos h

theorem byteAt_eq {data : Slice} {i : Nat} (h : i < data.len) : byteAt data i = .ok (data.bytes i) :=
  if_pos h

theorem fromLeBytes_readBytes (m : Memory) (a n : Nat) :
    fromLeBytes (m.readBytes a n) = m.readLE a n := by
  induction n generalizing a with
  | zero => rfl
  | succ n ih => rw [Memory.readBytes, fromLeBytes, ih, Memory.readLE]

variable {data : Slice}

theorem readU16_eq (hlen : data.len < 2 ^ 64) {off : Nat} (h : off + 2 ≤ data.len) :
    readU16 data off = .ok (data.bytes.readLE off 2) := by
  rw [readU16, byteAt_eq (by omega), add_eq (by omega), ← fromLeBytes_readBytes]
  show (byteAt data (off + 1) >>= fun high => _) = _
  rw [byteAt_eq (by omega)]
  rfl

theorem readWord_eq (hlen : data.len < 2 ^ 64) {off k : Nat} (h : off + k ≤ data.len) :
    readWord data off k = .ok (data.bytes.readLE off k) := by
  have hslice : slice data off (off + k) = .ok (data.bytes.readBytes off k) := by
    rw [slice, if_pos (by omega), Nat.add_sub_cancel_left]
  rw [readWord, add_eq (by omega)]
  show (slice data off (off + k) >>= fun bytes => _) = _
  rw [hslice, ← fromLeBytes_readBytes]
  rfl

/-! ## The parser with every trap out of reach -/

/-- A computation that can only stop at an assertion. -/
def trapped {α : Type} (x : Kernel α) : Watched α := x.mapError .assertion

theorem ok_bind {α β : Type} (a : α) (f : α → Watched β) :
    ((Except.ok a : Watched α) >>= f) = f a := rfl

theorem trapped_bind {α β : Type} (x : Kernel α) (f : α → Kernel β) :
    trapped (x >>= f) = trapped x >>= fun a => trapped (f a) := by
  cases x <;> rfl

theorem map_bind {α β γ : Type} (f : β → γ) (x : Watched α) (g : α → Watched β) :
    (x >>= g).map f = x >>= fun a => (g a).map f := by
  cases x <;> rfl

theorem trapped_assertThat (cond : Bool) (p : Panic) : trapped (assertThat cond p) = check cond p := by
  cases cond <;> rfl

theorem trapped_readLE {off k : Nat} (h : off + k ≤ data.len) :
    trapped (data.readLE off k) = .ok (data.bytes.readLE off k) := by
  rw [Slice.readLE, if_pos h]
  rfl

/-- A header that lies in the image is read as `parseSegment` reads it. -/
theorem parseHeader_eq (hlen : data.len < 2 ^ 64) {phOffset i : Nat} (segments : List Segment)
    (h : phOffset + i * phdrSize + phdrSize ≤ data.len) :
    parseHeader data phOffset i segments =
      (trapped (parseSegment data (phOffset + i * phdrSize) segments.length)).map
        fun seg => segments ++ seg.toList := by
  simp only [phdrSize] at h
  unfold parseHeader parseSegment
  simp (disch := omega) only [phdrSize, mul_eq, add_eq, ok_bind, readU64, readU32, readWord_eq hlen,
    trapped_bind, trapped_readLE]
  by_cases hskip : (data.bytes.readLE (phOffset + i * 56) 4 != 1 ||
      data.bytes.readLE (phOffset + i * 56 + 40) 8 == 0) = true
  · rw [if_pos hskip, if_pos hskip]
    exact congrArg Except.ok (List.append_nil _).symm
  · rw [if_neg hskip, if_neg hskip]
    simp (disch := omega) only [trapped_bind, trapped_readLE, trapped_assertThat, ok_bind, map_bind]
    refine bind_congr fun _ => bind_congr fun _ => ?_
    by_cases hcount : segments.length < maxSegments
    · rw [check, if_pos (decide_eq_true hcount), ok_bind, if_neg (Nat.not_le.mpr hcount)]
      rfl
    · rw [check, if_neg (by rwa [decide_eq_true_eq])]
      rfl

/-- The loop over headers that end inside the image. -/
theorem parseHeaders_eq (hlen : data.len < 2 ^ 64) {phOffset : Nat} : ∀ {n i : Nat}
    {segments : List Segment}, phOffset + (i + n) * phdrSize ≤ data.len →
    parseHeaders data phOffset n i segments =
      trapped (parseSegments data n (phOffset + i * phdrSize) segments) := by
  intro n
  induction n with
  | zero => intro i segments _; rfl
  | succ n ih =>
    intro i segments h
    have hnext : phOffset + i * phdrSize + phdrSize = phOffset + (i + 1) * phdrSize := by
      rw [Nat.succ_mul, Nat.add_assoc]
    have hrest : phOffset + (i + 1 + n) * phdrSize ≤ data.len := by
      rwa [Nat.add_right_comm, Nat.add_assoc]
    have hheader : phOffset + i * phdrSize + phdrSize ≤ data.len := by
      simp only [phdrSize] at h ⊢
      omega
    rw [parseHeaders, parseHeader_eq hlen segments hheader, parseSegments, trapped_bind, hnext]
    cases parseSegment data (phOffset + i * phdrSize) segments.length with
    | error p => rfl
    | ok seg => exact ih hrest

/-- The parser does what `parse` does, and takes none of the other traps. -/
theorem parseWatched_eq (hlen : data.len < 2 ^ 64) : parseWatched data = trapped (parse data) := by
  unfold parseWatched parse
  simp only [trapped_bind, trapped_assertThat]
  by_cases hsize : ehdrSize ≤ data.len
  · simp only [ehdrSize] at hsize
    have hmagic : slice data 0 4 = .ok (data.bytes.readBytes 0 4) := if_pos (by omega)
    have hcount := Memory.readLE_lt data.bytes 56 2
    simp (disch := omega) only [hmagic, byteAt_eq, readU16_eq hlen, readU64, readWord_eq hlen,
      trapped_readLE, ok_bind, mul_eq, phdrSize]
    iterate 7 refine bind_congr fun _ => ?_
    -- what the last assertion has established covers all headers
    cases hphdrs : (checkedAdd (data.bytes.readLE 32 8) (data.bytes.readLE 56 2 * 56)).any
        fun end_ => decide (end_ ≤ data.len) with
    | false => rfl
    | true =>
      have hend := checkedAdd_any hphdrs
      rw [parseHeaders_eq hlen (by rw [Nat.zero_add]; exact hend), Nat.zero_mul, Nat.add_zero]
      rfl
  · rw [check, if_neg (by rwa [decide_eq_true_eq])]
    rfl

/-! ## The assertions -/

/-- The assertions of `elf.rs`. -/
def elfAssertions : List Panic :=
  [.elfSmallerThanHeader, .elfBadMagic, .elfNotElf64, .elfNotLittleEndian, .elfNotExecutable,
    .elfNotX8664, .elfBadPhdrSize, .elfPhdrsOutOfBounds, .elfFileszExceedsMemsz,
    .elfSegmentOutOfBounds, .elfTooManySegments]

/-- Every assertion the computation can fail is one of the parser's own. -/
def Asserts {α : Type} (x : Watched α) : Prop := ∀ p, x = .error (.assertion p) → p ∈ elfAssertions

namespace Asserts
variable {α β : Type}

theorem ok (a : α) : Asserts (.ok a : Watched α) := nofun

theorem index : Asserts (.error .index : Watched α) := nofun

theorem overflow : Asserts (.error .overflow : Watched α) := nofun

theorem bind {x : Watched α} {f : α → Watched β} (hx : Asserts x) (hf : ∀ a, Asserts (f a)) :
    Asserts (x >>= f) := by
  cases x with
  | error t =>
    intro p hp
    obtain rfl : t = .assertion p := Except.error.inj hp
    exact hx p rfl
  | ok a => exact hf a

theorem check {cond : Bool} {p : Panic} (h : p ∈ elfAssertions) : Asserts (check cond p) := by
  cases cond with
  | true => exact ok ()
  | false =>
    intro q hq
    obtain rfl : p = q := Trap.assertion.inj (Except.error.inj hq)
    exact h

theorem ite {c : Prop} [Decidable c] {x y : Watched α} (hx : Asserts x) (hy : Asserts y) :
    Asserts (if c then x else y) := by
  split
  · exact hx
  · exact hy

theorem add (a b : Nat) : Asserts (add a b) := ite (ok _) overflow

theorem mul (a b : Nat) : Asserts (mul a b) := ite (ok _) overflow

theorem byteAt (data : Slice) (i : Nat) : Asserts (byteAt data i) := ite (ok _) index

theorem slice (data : Slice) (start stop : Nat) : Asserts (slice data start stop) := ite (ok _) index

theorem readU16 (data : Slice) (off : Nat) : Asserts (readU16 data off) :=
  bind (byteAt data off) fun _ => bind (add off 1) fun _ => bind (byteAt data _) fun _ => ok _

theorem readWord (data : Slice) (off k : Nat) : Asserts (readWord data off k) :=
  bind (add off k) fun _ => bind (slice data off _) fun _ => ok _

theorem parseHeader (data : Slice) (phOffset i : Nat) (segments : List Segment) :
    Asserts (parseHeader data phOffset i segments) := by
  refine bind (mul _ _) fun _ => bind (add _ _) fun ph => ?_
  refine bind (add _ _) fun _ => bind (readWord _ _ _) fun memSize => ?_
  refine bind (readWord _ _ _) fun pType => ite (ok _) ?_
  refine bind (add _ _) fun _ => bind (readWord _ _ _) fun flags => ?_
  refine bind (add _ _) fun _ => bind (readWord _ _ _) fun fileOffset => ?_
  refine bind (add _ _) fun _ => bind (readWord _ _ _) fun fileSize => ?_
  refine bind (check (by decide)) fun _ => bind (check (by decide)) fun _ => ?_
  refine bind (check (by decide)) fun _ => ?_
  exact bind (add _ _) fun _ => bind (readWord _ _ _) fun vaddr => ite index (ok _)

theorem parseHeaders (data : Slice) (phOffset : Nat) : ∀ (n i : Nat) (segments : List Segment),
    Asserts (parseHeaders data phOffset n i segments)
  | 0, _, _ => ok _
  | n + 1, i, segments =>
    bind (parseHeader data phOffset i segments) fun _ => parseHeaders data phOffset n (i + 1) _

theorem parseWatched (data : Slice) : Asserts (parseWatched data) := by
  refine bind (check (by decide)) fun _ => ?_
  refine bind (slice _ _ _) fun _ => bind (check (by decide)) fun _ => ?_
  refine bind (byteAt _ _) fun _ => bind (check (by decide)) fun _ => ?_
  refine bind (byteAt _ _) fun _ => bind (check (by decide)) fun _ => ?_
  iterate 3 refine bind (readU16 _ _) fun _ => bind (check (by decide)) fun _ => ?_
  refine bind (readWord _ _ _) fun entry => bind (readWord _ _ _) fun phOffset => ?_
  refine bind (readU16 _ _) fun phCount => bind (mul _ _) fun _ => ?_
  exact bind (check (by decide)) fun _ => bind (parseHeaders _ _ _ _ _) fun _ => ok _

end Asserts

/-! ## What is returned -/

theorem parseSegment_count {ph count : Nat} {seg : Segment}
    (h : parseSegment data ph count = .ok (some seg)) : count < maxSegments := by
  unfold parseSegment at h
  iterate 2 obtain ⟨_, -, h⟩ := Kernel.bind_eq_ok h
  split at h
  · cases Except.ok.inj h
  · iterate 5 obtain ⟨_, -, h⟩ := Kernel.bind_eq_ok h
    obtain ⟨_, hcount, -⟩ := Kernel.bind_eq_ok h
    exact of_decide_eq_true (Kernel.assert_eq_ok hcount)

theorem parseSegments_length {n : Nat} : ∀ {ph : Nat} {segs segs' : List Segment},
    parseSegments data n ph segs = .ok segs' → segs.length ≤ maxSegments →
    segs'.length ≤ maxSegments := by
  induction n with
  | zero =>
    intro ph segs segs' h hsegs
    obtain rfl := Except.ok.inj h
    exact hsegs
  | succ n ih =>
    intro ph segs segs' h hsegs
    obtain ⟨seg, hseg, h⟩ := Kernel.bind_eq_ok h
    apply ih h
    cases seg with
    | none => rwa [Option.toList_none, List.append_nil]
    | some x =>
      have hcount := parseSegment_count hseg
      rw [Option.toList_some, List.length_append]
      exact hcount

theorem parse_image {elf : Image} (h : parse data = .ok elf) :
    elf.entry = data.bytes.readLE 24 8 ∧ elf.segments.length ≤ maxSegments := by
  unfold parse at h
  iterate 10 obtain ⟨_, -, h⟩ := Kernel.bind_eq_ok h
  obtain ⟨entry, hentry, h⟩ := Kernel.bind_eq_ok h
  iterate 3 obtain ⟨_, -, h⟩ := Kernel.bind_eq_ok h
  obtain ⟨segs, hsegs, h⟩ := Kernel.bind_eq_ok h
  obtain rfl := Except.ok.inj h
  exact ⟨(Slice.readLE_eq_ok hentry).symm, parseSegments_length hsegs (Nat.zero_le _)⟩

/-- On every byte string the parser stops at an assertion of its own or returns the
segments of the file; it takes no index out of range and computes no sum that wraps. -/
theorem elf_parse_exact (data : Slice) (hlen : data.len < 2 ^ 64) :
    (∃ p ∈ elfAssertions, parseWatched data = .error (.assertion p)) ∨
    ∃ image, parseWatched data = .ok image ∧ image.entry = data.bytes.readLE 24 8 ∧
      image.segments = fileSegments data ∧ image.segments.length ≤ maxSegments ∧
      ∀ seg ∈ image.segments, seg.fileSize ≤ seg.memSize ∧ seg.fileOffset + seg.fileSize ≤ data.len := by
  have hwatched := parseWatched_eq hlen
  cases hparse : parse data with
  | error p =>
    rw [hparse] at hwatched
    exact .inl ⟨p, Asserts.parseWatched data p hwatched, hwatched⟩
  | ok image =>
    rw [hparse] at hwatched
    obtain ⟨hentry, hcount⟩ := parse_image hparse
    obtain ⟨hsegs, hfile⟩ := parse_eq_ok hparse
    exact .inr ⟨image, hwatched, hentry, hsegs, hcount, hfile⟩

/-- An image of two segments is parsed. -/
theorem elf_parse_exact_small : smallImage.len < 2 ^ 64 ∧
    ((∃ p ∈ elfAssertions, parseWatched smallImage = .error (.assertion p)) ∨
    ∃ image, parseWatched smallImage = .ok image ∧
      image.entry = smallImage.bytes.readLE 24 8 ∧
      image.segments = fileSegments smallImage ∧ image.segments.length ≤ maxSegments ∧
      ∀ seg ∈ image.segments, seg.fileSize ≤ seg.memSize ∧
        seg.fileOffset + seg.fileSize ≤ smallImage.len) ∧
    (parseWatched smallImage).toOption.isSome = true :=
  ⟨by decide, elf_parse_exact smallImage (by decide), by decide +kernel⟩

end Coconut.ElfParse
