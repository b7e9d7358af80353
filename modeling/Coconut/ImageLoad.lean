import Coconut.Permissions
import Coconut.Replay

/-!
# The image in memory

What a shard finds in its address space is what its ELF file says.  `headerSegment`
reads one program header as the format defines it, `parse` returns the headers that
describe a non-empty segment in the order of the file, and `create` lays them out from
`0x1000` on without a gap, byte by byte and with the permissions of the header.
-/
namespace Coconut
open Paging

/-! ## Program headers -/

theorem Slice.readLE_eq_ok {d : Slice} {off k v : Nat} (h : d.readLE off k = .ok v) :
    d.bytes.readLE off k = v := by
  unfold Slice.readLE at h
  split at h
  · exact Except.ok.inj h
  · cases h

/-- The segment the program header at `ph` describes, if it is a `PT_LOAD` that takes
memory. -/
def headerSegment (data : Slice) (ph : Nat) : Option Segment :=
  let word off k := data.bytes.readLE (ph + off) k
  if word 0 4 = 1 ∧ word 40 8 ≠ 0 then
    some {
      vaddr := word 16 8
      memSize := word 40 8
      fileOffset := word 8 8
      fileSize := word 32 8
      writable := word 4 4 &&& 2 != 0
      executable := word 4 4 &&& 1 != 0 }
  else none

/-- The non-empty `PT_LOAD` segments, in header order. -/
def fileSegments (data : Slice) : List Segment :=
  (List.range (data.bytes.readLE 56 2)).filterMap fun j =>
    headerSegment data (data.bytes.readLE 32 8 + j * phdrSize)

/-- The bytes of the segment are in the file. -/
def Segment.InFile (data : Slice) (seg : Segment) : Prop :=
  seg.fileSize ≤ seg.memSize ∧ seg.fileOffset + seg.fileSize ≤ data.len

theorem checkedAdd_any {a b n : Nat} (h : (checkedAdd a b).any (· ≤ n) = true) : a + b ≤ n := by
  unfold checkedAdd at h
  split at h
  · simpa using h
  · cases h

theorem parseSegment_eq_ok {data : Slice} {ph count : Nat} {seg : Option Segment}
    (h : parseSegment data ph count = .ok seg) :
    seg = headerSegment data ph ∧ ∀ x ∈ seg, x.InFile data := by
  unfold parseSegment at h
  obtain ⟨memSize, hmem, h⟩ := Kernel.bind_eq_ok h
  obtain ⟨pType, htype, h⟩ := Kernel.bind_eq_ok h
  obtain rfl := Slice.readLE_eq_ok hmem
  obtain rfl := Slice.readLE_eq_ok htype
  unfold headerSegment
  split at h
  · rename_i hskip
    obtain rfl := Except.ok.inj h
    refine ⟨(if_neg ?_).symm, nofun⟩
    rintro ⟨hload : data.bytes.readLE ph 4 = 1, hsize : data.bytes.readLE (ph + 40) 8 ≠ 0⟩
    simp [hload, hsize] at hskip
  · rename_i hload
    obtain ⟨flags, hflags, h⟩ := Kernel.bind_eq_ok h
    obtain ⟨fileOffset, hoff, h⟩ := Kernel.bind_eq_ok h
    obtain ⟨fileSize, hsize, h⟩ := Kernel.bind_eq_ok h
    obtain ⟨_, hle, h⟩ := Kernel.bind_eq_ok h
    obtain ⟨_, hin, h⟩ := Kernel.bind_eq_ok h
    obtain ⟨_, -, h⟩ := Kernel.bind_eq_ok h
    obtain ⟨vaddr, hvaddr, h⟩ := Kernel.bind_eq_ok h
    obtain rfl := Except.ok.inj h
    obtain rfl := Slice.readLE_eq_ok hflags
    obtain rfl := Slice.readLE_eq_ok hoff
    obtain rfl := Slice.readLE_eq_ok hsize
    obtain rfl := Slice.readLE_eq_ok hvaddr
    refine ⟨(if_pos (by simpa using hload)).symm, fun x hx => ?_⟩
    obtain rfl := Option.some.inj hx
    exact ⟨of_decide_eq_true (Kernel.assert_eq_ok hle), checkedAdd_any (Kernel.assert_eq_ok hin)⟩

/-- The loop over the headers collects the segments they describe. -/
theorem parseSegments_eq_ok {data : Slice} {n : Nat} : ∀ {ph : Nat} {segs segs' : List Segment},
    parseSegments data n ph segs = .ok segs' →
    segs' = segs ++ (List.range n).filterMap (fun j => headerSegment data (ph + j * phdrSize)) ∧
      ((∀ x ∈ segs, x.InFile data) → ∀ x ∈ segs', x.InFile data) := by
  induction n with
  | zero =>
    intro ph segs segs' h
    obtain rfl := Except.ok.inj h
    exact ⟨(List.append_nil _).symm, id⟩
  | succ n ih =>
    intro ph segs segs' h
    obtain ⟨seg, hseg, h⟩ := Kernel.bind_eq_ok h
    obtain ⟨rfl, hfile⟩ := parseSegment_eq_ok hseg
    obtain ⟨hrest, hall⟩ := ih h
    refine ⟨?_, fun hsegs => hall fun x hx => ?_⟩
    · have hshift : ∀ j, ph + phdrSize + j * phdrSize = ph + (j + 1) * phdrSize := by
        intro j
        simp only [phdrSize]
        omega
      rw [hrest, List.range_succ_eq_map, List.filterMap_cons, List.filterMap_map, Nat.zero_mul,
        Nat.add_zero]
      simp only [hshift, Function.comp_def]
      cases headerSegment data ph with
      | none => rw [Option.toList_none, List.append_nil]
      | some x => rw [Option.toList_some, List.append_assoc, List.singleton_append]
    · rcases List.mem_append.mp hx with hx | hx
      · exact hsegs x hx
      · exact hfile x (Option.mem_toList.mp hx)

/-- **What `parse` returns**: the segments of the file, and each lies in it. -/
theorem parse_eq_ok {data : Slice} {elf : Image} (h : parse data = .ok elf) :
    elf.segments = fileSegments data ∧ ∀ x ∈ elf.segments, x.InFile data := by
  unfold parse at h
  iterate 4 obtain ⟨_, -, h⟩ := Kernel.bind_eq_ok h
  iterate 3
    obtain ⟨_, -, h⟩ := Kernel.bind_eq_ok h
    obtain ⟨_, -, h⟩ := Kernel.bind_eq_ok h
  obtain ⟨entry, -, h⟩ := Kernel.bind_eq_ok h
  obtain ⟨phOffset, hoff, h⟩ := Kernel.bind_eq_ok h
  obtain ⟨phCount, hcount, h⟩ := Kernel.bind_eq_ok h
  obtain ⟨_, -, h⟩ := Kernel.bind_eq_ok h
  obtain ⟨segs, hsegs, h⟩ := Kernel.bind_eq_ok h
  obtain rfl := Except.ok.inj h
  obtain rfl := Slice.readLE_eq_ok hoff
  obtain rfl := Slice.readLE_eq_ok hcount
  obtain ⟨rfl, hfile⟩ := parseSegments_eq_ok hsegs
  exact ⟨List.nil_append _, hfile nofun⟩

/-! ## The layout of the image -/

/-- The segments cover `[a, b)` in their order, each from where the one before ends. -/
def Tiles : Nat → List Segment → Nat → Prop
  | a, [], b => a = b
  | a, seg :: segs, b => seg.vaddr = a ∧ Tiles (seg.vaddr + seg.extent) segs b

/-- `[a, b)` are the pages of the one segment of `segs`, or `a = b = 0` if there is none. -/
def Delimits (a b : Nat) (segs : List Segment) : Prop :=
  segs = [] ∧ a = 0 ∧ b = 0 ∨ ∃ seg, segs = [seg] ∧ a = seg.vaddr ∧ b = seg.vaddr + seg.extent

theorem loadSegments_tiles {image : Slice} {root : Nat} {segs : List Segment} :
    ∀ {l l' : Loading}, loadSegments image root segs l = .ok l' →
      Tiles l.imageEnd segs l'.imageEnd := by
  induction segs with
  | nil =>
    intro l l' hl
    obtain rfl := Except.ok.inj hl
    exact rfl
  | cons seg segs ih =>
    intro l l' hl
    obtain ⟨l₁, hseg, hl⟩ := Kernel.bind_eq_ok hl
    obtain ⟨hvaddr, -, -, -, hend, -⟩ := loadSegment_eq_ok hseg
    have hrest := ih hl
    rw [hend] at hrest
    exact ⟨hvaddr, hrest⟩

theorem Tiles.le {segs : List Segment} {a b n : Nat} (h : Tiles a segs b) (ha : a ≤ n)
    (hsegs : ∀ seg ∈ segs, seg.vaddr + seg.extent ≤ n) : b ≤ n := by
  induction segs generalizing a with
  | nil => exact h ▸ ha
  | cons seg segs ih =>
    exact ih h.2 (hsegs seg (List.mem_cons_self ..)) fun x hx => hsegs x (List.mem_cons_of_mem _ hx)

theorem Tiles.start_le {segs : List Segment} {a b : Nat} (h : Tiles a segs b) : a ≤ b := by
  induction segs generalizing a with
  | nil => exact Nat.le_of_eq h
  | cons seg segs ih =>
    have hrest := ih h.2
    have hfirst := h.1
    omega

theorem Tiles.extent_le {segs : List Segment} {a b : Nat} (h : Tiles a segs b) {seg : Segment}
    (hseg : seg ∈ segs) : seg.vaddr + seg.extent ≤ b := by
  induction segs generalizing a with
  | nil => cases hseg
  | cons first segs ih =>
    rcases List.mem_cons.mp hseg with rfl | hseg
    · exact h.2.start_le
    · exact ih h.2 hseg

/-- A second writable segment stops `create`. -/
theorem loadSegment_first_writable {image : Slice} {root : Nat} {l l' : Loading} {seg : Segment}
    (h : loadSegment image root l seg = .ok l') (hw : seg.writable = true) :
    l.imageDataStart = 0 := by
  unfold loadSegment at h
  iterate 3 obtain ⟨_, -, h⟩ := Kernel.bind_eq_ok h
  simp only [if_pos hw] at h
  obtain ⟨_, hnone, -⟩ := Kernel.bind_eq_ok h
  exact beq_iff_eq.mp (Kernel.assert_eq_ok hnone)

/-- One round keeps the two bounds around the writable segments met so far. -/
theorem loadSegment_delimits {image : Slice} {root : Nat} {l l' : Loading} {seg : Segment}
    {seen : List Segment} (h : loadSegment image root l seg = .ok l')
    (hd : Delimits l.imageDataStart l.imageDataEnd (seen.filter (·.writable)))
    (hpos : ∀ x ∈ seen, 0 < x.vaddr) :
    Delimits l'.imageDataStart l'.imageDataEnd ((seen ++ [seg]).filter (·.writable)) := by
  obtain ⟨-, -, -, -, hend, hdata⟩ := loadSegment_eq_ok h
  rw [List.filter_append]
  rcases hdata with ⟨hw, hds, hde⟩ | ⟨hw, hds, hde⟩
  · -- the segment is writable, so no other was
    have hnone := loadSegment_first_writable h hw
    rcases hd with ⟨hnil, -⟩ | ⟨x, hx, hs, -⟩
    · refine Or.inr ⟨seg, ?_, hds, hde.trans hend⟩
      rw [hnil, List.nil_append]
      exact List.filter_cons_of_pos hw
    · have hmem : x ∈ seen.filter (·.writable) := hx ▸ List.mem_singleton_self x
      have := hpos x (List.mem_filter.mp hmem).1
      omega
  · have hskip : [seg].filter (·.writable) = [] := List.filter_cons_of_neg (by rw [hw]; decide)
    rw [hskip, List.append_nil, hds, hde]
    exact hd

theorem loadSegments_delimits {image : Slice} {root : Nat} {segs : List Segment} :
    ∀ (seen : List Segment) {l l' : Loading}, loadSegments image root segs l = .ok l' →
      0 < l.imageEnd → (∀ x ∈ seen, 0 < x.vaddr) →
      Delimits l.imageDataStart l.imageDataEnd (seen.filter (·.writable)) →
      Delimits l'.imageDataStart l'.imageDataEnd ((seen ++ segs).filter (·.writable)) := by
  induction segs with
  | nil =>
    intro seen l l' hl _ _ hd
    obtain rfl := Except.ok.inj hl
    rwa [List.append_nil]
  | cons seg segs ih =>
    intro seen l l' hl hstart hpos hd
    obtain ⟨l₁, hseg, hl⟩ := Kernel.bind_eq_ok hl
    obtain ⟨hvaddr, -, -, -, hend, -⟩ := loadSegment_eq_ok hseg
    have hpos' : ∀ x ∈ seen ++ [seg], 0 < x.vaddr := by
      intro x hx
      rcases List.mem_append.mp hx with hx | hx
      · exact hpos x hx
      · rw [List.mem_singleton.mp hx, hvaddr]
        exact hstart
    have hall := ih _ hl (by omega) hpos' (loadSegment_delimits hseg hd hpos)
    rwa [List.append_assoc, List.singleton_append] at hall

/-! ## The image of a new shard -/

/-- The address space of a shard holds the segments of its image, and its descriptor
delimits them. -/
structure ExactImage (image : Slice) (segs : List Segment) (m : Memory) (d : ShardDescriptor) :
    Prop where
  tiles : Tiles shardCodeVaddr segs d.imageEnd
  below : d.imageEnd ≤ shardStackVaddr
  bytes : ∀ seg ∈ segs, ∀ i < seg.extent, ∃ leaf, walk m d.pml4Phys (seg.vaddr + i) = some leaf ∧
    m leaf.phys = imageByte image seg i ∧ leaf.user = true ∧
    leaf.writable = seg.writable ∧ leaf.executable = seg.executable
  data : Delimits d.imageDataStart d.imageDataEnd (segs.filter (·.writable))
  only : ∀ va leaf, va < 0x800000000000 → walk m d.pml4Phys va = some leaf →
    (∃ seg ∈ segs, seg.vaddr ≤ va ∧ va < seg.vaddr + seg.extent) ∨
      shardStackVaddr ≤ va ∧ va < shardStackVaddr + 4096

theorem LeafFlags.of_segment {seg : Segment} {leaf : Leaf} (h : LeafFlags seg.flags leaf) :
    leaf.user = true ∧ leaf.writable = seg.writable ∧ leaf.executable = seg.executable := by
  obtain ⟨hu, hw, hx⟩ := h
  obtain ⟨-, huser, -⟩ := seg.flags_ok
  obtain ⟨hwrite, hexec⟩ := seg.hasFlag_flags
  exact ⟨hu.trans huser, hw.trans hwrite, by rw [hx, hexec, Bool.not_not]⟩

section Created
variable {s s' : Sys} {image : Slice} {priority : Priority} {id : Nat}

theorem CreateOk.tiles (ok : CreateOk s image priority s' id) :
    Tiles shardCodeVaddr ok.elf.segments (s'.desc id).imageEnd := by
  rw [ok.desc_self]
  exact loadSegments_tiles ok.segments

/-- The image ends below the stack. -/
theorem CreateOk.imageEnd_le {own : Owners Nat} (ok : CreateOk s image priority s' id)
    (hbytes : ImageBytes image ok.elf.segments own s'.ram.mem id (s'.desc id).pml4Phys) :
    (s'.desc id).imageEnd ≤ shardStackVaddr :=
  ok.tiles.le (by decide) fun seg hseg => (hbytes seg hseg).1

end Created

/-- **The ELF loader builds exactly the image.** -/
theorem create_builds_image {isRam : Nat → Prop} {ops : List BootOp} {s s' : Sys} {image : Slice}
    {priority : Priority} {id : Nat} (hb : Booted isRam ops s)
    (h : create s image priority = .ok (s', id)) :
    ∃ elf, parse image = .ok elf ∧ elf.segments = fileSegments image ∧
      (∀ seg ∈ elf.segments, seg.InFile image) ∧
      ExactImage image elf.segments s'.ram.mem (s'.desc id) := by
  obtain ⟨own, hok⟩ := hb.bootOk
  obtain ⟨ok⟩ := create_eq_ok h
  obtain ⟨own', -, hgains, hbytes⟩ := hok.create_image ok
  obtain ⟨hsegs, hfile⟩ := parse_eq_ok ok.parsed
  obtain ⟨-, -, -, -, hds, hde, -⟩ := Space.mk.inj (hok.unused id ok.free)
  have hstart : (s'.desc id).imageDataStart = ok.loaded.imageDataStart :=
    congrArg ShardDescriptor.imageDataStart ok.desc_self
  have hstop : (s'.desc id).imageDataEnd = ok.loaded.imageDataEnd :=
    congrArg ShardDescriptor.imageDataEnd ok.desc_self
  refine ⟨ok.elf, ok.parsed, hsegs, hfile, ok.tiles, ok.imageEnd_le hbytes,
    fun seg hseg i hi => ?_, ?_, fun va leaf hv hw => ?_⟩
  · obtain ⟨leaf, hwalk, hflags, -, hbyte⟩ := (hbytes seg hseg).2 i (Nat.zero_le _) hi
    exact ⟨leaf, hwalk, hbyte, hflags.of_segment⟩
  · rw [hstart, hstop]
    exact loadSegments_delimits [] ok.segments (show 0 < 0x1000 by decide) nofun
      (Or.inl ⟨rfl, hds, hde⟩)
  · have hcreated : (s'.desc id).state ≠ .free := by
      rw [ok.desc_self]
      exact nofun
    rcases hgains.leaves id va leaf hcreated hv hw with ⟨hc, -⟩ | ⟨-, elf, hparse, hleaf⟩
    · exact absurd ok.free hc
    · obtain rfl := Except.ok.inj (ok.parsed.symm.trans hparse)
      rcases hleaf with ⟨seg, hseg, -, -, h1, h2, -⟩ | ⟨h1, h2, -⟩
      · exact Or.inl ⟨seg, hseg, h1, h2⟩
      · exact Or.inr ⟨h1, h2⟩

/-- Two bytes of code at `0x1000`, and at `0x2000` two bytes of data followed by zeros. -/
def smallImage : Slice where
  len := 180
  bytes i :=
    match i with
    | 0 => 0x7F | 1 => 0x45 | 2 => 0x4C | 3 => 0x46
    | 4 => 2 | 5 => 1 | 16 => 2 | 18 => 0x3E | 25 => 0x10 | 32 => 64 | 54 => 56 | 56 => 2
    | 64 => 1 | 68 => 5 | 72 => 176 | 81 => 0x10 | 96 => 2 | 104 => 2
    | 120 => 1 | 124 => 6 | 128 => 178 | 137 => 0x20 | 152 => 2 | 160 => 5
    | 176 => 0xEB | 177 => 0xFE | 178 => 0xAA | 179 => 0xBB
    | _ => 0

set_option maxRecDepth 100000 in
theorem smallImage_created : (create plainSys smallImage .normal).toOption.isSome = true := by
  decide +kernel

theorem create_builds_image_small : ∃ s' id, create plainSys smallImage .normal = .ok (s', id) ∧
    ∃ elf, parse smallImage = .ok elf ∧ elf.segments = fileSegments smallImage ∧
      (∀ seg ∈ elf.segments, seg.InFile smallImage) ∧
      ExactImage smallImage elf.segments s'.ram.mem (s'.desc id) := by
  cases h : create plainSys smallImage .normal with
  | error e =>
    have hc := smallImage_created
    rw [h] at hc
    cases hc
  | ok x => exact ⟨x.1, x.2, rfl, create_builds_image (Booted.initial plainSys_initial) h⟩

end Coconut
