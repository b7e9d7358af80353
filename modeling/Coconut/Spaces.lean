import Coconut.AddressSpace
import Coconut.BootEffects
import Coconut.Footprint

/-!
# The address spaces of the shards

`SpaceOk` ties the numbers of a descriptor to the page tables: every address in a region
that the buffer checks accept is mapped to a page of the shard's own tree, with the
permissions the check stands for.  `Adds` says what the loops that map pages do to an
address space, and each loop has its lemma: the pages of a segment, of `mmap`, and of a
device window.
-/
namespace Coconut
open Paging

variable {isRam : Nat → Prop} {own own' own'' : Owners Nat} {r r' r'' : Ram} {t root : Nat}

/-! ## Pages -/

/-- The address is mapped for user code to a page of tree `t`, writable if `w`. -/
def PageOk (own : Owners Nat) (m : Memory) (t root va : Nat) (w : Bool) : Prop :=
  ∃ leaf, walk m root va = some leaf ∧ leaf.user = true ∧ (w = true → leaf.writable = true) ∧
    own (Memory.frameOf leaf.phys) = some (.node t 0 (va / 4096))

/-- What is mapped stays mapped as it is. -/
def KeepsPages (root : Nat) (m m' : Memory) : Prop :=
  ∀ va leaf, va < 0x800000000000 → walk m root va = some leaf → walk m' root va = some leaf

theorem KeepsPages.trans {m m' m'' : Memory} (h : KeepsPages root m m')
    (h' : KeepsPages root m' m'') : KeepsPages root m m'' :=
  fun va leaf hv hw => h' va leaf hv (h va leaf hv hw)

theorem PageOk.mono {m m' : Memory} {va : Nat} {w : Bool} (h : PageOk own m t root va w)
    (hv : va < 0x800000000000) (hx : own.Extends own') (hk : KeepsPages root m m') :
    PageOk own' m' t root va w := by
  obtain ⟨leaf, hw, hu, hp, ho⟩ := h
  exact ⟨leaf, hk va leaf hv hw, hu, hp, hx _ _ ho⟩

theorem PageOk.weaken {m : Memory} {va : Nat} {w : Bool} (h : PageOk own m t root va w) :
    PageOk own m t root va false := by
  obtain ⟨leaf, hw, hu, -, ho⟩ := h
  exact ⟨leaf, hw, hu, fun hc => (by cases hc), ho⟩

theorem MapsPage.keeps {virt phys flags : Nat} {m m' : Memory}
    (h : MapsPage root virt phys flags m m') : KeepsPages root m m' := by
  intro va leaf hv hw
  by_cases hpage : va / 4096 = virt / 4096
  · obtain ⟨l, hl, -⟩ := walk_page hv hpage.symm hw
    rw [h.before] at hl
    cases hl
  · rw [h.other va hv hpage, hw]

/-- Whatever is mapped in addition satisfies `new`. -/
def MapsOnly (root : Nat) (new : Nat → Leaf → Prop) (m m' : Memory) : Prop :=
  ∀ va leaf, va < 0x800000000000 → walk m' root va = some leaf → walk m root va = some leaf ∨ new va leaf

theorem MapsOnly.trans {new : Nat → Leaf → Prop} {m m' m'' : Memory} (h : MapsOnly root new m m')
    (h' : MapsOnly root new m' m'') : MapsOnly root new m m'' :=
  fun va leaf hv hw => (h' va leaf hv hw).elim (h va leaf hv) Or.inr

/-- The leaf has the permissions the flags of a last-level entry give. -/
def LeafFlags (flags : Nat) (leaf : Leaf) : Prop :=
  leaf.user = hasFlag flags pteUser ∧ leaf.writable = hasFlag flags pteWritable ∧
    leaf.executable = !hasFlag flags pteNoExecute

/-- A leaf of the pages of `[a, b)`, mapped with `flags`. -/
def PagesLeaf (a b flags va : Nat) (leaf : Leaf) : Prop := a ≤ va ∧ va < b ∧ LeafFlags flags leaf

theorem MapsPage.only {virt phys flags : Nat} {m m' : Memory} (h : MapsPage root virt phys flags m m')
    (ha : virt % 4096 = 0) : MapsOnly root (PagesLeaf virt (virt + 4096) flags) m m' := by
  intro va leaf hv hw
  by_cases hpage : va / 4096 = virt / 4096
  · rw [h.page va hpage] at hw
    obtain rfl := Option.some.inj hw
    exact Or.inr ⟨by omega, by omega, rfl, rfl, rfl⟩
  · rw [h.other va hv hpage] at hw
    exact Or.inl hw

/-- The page `map_4k` has mapped, if its frame belongs to the tree. -/
theorem MapsPage.pageOk {virt phys flags va : Nat} {w : Bool} {m m' : Memory}
    (h : MapsPage root virt phys flags m m') (ho : own phys = some (.node t 0 (virt / 4096)))
    (ha : phys % 4096 = 0) (hlt : phys < 2 ^ 52) (hu : hasFlag flags pteUser = true)
    (hw : w = true → hasFlag flags pteWritable = true) (hpage : va / 4096 = virt / 4096) :
    PageOk own m' t root va w := by
  refine ⟨_, h.page va hpage, hu, hw, ?_⟩
  change own (Memory.frameOf (physAddr phys + va % 4096)) = _
  rw [physAddr_of_aligned ha hlt, Memory.frameOf_add ha (Nat.mod_lt _ (by decide)), ho, hpage]

/-! ## Frames with contents -/

/-- Memory may change outside the tables. -/
theorem RamOk.setMem (h : RamOk own isRam r) {m : Memory}
    (hs : ∀ f o, own f = some o → o.isTable = true → Memory.SameFrame r.mem m f) :
    RamOk own isRam { r with mem := m } :=
  ⟨⟨h.wellFormed.aligned, h.wellFormed.taken, h.wellFormed.distinct⟩, h.managed, h.owned_live,
    h.tables.congr hs⟩

/-- Giving a fresh frame contents is part of allocating it. -/
theorem Fresh.fill {p : Nat} {o : Owner Nat} {m : Memory} (fr : Fresh own r p r' isRam)
    (ho : OfTree t o) (hm : ∀ f, f ≠ p → Memory.SameFrame r'.mem m f)
    (htables : TablesOk own isRam r.mem) :
    Grows t own r (own.assign p o) { r' with mem := m } isRam := by
  have hne : ∀ {f o'}, own f = some o' → f ≠ p := by
    intro f o' hf he
    rw [he, fr.unowned] at hf
    cases hf
  have hg := fr.grows ho
  refine ⟨hg.keeps, hg.adds, fun f o' hf i hi hp ht => ?_,
    fun f o' hf ht => (hg.contents f o' hf ht).trans (hm f (hne hf)),
    fun f hf => (hg.devices f hf).trans (hm f fun he => hf (he ▸ fr.ram)), hg.live, hg.managed,
    hg.took⟩
  rw [← hg.entries f o' hf i hi hp ht]
  exact entryAt_congr (hm f (hne hf)) (htables.ram f o' hf).2.1 hi

theorem Fresh.takes_fill {p : Nat} {o : Owner Nat} {m : Memory} (fr : Fresh own r p r' isRam)
    (ho : (∃ q, o = .node t 0 q) ∨ o = .held t) (hm : ∀ f, f ≠ p → Memory.SameFrame r'.mem m f)
    (htables : TablesOk own isRam r.mem) : Takes t own r.mem [p] (own.assign p o) m := by
  have hof : OfTree t o := by
    rcases ho with ⟨q, rfl⟩ | rfl <;> rfl
  refine fr.takes_data ho fun hl => (fr.fill hof hm htables).linked hl fun f k q hf => Or.inl ?_
  by_cases hfp : f = p
  · rw [hfp, Owners.assign_self] at hf
    rcases ho with ⟨q', rfl⟩ | rfl <;> cases hf
  · rwa [own.assign_of_ne _ hfp] at hf

/-- What mapping pages does to the address space of tree `t`. -/
structure Adds (t root : Nat) (own : Owners Nat) (r : Ram) (own' : Owners Nat) (r' : Ram)
    (isRam : Nat → Prop) : Prop where
  ok : RamOk own' isRam r'
  grows : Grows t own r own' r' isRam
  keeps : KeepsPages root r.mem r'.mem

theorem Adds.refl (h : RamOk own isRam r) : Adds t root own r own r isRam :=
  ⟨h, Grows.refl .., fun _ _ _ hw => hw⟩

theorem Adds.trans (h : Adds t root own r own' r' isRam) (h' : Adds t root own' r' own'' r'' isRam) :
    Adds t root own r own'' r'' isRam :=
  ⟨h'.ok, h.grows.trans h'.grows, h.keeps.trans h'.keeps⟩

/-- The same, exactly: the pages added satisfy `new`, and `frames` are the frames taken
besides those of tables. -/
structure AddsPages (new : Nat → Leaf → Prop) (frames : List Nat) (t root : Nat) (own : Owners Nat)
    (r : Ram) (own' : Owners Nat) (r' : Ram) (isRam : Nat → Prop) : Prop
    extends Adds t root own r own' r' isRam where
  only : MapsOnly root new r.mem r'.mem
  takes : Takes t own r.mem frames own' r'.mem

section AddsPages
variable {new new' : Nat → Leaf → Prop} {frames frames' : List Nat}

theorem AddsPages.refl (h : RamOk own isRam r) : AddsPages new [] t root own r own r isRam :=
  ⟨Adds.refl h, fun _ _ _ hw => Or.inl hw, Takes.refl ..⟩

theorem AddsPages.trans (h : AddsPages new frames t root own r own' r' isRam)
    (h' : AddsPages new frames' t root own' r' own'' r'' isRam) :
    AddsPages new (frames ++ frames') t root own r own'' r'' isRam :=
  ⟨h.toAdds.trans h'.toAdds, h.only.trans h'.only, h.takes.trans h.grows.keeps h'.takes⟩

theorem AddsPages.weaken (h : AddsPages new frames t root own r own' r' isRam)
    (hn : ∀ va leaf, new va leaf → new' va leaf) :
    AddsPages new' frames t root own r own' r' isRam :=
  ⟨h.toAdds, fun va leaf hv hw => (h.only va leaf hv hw).imp_right (hn va leaf), h.takes⟩

/-- The same pages, as part of a larger range. -/
theorem AddsPages.widen {a b a' b' flags : Nat}
    (h : AddsPages (PagesLeaf a b flags) frames t root own r own' r' isRam) (ha : a' ≤ a)
    (hb : b ≤ b') : AddsPages (PagesLeaf a' b' flags) frames t root own r own' r' isRam :=
  h.weaken fun _ _ hl => ⟨Nat.le_trans ha hl.1, Nat.lt_of_lt_of_le hl.2.1 hb, hl.2.2⟩

end AddsPages

/-- The translation of tree `t` does not see a frame that is not part of it yet. -/
theorem walk_fresh {p : Nat} {m : Memory} (h : RamOk own isRam r) (fr : Fresh own r p r' isRam)
    (hroot : own root = some (.node t 4 0)) (hm : ∀ f, f ≠ p → Memory.SameFrame r'.mem m f)
    {va : Nat} (hv : va < 0x800000000000) : walk m root va = walk r.mem root va := by
  refine h.tables.walk_congr hroot (fun f k q hf => ?_) hv
  have hne : f ≠ p := fun he => by
    rw [he, fr.unowned] at hf
    cases hf
  rw [fr.zeroed] at hm
  exact (r.mem.fill_sameFrame 0 fr.aligned hne).trans (hm f hne)

/-- The fresh frame becomes the page of `virt`; no table is at stake. -/
theorem Fresh.page_ok {p virt : Nat} {m : Memory} (fr : Fresh own r p r' isRam)
    (hm : ∀ f, f ≠ p → Memory.SameFrame r'.mem m f) :
    RamOk (own.assign p (.node t 0 (virt / 4096))) isRam { r' with mem := m } := by
  refine (fr.ok _).setMem fun f o hf ht => hm f fun he => ?_
  rw [he, Owners.assign_self] at hf
  cases hf
  cases ht

/-- **A fresh page.**  A frame is allocated, given contents and mapped at `virt`. -/
theorem mapFresh_spec (h : RamOk own isRam r) {p virt flags : Nat} {m : Memory} {w : Bool}
    (hroot : own root = some (.node t 4 0)) (hv : virt < 0x800000000000) (hva : virt % 4096 = 0)
    (ha : r.allocFrameZeroed = some (p, r')) (hm : ∀ f, f ≠ p → Memory.SameFrame r'.mem m f)
    (hflags : FlagsOk (flags ||| ptePresent)) (hu : hasFlag flags pteUser = true)
    (hw : w = true → hasFlag flags pteWritable = true)
    (hmap : map4k { r' with mem := m } root virt p flags = .ok r'') :
    ∃ own', AddsPages (PagesLeaf virt (virt + 4096) flags) [p] t root own r own' r'' isRam ∧
      MapsPage root virt p flags r.mem r''.mem ∧
      ∀ va, va / 4096 = virt / 4096 → PageOk own' r''.mem t root va w := by
  have fr := h.alloc ha
  have hlt : p < 2 ^ 52 := by
    have := fr.lt
    omega
  have hok : RamOk (own.assign p (.node t 0 (virt / 4096))) isRam { r' with mem := m } :=
    fr.page_ok hm
  have hroot' := (Owners.extends_assign (.node t 0 (virt / 4096)) fr.unowned) _ _ hroot
  obtain ⟨own', ok', grows', takes', maps⟩ := map4k_spec hok hroot' hv
    (Or.inl (by rw [physAddr_of_aligned fr.aligned hlt, Owners.assign_self])) hflags hmap
  have hsame : ∀ {va}, va < 0x800000000000 → walk m root va = walk r.mem root va := fun hva =>
    walk_fresh h fr hroot hm hva
  have maps' : MapsPage root virt p flags r.mem r''.mem :=
    ⟨(hsame hv).symm.trans maps.before, maps.page,
      fun va hva hne => (maps.other va hva hne).trans (hsame hva)⟩
  have hof : OfTree t (.node t 0 (virt / 4096)) := rfl
  have grows := fr.fill hof hm h.tables
  have takes := fr.takes_fill (t := t) (Or.inl ⟨virt / 4096, rfl⟩) hm h.tables
  refine ⟨own', ⟨⟨ok', grows.trans grows', maps'.keeps⟩, maps'.only hva,
    takes.trans grows.keeps takes'⟩, maps', fun va hpage => ?_⟩
  exact maps'.pageOk (grows'.keeps _ _ (Owners.assign_self ..)) fr.aligned hlt hu hw hpage

/-- Mapping the page does not touch its contents. -/
theorem mapFresh_contents (h : RamOk own isRam r) {p virt flags : Nat} {m : Memory}
    (hroot : own root = some (.node t 4 0)) (hv : virt < 0x800000000000)
    (ha : r.allocFrameZeroed = some (p, r')) (hm : ∀ f, f ≠ p → Memory.SameFrame r'.mem m f)
    (hflags : FlagsOk (flags ||| ptePresent))
    (hmap : map4k { r' with mem := m } root virt p flags = .ok r'') :
    Memory.SameFrame m r''.mem p := by
  have fr := h.alloc ha
  have hlt : p < 2 ^ 52 := by
    have := fr.lt
    omega
  have hself := Owners.assign_self own p (.node t 0 (virt / 4096))
  have hroot' := (Owners.extends_assign (.node t 0 (virt / 4096)) fr.unowned) _ _ hroot
  obtain ⟨_, -, grows, -, -⟩ := map4k_spec (fr.page_ok hm) hroot' hv
    (Or.inl (by rw [physAddr_of_aligned fr.aligned hlt, hself])) hflags hmap
  refine grows.contents p _ hself ?_
  rintro ⟨k, q, ho⟩
  cases ho

/-- The byte at `va` of tree `t` is mapped with `flags` and holds `b`. -/
def ByteAt (own : Owners Nat) (m : Memory) (t root flags va : Nat) (b : UInt8) : Prop :=
  ∃ leaf, walk m root va = some leaf ∧ LeafFlags flags leaf ∧
    own (Memory.frameOf leaf.phys) = some (.node t 0 (va / 4096)) ∧ m leaf.phys = b

/-- Mapping more pages keeps the byte. -/
theorem ByteAt.mono {flags va : Nat} {b : UInt8} (h : ByteAt own r.mem t root flags va b)
    (hv : va < 0x800000000000) (ha : Adds t root own r own' r' isRam) :
    ByteAt own' r'.mem t root flags va b := by
  obtain ⟨leaf, hw, hf, ho, hb⟩ := h
  refine ⟨leaf, ha.keeps va leaf hv hw, hf, ha.grows.keeps _ _ ho, ?_⟩
  rw [← hb]
  refine ha.grows.contents _ _ ho ?_ leaf.phys rfl
  rintro ⟨k, q, hc⟩
  cases hc

theorem ByteAt.pageOk {m : Memory} {flags va : Nat} {b : UInt8} {w : Bool}
    (h : ByteAt own m t root flags va b) (hu : hasFlag flags pteUser = true)
    (hw : w = true → hasFlag flags pteWritable = true) : PageOk own m t root va w := by
  obtain ⟨leaf, hwalk, ⟨hlu, hlw, -⟩, ho, -⟩ := h
  exact ⟨leaf, hwalk, hlu.trans hu, fun hc => hlw.trans (hw hc), ho⟩

/-- The bytes of a fresh page are the contents given to its frame. -/
theorem MapsPage.byteAt {virt phys flags va : Nat} {m m' m'' : Memory}
    (h : MapsPage root virt phys flags m m') (ho : PageOk own m' t root va false)
    (hc : Memory.SameFrame m'' m' phys) (ha : phys % 4096 = 0) (hlt : phys < 2 ^ 52)
    (hpage : va / 4096 = virt / 4096) :
    ByteAt own m' t root flags va (m'' (phys + va % 4096)) := by
  have hwalk := h.page va hpage
  have hoff : va % 4096 < 4096 := Nat.mod_lt _ (by decide)
  obtain ⟨leaf, hw, -, -, hown⟩ := ho
  obtain rfl := Option.some.inj (hwalk.symm.trans hw)
  refine ⟨_, hwalk, ⟨rfl, rfl, rfl⟩, hown, ?_⟩
  change m' (physAddr phys + va % 4096) = _
  rw [physAddr_of_aligned ha hlt]
  exact hc _ (Memory.frameOf_add ha hoff)

/-! ## The loops that map pages -/

/-- The pages of `[a, b)`. -/
def PagesOk (own : Owners Nat) (m : Memory) (t root a b : Nat) (w : Bool) : Prop :=
  ∀ va, a ≤ va → va < b → PageOk own m t root va w

theorem PagesOk.mono {m m' : Memory} {a b : Nat} {w : Bool} (h : PagesOk own m t root a b w)
    (hb : b ≤ 0x800000000000) (hx : own.Extends own') (hk : KeepsPages root m m') :
    PagesOk own' m' t root a b w :=
  fun va h1 h2 => (h va h1 h2).mono (by omega) hx hk

/-- One more page at the front. -/
theorem PagesOk.cons {m : Memory} {a b : Nat} {w : Bool} (ha : a % 4096 = 0)
    (h : ∀ va, va / 4096 = a / 4096 → PageOk own m t root va w)
    (hrest : PagesOk own m t root (a + 4096) b w) : PagesOk own m t root a b w := by
  intro va h1 h2
  by_cases hva : va < a + 4096
  · exact h va (by omega)
  · exact hrest va (by omega) h2

/-- The first page of a range lies in it. -/
theorem page_le (a i n : Nat) : a + i * 4096 + 4096 ≤ a + (i + 1 + n) * 4096 := by omega

theorem pushFrame_eq_ok {frames frames' : List Nat} {p : Nat} (h : pushFrame frames p = .ok frames') :
    frames.length < maxShardFrames ∧ frames' = frames ++ [p] := by
  unfold pushFrame at h
  split at h
  · exact ⟨‹_›, (Except.ok.inj h).symm⟩
  · cases h

theorem Segment.flags_ok (seg : Segment) : FlagsOk (seg.flags ||| ptePresent) ∧
    hasFlag seg.flags pteUser = true ∧ (seg.writable = true → hasFlag seg.flags pteWritable = true) := by
  unfold Segment.flags
  cases seg.writable <;> cases seg.executable <;> decide

theorem pageBytes_length {image : Slice} {seg : Segment} {pageIdx : Nat} {bytes : List UInt8}
    (h : pageBytes image seg pageIdx = .ok bytes) : bytes.length ≤ 4096 := by
  unfold pageBytes at h
  simp only at h
  split at h
  · rw [Slice.length_range h]
    exact Nat.min_le_right _ _
  · obtain rfl := Except.ok.inj h
    exact Nat.zero_le _

/-- Byte `i` of a loaded segment: from the file, and zero past its end. -/
def imageByte (image : Slice) (seg : Segment) (i : Nat) : UInt8 :=
  if i < seg.fileSize then image.bytes (seg.fileOffset + i) else 0

/-- The bytes `[a, b)` of the segment are mapped as the file has them. -/
def SegmentBytes (image : Slice) (seg : Segment) (own : Owners Nat) (m : Memory)
    (t root a b : Nat) : Prop :=
  ∀ i, a ≤ i → i < b → ByteAt own m t root seg.flags (seg.vaddr + i) (imageByte image seg i)

theorem SegmentBytes.mono {image : Slice} {seg : Segment} {a b : Nat}
    (h : SegmentBytes image seg own r.mem t root a b) (hb : seg.vaddr + b ≤ 0x800000000000)
    (ha : Adds t root own r own' r' isRam) : SegmentBytes image seg own' r'.mem t root a b :=
  fun i h1 h2 => (h i h1 h2).mono (by omega) ha

theorem SegmentBytes.pagesOk {image : Slice} {seg : Segment} {m : Memory} {a b : Nat}
    (h : SegmentBytes image seg own m t root a b) :
    PagesOk own m t root (seg.vaddr + a) (seg.vaddr + b) seg.writable := by
  intro va h1 h2
  obtain ⟨-, hu, hw⟩ := seg.flags_ok
  have hbyte := h (va - seg.vaddr) (by omega) (by omega)
  rw [show seg.vaddr + (va - seg.vaddr) = va by omega] at hbyte
  exact hbyte.pageOk hu hw

/-- The copy into a cleared frame: what the file has of the page, and zeros. -/
theorem pageBytes_get {image : Slice} {seg : Segment} {pageIdx p o : Nat} {bytes : List UInt8}
    {m : Memory} (h : pageBytes image seg pageIdx = .ok bytes) (ho : o < 4096) :
    (m.fill p 4096 0).writeBytes p bytes (p + o) = imageByte image seg (pageIdx * 4096 + o) := by
  have hzero : m.fill p 4096 0 (p + o) = 0 := if_pos ⟨by omega, by omega⟩
  unfold pageBytes at h
  simp only at h
  by_cases hin : pageIdx * 4096 + o < seg.fileSize
  · rw [if_pos (Nat.lt_of_le_of_lt (Nat.le_add_right _ _) hin)] at h
    unfold Slice.range at h
    split at h
    · obtain rfl := Except.ok.inj h
      have hlen : o < min (seg.fileSize - pageIdx * 4096) 4096 := by omega
      rw [Memory.writeBytes, Memory.length_readBytes, if_pos ⟨by omega, by omega⟩,
        Nat.add_sub_cancel_left, List.getD_eq_getElem?_getD, Memory.getElem?_readBytes _ hlen,
        imageByte, if_pos hin, Nat.add_assoc]
      rfl
    · cases h
  · rw [imageByte, if_neg hin, Memory.writeBytes_of_not_mem _ ?_, hzero]
    right
    split at h
    · rw [Slice.length_range h]
      omega
    · obtain rfl := Except.ok.inj h
      exact Nat.le_add_right _ _

/-- **One page of a segment**: a fresh frame, the file's bytes, and the mapping. -/
theorem loadPage_bytes {image : Slice} {seg : Segment} (hseg : seg.vaddr % 4096 = 0)
    {pageIdx p : Nat} {bytes : List UInt8} (h : RamOk own isRam r)
    (hroot : own root = some (.node t 4 0))
    (hv : seg.vaddr + pageIdx * 4096 + 4096 ≤ 0x800000000000)
    (halloc : r.allocFrameZeroed = some (p, r')) (hbytes : pageBytes image seg pageIdx = .ok bytes)
    (hmap : map4k { r' with mem := r'.mem.writeBytes p bytes } root (seg.vaddr + pageIdx * 4096) p
      seg.flags = .ok r'') :
    ∃ own', AddsPages (PagesLeaf (seg.vaddr + pageIdx * 4096) (seg.vaddr + pageIdx * 4096 + 4096)
        seg.flags) [p] t root own r own' r'' isRam ∧
      SegmentBytes image seg own' r''.mem t root (pageIdx * 4096) (pageIdx * 4096 + 4096) := by
  obtain ⟨hflags, hu, hw⟩ := seg.flags_ok
  have fr := h.alloc halloc
  have hother : ∀ f, f ≠ p → Memory.SameFrame r'.mem (r'.mem.writeBytes p bytes) f :=
    fun f hf => Memory.writeBytes_sameFrame _ fr.aligned (pageBytes_length hbytes) hf
  obtain ⟨own₁, adds, maps, page⟩ :=
    mapFresh_spec h hroot (by omega) (by omega) halloc hother hflags hu hw hmap
  have hsame := mapFresh_contents h hroot (by omega) halloc hother hflags hmap
  refine ⟨own₁, adds, fun i h1 h2 => ?_⟩
  have hpage : (seg.vaddr + i) / 4096 = (seg.vaddr + pageIdx * 4096) / 4096 := by omega
  have hlt : p < 2 ^ 52 := by
    have := fr.lt
    omega
  have hbyte := maps.byteAt (page _ hpage).weaken hsame fr.aligned hlt hpage
  rwa [fr.zeroed, pageBytes_get hbytes (Nat.mod_lt _ (by decide)),
    show pageIdx * 4096 + (seg.vaddr + i) % 4096 = i by omega] at hbyte

/-- **The page loop of `create`** maps the pages of the segment, each to a frame of its
own that holds the bytes of the file. -/
theorem loadPages_bytes {image : Slice} {seg : Segment} (hseg : seg.vaddr % 4096 = 0) {n : Nat} :
    ∀ (pageIdx : Nat) {own : Owners Nat} {r : Ram} {frames frames' : List Nat},
      RamOk own isRam r → own root = some (.node t 4 0) →
      seg.vaddr + (pageIdx + n) * 4096 ≤ 0x800000000000 →
      loadPages image root seg seg.flags n pageIdx r frames = .ok (r', frames') →
      ∃ own' taken, frames' = frames ++ taken ∧
        AddsPages (PagesLeaf (seg.vaddr + pageIdx * 4096) (seg.vaddr + (pageIdx + n) * 4096) seg.flags)
          taken t root own r own' r' isRam ∧
        SegmentBytes image seg own' r'.mem t root (pageIdx * 4096) ((pageIdx + n) * 4096) := by
  induction n with
  | zero =>
    intro pageIdx own r frames frames' h _ _ hl
    obtain ⟨rfl, rfl⟩ := Prod.mk.inj (Except.ok.inj hl)
    exact ⟨own, [], (List.append_nil _).symm, AddsPages.refl h, fun i h1 h2 => absurd h2 (by omega)⟩
  | succ n ih =>
    intro pageIdx own r frames frames' h hroot hbound hl
    obtain ⟨⟨p, r₁⟩, halloc, hl⟩ := Kernel.bind_eq_ok hl
    obtain ⟨frames₁, hpush, hl⟩ := Kernel.bind_eq_ok hl
    obtain ⟨bytes, hbytes, hl⟩ := Kernel.bind_eq_ok hl
    obtain ⟨r₂, hmap, hl⟩ := Kernel.bind_eq_ok hl
    obtain ⟨-, rfl⟩ := pushFrame_eq_ok hpush
    obtain ⟨own₁, adds, page⟩ :=
      loadPage_bytes hseg h hroot (by omega) (Kernel.expect_eq_ok halloc) hbytes hmap
    rw [← Nat.add_assoc, Nat.add_right_comm] at hbound ⊢
    obtain ⟨own', taken, rfl, adds', pages⟩ :=
      ih (pageIdx + 1) adds.ok (adds.grows.keeps _ _ hroot) hbound hl
    rw [Nat.succ_mul, ← Nat.add_assoc] at adds'
    rw [Nat.succ_mul] at pages
    refine ⟨own', p :: taken, List.append_assoc .., AddsPages.trans
      (adds.widen (Nat.le_refl _) (page_le _ _ _))
      (adds'.widen (Nat.le_add_right _ _) (Nat.le_refl _)), fun i h1 h2 => ?_⟩
    by_cases hi : i < pageIdx * 4096 + 4096
    · have hend := Nat.le_trans (page_le seg.vaddr pageIdx n) hbound
      rw [Nat.add_assoc] at hend
      exact page.mono hend adds'.toAdds i h1 hi
    · exact pages i (Nat.le_of_not_lt hi) h2

/-- The flags of the user stack and of the pages of `mmap`. -/
abbrev dataFlags : Nat := pteUser ||| pteWritable ||| pteNoExecute

/-- **The page loop of `mmap`** maps the pages up to the one for which no frame is left. -/
theorem mmapPages_spec {vaStart : Nat} (hva : vaStart % 4096 = 0) {n : Nat} :
    ∀ (i : Nat) {own : Owners Nat} {r : Ram} {frames frames' : List Nat} {mapped : Bool},
      RamOk own isRam r → own root = some (.node t 4 0) →
      vaStart + (i + n) * 4096 ≤ 0x800000000000 →
      mmapPages root vaStart n i r frames = .ok (r', frames', mapped) →
      ∃ own' taken, frames' = frames ++ taken ∧
        AddsPages (PagesLeaf (vaStart + i * 4096) (vaStart + (i + n) * 4096) dataFlags)
          taken t root own r own' r' isRam ∧ (mapped = true →
        PagesOk own' r'.mem t root (vaStart + i * 4096) (vaStart + (i + n) * 4096) true) := by
  induction n with
  | zero =>
    intro i own r frames frames' mapped h _ _ hl
    obtain ⟨rfl, hrest⟩ := Prod.mk.inj (Except.ok.inj hl)
    obtain ⟨rfl, -⟩ := Prod.mk.inj hrest
    exact ⟨own, [], (List.append_nil _).symm, AddsPages.refl h, fun _ va h1 h2 => absurd h2 (by omega)⟩
  | succ n ih =>
    intro i own r frames frames' mapped h hroot hbound hl
    unfold mmapPages at hl
    split at hl
    · obtain ⟨rfl, hrest⟩ := Prod.mk.inj (Except.ok.inj hl)
      obtain ⟨rfl, rfl⟩ := Prod.mk.inj hrest
      exact ⟨own, [], (List.append_nil _).symm, AddsPages.refl h, fun hc => (by cases hc)⟩
    · rename_i p r₁ halloc
      obtain ⟨frames₁, hpush, hl⟩ := Kernel.bind_eq_ok hl
      obtain ⟨r₂, hmap, hl⟩ := Kernel.bind_eq_ok hl
      obtain ⟨-, rfl⟩ := pushFrame_eq_ok hpush
      obtain ⟨own₁, adds, -, page⟩ := mapFresh_spec (w := true) h hroot (by omega) (by omega) halloc
        (fun f _ => Memory.SameFrame.refl _ _) (by decide) (by decide) (by decide) hmap
      rw [← Nat.add_assoc, Nat.add_right_comm] at hbound ⊢
      obtain ⟨own', taken, rfl, adds', pages⟩ :=
        ih (i + 1) adds.ok (adds.grows.keeps _ _ hroot) hbound hl
      rw [show vaStart + (i + 1) * 4096 = vaStart + i * 4096 + 4096 by omega] at pages adds'
      refine ⟨own', p :: taken, List.append_assoc .., AddsPages.trans
        (adds.widen (Nat.le_refl _) (page_le _ _ _))
        (adds'.widen (Nat.le_add_right _ _) (Nat.le_refl _)), fun hmapped => ?_⟩
      have pages := pages hmapped
      refine pages.cons (by omega) fun va hva => ?_
      exact (page va hva).mono (by omega) adds'.grows.keeps adds'.keeps

/-- **The page loop of a device window** maps pages that are not memory. -/
theorem mapDevicePages_spec {virtBase physBase : Nat} (hva : virtBase % 4096 = 0) {n : Nat} :
    ∀ (i : Nat) {own : Owners Nat} {r : Ram}, RamOk own isRam r → own root = some (.node t 4 0) →
      virtBase + (i + n) * 4096 ≤ 0x800000000000 →
      (∀ j, i ≤ j → j < i + n → ¬ isRam (physAddr (physBase + j * 4096))) →
      mapDevicePages root virtBase physBase n (i * 4096) r = .ok r' →
      ∃ own', AddsPages
        (PagesLeaf (virtBase + i * 4096) (virtBase + (i + n) * 4096) deviceFlags)
        [] t root own r own' r' isRam := by
  induction n with
  | zero =>
    intro i own r h _ _ _ hl
    obtain rfl := Except.ok.inj hl
    exact ⟨own, AddsPages.refl h⟩
  | succ n ih =>
    intro i own r h hroot hbound hdev hl
    obtain ⟨r₁, hmap, hl⟩ := Kernel.bind_eq_ok hl
    obtain ⟨own₁, ok₁, grows₁, takes₁, maps⟩ := map4k_spec h hroot (by omega)
      (Or.inr (hdev i (Nat.le_refl _) (by omega))) (by decide) hmap
    rw [show i * 4096 + 4096 = (i + 1) * 4096 by omega] at hl
    rw [← Nat.add_assoc, Nat.add_right_comm] at hbound ⊢
    obtain ⟨own', adds⟩ := ih (i + 1) ok₁ (grows₁.keeps _ _ hroot) hbound
      (fun j h1 h2 => hdev j (by omega) (by omega)) hl
    have adds₁ := AddsPages.mk ⟨ok₁, grows₁, maps.keeps⟩ (maps.only (by omega)) takes₁
    rw [show virtBase + (i + 1) * 4096 = virtBase + i * 4096 + 4096 by omega] at adds
    exact ⟨own', AddsPages.trans (adds₁.widen (Nat.le_refl _) (page_le _ _ _))
      (adds.widen (Nat.le_add_right _ _) (Nat.le_refl _))⟩

/-- A mapping operation does not change what another tree translates. -/
theorem Grows.walk_other {t' va : Nat} (hg : Grows t' own r own' r' isRam) (ok : RamOk own isRam r)
    (hroot : own root = some (.node t 4 0)) (hne : t ≠ t') (hv : va < 0x800000000000) :
    walk r'.mem root va = walk r.mem root va := by
  refine ok.tables.walk_congr hroot (fun f k p hf => hg.contents f _ hf ?_) hv
  rintro ⟨k', p', he⟩
  exact hne (Owner.node.inj he).1

/-! ## Address spaces -/

/-- **The address space of shard `t`** is what its descriptor says: the page tables hang
from `pml4_phys`, and whatever the buffer checks accept is mapped accordingly. -/
structure SpaceOk (own : Owners Nat) (m : Memory) (t : Nat) (d : ShardDescriptor) : Prop where
  root : own d.pml4Phys = some (.node t 4 0)
  kstack : own d.kernelStackPhys = some (.held t)
  low : ∀ va, readRegions d va (va + 1) ∨ writeRegions d va (va + 1) → va < 0x800000
  read : ∀ va, readRegions d va (va + 1) → PageOk own m t d.pml4Phys va false
  write : ∀ va, writeRegions d va (va + 1) → PageOk own m t d.pml4Phys va true

theorem readRegions_congr {d d' : ShardDescriptor} (h : d'.space = d.space) :
    readRegions d' = readRegions d := by
  obtain ⟨-, -, -, h0, -, -, h3, h4, -, -⟩ := Space.mk.inj h
  unfold readRegions dataRegions
  rw [h0, h3, h4]

namespace SpaceOk
variable {m m' : Memory} {d d' : ShardDescriptor}

theorem of_space (h : SpaceOk own m t d) (hs : d'.space = d.space) : SpaceOk own m t d' := by
  have hroot : d'.pml4Phys = d.pml4Phys := congrArg Space.pml4Phys hs
  have hstack : d'.kernelStackPhys = d.kernelStackPhys := congrArg Space.kernelStackPhys hs
  constructor
  · rw [hroot]
    exact h.root
  · rw [hstack]
    exact h.kstack
  · rw [readRegions_congr hs, writeRegions_congr hs]
    exact h.low
  · rw [readRegions_congr hs, hroot]
    exact h.read
  · rw [writeRegions_congr hs, hroot]
    exact h.write

/-- More owners, and every page of this address space mapped as before. -/
theorem mono (h : SpaceOk own m t d) (hx : own.Extends own') (hk : KeepsPages d.pml4Phys m m') :
    SpaceOk own' m' t d where
  root := hx _ _ h.root
  kstack := hx _ _ h.kstack
  low := h.low
  read va hva := (h.read va hva).mono (by have := h.low va (Or.inl hva); omega) hx hk
  write va hva := (h.write va hva).mono (by have := h.low va (Or.inr hva); omega) hx hk

theorem setFrames (h : SpaceOk own m t d) (frames : List Nat) :
    SpaceOk own m t { d with allocatedFrames := frames } :=
  ⟨h.root, h.kstack, h.low, h.read, h.write⟩

/-- Pages were added to another address space. -/
theorem grows_other {t' : Nat} (h : SpaceOk own r.mem t d) (ok : RamOk own isRam r)
    (hg : Grows t' own r own' r' isRam) (hne : t ≠ t') : SpaceOk own' r'.mem t d := by
  refine h.mono hg.keeps fun va leaf hv hw => ?_
  rw [hg.walk_other ok h.root hne hv, hw]

/-- Bytes were stored through some address space. -/
theorem touch {t' root' : Nat} (h : SpaceOk own m t d) (ok : TablesOk own isRam m)
    (hroot : own root' = some (.node t' 4 0)) (ht : Touches isRam root' m m') :
    SpaceOk own m' t d := by
  refine h.mono (Owners.Extends.refl own) fun va leaf hv hw => ?_
  rw [ok.walk_touch hroot ht h.root hv, hw]

end SpaceOk

/-- **The frames of tree `t`** are the root table, the tables that hang from it, and the
frames the descriptor lists after the root. -/
structure FramesOk (own : Owners Nat) (m : Memory) (t : Nat) (d : ShardDescriptor) : Prop where
  linked : Linked own m t
  root : ∀ f k p, 4 ≤ k → own f = some (.node t k p) → f = d.pml4Phys
  listed : ∃ rest, d.allocatedFrames = d.pml4Phys :: rest ∧ rest.Nodup ∧
    ∀ f, IsData own t f ↔ f ∈ rest

namespace FramesOk
variable {m m' : Memory} {d d' : ShardDescriptor}

theorem of_fields (h : FramesOk own m t d) (hroot : d'.pml4Phys = d.pml4Phys)
    (hframes : d'.allocatedFrames = d.allocatedFrames) : FramesOk own m t d' := by
  refine ⟨h.linked, ?_, ?_⟩
  · rw [hroot]
    exact h.root
  · rw [hroot, hframes]
    exact h.listed

theorem of_space (h : FramesOk own m t d) (hs : d'.space = d.space) : FramesOk own m t d' :=
  h.of_fields (congrArg Space.pml4Phys hs) (congrArg Space.allocatedFrames hs)

/-- Pages were added, and their frames listed. -/
theorem adds {new : Nat → Leaf → Prop} {frames : List Nat} (h : FramesOk own r.mem t d)
    (ha : AddsPages new frames t root own r own' r' isRam) (hroot : d'.pml4Phys = d.pml4Phys)
    (hframes : d'.allocatedFrames = d.allocatedFrames ++ frames) : FramesOk own' r'.mem t d' := by
  obtain ⟨rest, hrest, hnodup, hdata⟩ := h.listed
  refine ⟨ha.takes.linked h.linked, fun f k p hk hf => ?_, rest ++ frames, ?_, ?_, fun f => ?_⟩
  · rw [hroot]
    exact h.root f k p hk (ha.takes.root f k p hk hf)
  · rw [hframes, hrest, hroot]
    rfl
  · refine List.nodup_append.mpr ⟨hnodup, ha.takes.nodup, fun f hf g hg he => ?_⟩
    subst he
    exact ((hdata f).mpr hf).owned (ha.takes.fresh f hg)
  · rw [ha.takes.data, hdata, List.mem_append]

/-- Pages were added to another address space. -/
theorem grows_other {t' : Nat} (h : FramesOk own r.mem t d) (hg : Grows t' own r own' r' isRam)
    (hne : t ≠ t') : FramesOk own' r'.mem t d := by
  have hold : ∀ f o, own' f = some o → OfTree t o → own f = some o := by
    intro f o hf ho
    exact (hg.adds f o hf).resolve_right fun ho' => hne (ho.unique ho')
  refine ⟨hg.linked h.linked fun f k p hf => Or.inl (hold f _ hf rfl),
    fun f k p hk hf => h.root f k p hk (hold f _ hf rfl), ?_⟩
  obtain ⟨rest, hrest, hnodup, hdata⟩ := h.listed
  refine ⟨rest, hrest, hnodup, fun f => Iff.trans ⟨fun hd => ?_, fun hd => ?_⟩ (hdata f)⟩
  · exact hd.imp (fun ⟨p, hf⟩ => ⟨p, hold f _ hf rfl⟩) fun hf => hold f _ hf rfl
  · exact hd.imp (fun ⟨p, hf⟩ => ⟨p, hg.keeps _ _ hf⟩) fun hf => hg.keeps _ _ hf

/-- Memory changed outside the tables. -/
theorem setMem (h : FramesOk own m t d) (ok : TablesOk own isRam m)
    (hs : ∀ f o, own f = some o → o.isTable = true → Memory.SameFrame m m' f) :
    FramesOk own m' t d := by
  refine ⟨fun f k p hf hk => ?_, h.root, h.listed⟩
  obtain ⟨g, ho, hp, ha⟩ := h.linked f k p hf hk
  have he := entryAt_congr (hs g _ ho rfl) (ok.ram g _ ho).2.1 (Nat.mod_lt p (by decide : 0 < 512))
  exact ⟨g, ho, by rw [he]; exact hp, by rw [he]; exact ha⟩

end FramesOk

/-- A validated buffer lies in its region byte by byte. -/
theorem InRegion.read_byte {d : ShardDescriptor} {ptr len va : Nat}
    (h : InRegion (readRegions d) ptr len) (h1 : ptr ≤ va) (h2 : va < ptr + len) :
    readRegions d va (va + 1) := by
  have hr := h.region
  unfold readRegions dataRegions at *
  omega

theorem InRegion.write_byte {d : ShardDescriptor} {ptr len va : Nat}
    (h : InRegion (writeRegions d) ptr len) (h1 : ptr ≤ va) (h2 : va < ptr + len) :
    writeRegions d va (va + 1) := by
  have hr := h.region
  unfold writeRegions dataRegions at *
  omega

/-- A buffer that may be written lies in the lower half, in writable pages of memory. -/
theorem SpaceOk.writableRam {m : Memory} {d : ShardDescriptor} {ptr len n : Nat}
    (h : SpaceOk own m t d) (ok : TablesOk own isRam m) (hr : InRegion (writeRegions d) ptr len)
    (hn : n ≤ len) : ptr + n ≤ 0x800000000000 ∧ WritableRam isRam m d.pml4Phys ptr n := by
  have hpos := hr.pos
  have hshort := hr.short
  constructor
  · have hlow := h.low ptr (Or.inr (hr.write_byte (Nat.le_refl _) (by omega)))
    omega
  · intro a h1 h2
    obtain ⟨leaf, hw, -, hp, ho⟩ := h.write a (hr.write_byte h1 (by omega))
    exact ⟨leaf, hw, hp rfl, (ok.ram _ _ ho).1⟩

/-- `mmap` extends the data region by the pages it has mapped. -/
theorem SpaceOk.extendData {m : Memory} {d : ShardDescriptor} {vaStart n : Nat}
    (h : SpaceOk own m t d) (hok : MmapOk d vaStart n)
    (hp : PagesOk own m t d.pml4Phys vaStart (vaStart + n * 4096) true) :
    SpaceOk own m t (extendData d vaStart (vaStart + n * 4096)) := by
  obtain ⟨a, b, he, hab⟩ := extendData_eq d vaStart (vaStart + n * 4096)
  have hadj := hok.adjacent
  have hstack : vaStart + n * 4096 ≤ 0x7FF000 := hok.stack
  rw [he]
  -- an address of the new data region is in the old one or in the new pages
  have hdata : ∀ va, dataRegions { d with dataStart := a, dataEnd := b } va (va + 1) →
      dataRegions d va (va + 1) ∨ (vaStart ≤ va ∧ va < vaStart + n * 4096) := by
    intro va hva
    unfold dataRegions at *
    simp only at hva
    omega
  have hread : ∀ va, readRegions { d with dataStart := a, dataEnd := b } va (va + 1) →
      readRegions d va (va + 1) ∨ (vaStart ≤ va ∧ va < vaStart + n * 4096) := fun va hva =>
    hva.elim (fun hi => Or.inl (Or.inl hi)) fun hd => (hdata va hd).imp_left Or.inr
  have hwrite : ∀ va, writeRegions { d with dataStart := a, dataEnd := b } va (va + 1) →
      writeRegions d va (va + 1) ∨ (vaStart ≤ va ∧ va < vaStart + n * 4096) := fun va hva =>
    hva.elim (fun hi => Or.inl (Or.inl hi)) fun hd => (hdata va hd).imp_left Or.inr
  refine ⟨h.root, h.kstack, fun va hva => ?_, fun va hva => ?_, fun va hva => ?_⟩
  · rcases hva.imp (hread va) (hwrite va) with (hva | hva) | (hva | hva)
    · exact h.low va (Or.inl hva)
    · omega
    · exact h.low va (Or.inr hva)
    · omega
  · rcases hread va hva with hva | hva
    · exact h.read va hva
    · exact (hp va hva.1 hva.2).weaken
  · rcases hwrite va hva with hva | hva
    · exact h.write va hva
    · exact hp va hva.1 hva.2

end Coconut
