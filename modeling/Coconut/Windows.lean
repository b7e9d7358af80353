import Coconut.Boot
import Coconut.PageMap
import Mathlib.Data.List.Nodup

/-!
# Windows: `map_4k` over a range of pages

The loops that map a device window call `map_4k` for one page after the other
(`mapEach`).  On a tree of page tables such a loop maps exactly its pages, and it stops at
the assertion of `map_4k` only if one of them was mapped before or occurs twice.  Nothing is
asked of the physical addresses: the loops are as good for a BAR that overlaps memory.

The trees are those of `PageMap`.  `RamOk.treeOk` finds one in the lower half of every
address space that the ownership map describes.
-/
namespace Coconut
open Paging

/-! ## The loop -/

/-- Map pages one after the other, each given by its virtual and its physical address. -/
def mapEach (root flags : Nat) : List (Nat × Nat) → Ram → Kernel Ram
  | [], r => .ok r
  | (virt, phys) :: rest, r => do
    let r ← map4k r root virt phys flags
    mapEach root flags rest r

theorem mapEach_append (root flags : Nat) (xs ys : List (Nat × Nat)) (r : Ram) :
    mapEach root flags (xs ++ ys) r = mapEach root flags xs r >>= mapEach root flags ys := by
  induction xs generalizing r with
  | nil => rfl
  | cons x xs ih =>
    rw [List.cons_append, mapEach, mapEach, bind_assoc]
    exact bind_congr ih

/-- What a loop over `pages` does to the tree. -/
structure MapsEach (limit root flags : Nat) (pages : List (Nat × Nat)) (r : Ram)
    (tab' : TableMap) (r' : Ram) : Prop where
  tree : TreeOk limit tab' r' root
  before : ∀ x ∈ pages, ∀ a, translate r.mem 4 root (pageOf x.1) a = none
  distinct : (pages.map fun x => pageOf x.1).Nodup
  page : ∀ x ∈ pages, ∀ a, ∃ a', translate r'.mem 4 root (pageOf x.1) a =
    some ⟨physAddr x.2, flags ||| ptePresent, a'⟩
  other : ∀ l, l < limit → (∀ x ∈ pages, l ≠ pageOf x.1) → ∀ a,
    translate r'.mem 4 root l a = translate r.mem 4 root l a
  small : ∀ l, l < limit → SmallPath r.mem 4 root l → SmallPath r'.mem 4 root l

section Loop
variable {limit root flags : Nat} {tab : TableMap} {r r' : Ram}

/-- The page just mapped is not mapped again by the rest of the loop. -/
theorem MapsEach.cons {tab₁ tab' : TableMap} {r₁ : Ram} {x : Nat × Nat} {pages : List (Nat × Nat)}
    (hx : pageOf x.1 < limit) (hpages : ∀ y ∈ pages, pageOf y.1 < limit)
    (h : MapsOn limit root (pageOf x.1) (physAddr x.2) flags tab r tab₁ r₁)
    (h' : MapsEach limit root flags pages r₁ tab' r') :
    MapsEach limit root flags (x :: pages) r tab' r' := by
  have hne : ∀ y ∈ pages, pageOf y.1 ≠ pageOf x.1 := by
    intro y hy he
    obtain ⟨a', hpage⟩ := h.page Perms.full
    have hnone := h'.before y hy Perms.full
    rw [he, hpage] at hnone
    cases hnone
  refine ⟨h'.tree, ?_, ?_, ?_, ?_, fun l hl hs => h'.small l hl (h.small l hl hs)⟩
  · intro y hy a
    rcases List.mem_cons.mp hy with rfl | hy
    · exact h.before a
    · rw [← h.other _ (hpages y hy) (hne y hy)]
      exact h'.before y hy a
  · rw [List.map_cons, List.nodup_cons]
    refine ⟨?_, h'.distinct⟩
    rintro hmem
    obtain ⟨y, hy, he⟩ := List.mem_map.mp hmem
    exact hne y hy he
  · intro y hy a
    rcases List.mem_cons.mp hy with rfl | hy
    · rw [h'.other _ hx fun z hz => (hne z hz).symm]
      exact h.page a
    · exact h'.page y hy a
  · intro l hl hout a
    rw [h'.other l hl (fun y hy => hout y (List.mem_cons_of_mem _ hy)),
      h.other l hl (hout x (List.mem_cons_self ..))]

/-- **The loop maps exactly its pages.** -/
theorem mapEach_tree (hflags : FlagsOk flags) {pages : List (Nat × Nat)}
    (hpages : ∀ x ∈ pages, pageOf x.1 < limit) (h : TreeOk limit tab r root)
    (hsp : ∀ x ∈ pages, SmallPath r.mem 4 root (pageOf x.1))
    (hm : mapEach root flags pages r = .ok r') :
    ∃ tab', MapsEach limit root flags pages r tab' r' := by
  induction pages generalizing tab r with
  | nil =>
    obtain rfl := Except.ok.inj hm
    exact ⟨tab, h, nofun, List.nodup_nil, nofun, fun _ _ _ _ => rfl, fun _ _ hs => hs⟩
  | cons x pages ih =>
    have hx := hpages x (List.mem_cons_self ..)
    have hrest : ∀ y ∈ pages, pageOf y.1 < limit := fun y hy => hpages y (List.mem_cons_of_mem _ hy)
    obtain ⟨r₁, hmap, hm⟩ := Kernel.bind_eq_ok hm
    obtain ⟨tab₁, maps⟩ := map4k_tree_masked h hx (hsp x (List.mem_cons_self ..)) hflags hmap
    obtain ⟨tab', each⟩ := ih hrest maps.tree
      (fun y hy => maps.small _ (hrest y hy) (hsp y (List.mem_cons_of_mem _ hy))) hm
    exact ⟨tab', each.cons hx hrest maps⟩

/-- **The loop finds a page mapped only if one was** before the loop, or if the loop names it
twice. -/
theorem mapEach_taken (hflags : FlagsOk flags) {pages : List (Nat × Nat)}
    (hpages : ∀ x ∈ pages, pageOf x.1 < limit) (h : TreeOk limit tab r root)
    (hsp : ∀ x ∈ pages, SmallPath r.mem 4 root (pageOf x.1))
    (hdistinct : (pages.map fun x => pageOf x.1).Nodup)
    (hm : mapEach root flags pages r = .error .alreadyMapped) :
    ∃ x ∈ pages, ∀ a, translate r.mem 4 root (pageOf x.1) a ≠ none := by
  induction pages generalizing tab r with
  | nil => cases hm
  | cons x pages ih =>
    have hx := hpages x (List.mem_cons_self ..)
    have hrest : ∀ y ∈ pages, pageOf y.1 < limit := fun y hy => hpages y (List.mem_cons_of_mem _ hy)
    rw [List.map_cons, List.nodup_cons] at hdistinct
    rcases Kernel.bind_eq_error hm with hm | ⟨r₁, hmap, hm⟩
    · exact ⟨x, List.mem_cons_self .., map4k_taken h hx (hsp x (List.mem_cons_self ..)) hm⟩
    · obtain ⟨tab₁, maps⟩ := map4k_tree_masked h hx (hsp x (List.mem_cons_self ..)) hflags hmap
      obtain ⟨y, hy, htaken⟩ := ih hrest maps.tree
        (fun y hy => maps.small _ (hrest y hy) (hsp y (List.mem_cons_of_mem _ hy))) hdistinct.2 hm
      refine ⟨y, List.mem_cons_of_mem _ hy, fun a => ?_⟩
      rw [← maps.other _ (hrest y hy) fun he => hdistinct.1 (List.mem_map.mpr ⟨y, hy, he⟩)]
      exact htaken a

/-- The loop leaves the contents of other frames alone. -/
theorem mapEach_sameFrame (hflags : FlagsOk flags) {pages : List (Nat × Nat)}
    (hpages : ∀ x ∈ pages, pageOf x.1 < limit) (h : TreeOk limit tab r root)
    (hsp : ∀ x ∈ pages, SmallPath r.mem 4 root (pageOf x.1)) {f : Nat} (hf : tab f = none)
    (hl : r.Live f) (hm : mapEach root flags pages r = .ok r') :
    Memory.SameFrame r.mem r'.mem f ∧ r'.Live f ∧ ∃ tab', TreeOk limit tab' r' root ∧ tab' f = none := by
  induction pages generalizing tab r with
  | nil =>
    obtain rfl := Except.ok.inj hm
    exact ⟨Memory.SameFrame.refl _ _, hl, tab, h, hf⟩
  | cons x pages ih =>
    have hx := hpages x (List.mem_cons_self ..)
    have hspx := hsp x (List.mem_cons_self ..)
    have hrest : ∀ y ∈ pages, pageOf y.1 < limit := fun y hy => hpages y (List.mem_cons_of_mem _ hy)
    obtain ⟨r₁, hmap, hm⟩ := Kernel.bind_eq_ok hm
    obtain ⟨tab₁, maps⟩ := map4k_tree_masked h hx hspx hflags hmap
    obtain ⟨hf₁, hl₁⟩ := maps.grows.not_table maps.tree hf hl
    obtain ⟨hsame, hrest'⟩ := ih hrest maps.tree
      (fun y hy => maps.small _ (hrest y hy) (hsp y (List.mem_cons_of_mem _ hy))) hf₁ hl₁ hm
    exact ⟨(map4k_sameFrame hf hl h hx hspx hmap).trans hsame, hrest'⟩

end Loop

/-! ## Device windows -/

/-- The pages of a window of `n` pages. -/
def windowList (virtBase physBase n : Nat) : List (Nat × Nat) :=
  (List.range' 0 n).map fun j => (virtBase + j * 4096, physBase + j * 4096)

theorem mem_windowList {virtBase physBase n : Nat} {x : Nat × Nat} :
    x ∈ windowList virtBase physBase n ↔
      ∃ j, j < n ∧ x = (virtBase + j * 4096, physBase + j * 4096) := by
  unfold windowList
  simp only [List.mem_map, List.mem_range'_1, Nat.zero_le, true_and, Nat.zero_add]
  exact ⟨fun ⟨j, hj, he⟩ => ⟨j, hj, he.symm⟩, fun ⟨j, hj, he⟩ => ⟨j, hj, he.symm⟩⟩

theorem mapDevicePages_eq_mapEach (root virtBase physBase : Nat) {n : Nat} : ∀ (i : Nat) (r : Ram),
    mapDevicePages root virtBase physBase n (i * 4096) r = mapEach root deviceFlags
      ((List.range' i n).map fun j => (virtBase + j * 4096, physBase + j * 4096)) r := by
  induction n with
  | zero =>
    intro i r
    rfl
  | succ n ih =>
    intro i r
    rw [List.range'_succ, List.map_cons, mapDevicePages, mapEach]
    refine congrArg _ (funext fun r₁ => ?_)
    rw [← ih (i + 1) r₁, Nat.succ_mul]

theorem mapDevicePages_eq (root virtBase physBase n : Nat) (r : Ram) :
    mapDevicePages root virtBase physBase n 0 r =
      mapEach root deviceFlags (windowList virtBase physBase n) r := by
  have h := mapDevicePages_eq_mapEach root virtBase physBase (n := n) 0 r
  rwa [Nat.zero_mul] at h

theorem pageOf_add_pages (virt j : Nat) :
    pageOf (virt + j * 4096) = (virt / 4096 + j) % 2 ^ 36 := by
  rw [pageOf, Nat.add_mul_div_right _ _ (by decide)]

/-- A window below 2^48 names its pages in order. -/
theorem pageOf_window {virtBase j n : Nat} (h : virtBase + n * 4096 ≤ 2 ^ 48) (hj : j < n) :
    pageOf (virtBase + j * 4096) = virtBase / 4096 + j := by
  rw [pageOf_add_pages, Nat.mod_eq_of_lt]
  omega

/-- No page occurs twice in a window of at most 2^36 pages. -/
theorem windowList_distinct (virtBase physBase : Nat) {n : Nat} (hn : n ≤ 2 ^ 36) :
    ((windowList virtBase physBase n).map fun x => pageOf x.1).Nodup := by
  unfold windowList
  rw [List.map_map]
  refine List.Nodup.map_on ?_ (List.nodup_range' (h := Nat.one_pos))
  intro i hi j hj he
  rw [List.mem_range'_1] at hi hj
  simp only [Function.comp_apply, pageOf_add_pages] at he
  omega

/-! ## The trees of shards -/

/-- The tables of tree `t`. -/
def treeTables (own : Owners Nat) (t : Nat) : TableMap := fun f =>
  match own f with
  | some (.node t' (k + 1) p) => if t' = t then some (k + 1, p) else none
  | _ => none

theorem treeTables_eq_some {own : Owners Nat} {t f k p : Nat} :
    treeTables own t f = some (k, p) ↔ ∃ j, k = j + 1 ∧ own f = some (.node t (j + 1) p) := by
  unfold treeTables
  constructor
  · intro h
    split at h
    · rename_i t' j q ho
      split at h
      · rename_i ht
        obtain ⟨rfl, rfl⟩ := Prod.mk.inj (Option.some.inj h)
        exact ⟨j, rfl, by rw [ho, ht]⟩
      · cases h
    · cases h
  · rintro ⟨j, rfl, ho⟩
    rw [ho]
    exact if_pos rfl

section TreeOfShard
variable {own : Owners Nat} {isRam : Nat → Prop} {r : Ram} {t root : Nat}

/-- An entry on the way to a page of the lower half that leads further leads to a table. -/
theorem RamOk.next_table (h : RamOk own isRam r) {f k p i : Nat}
    (hf : own f = some (.node t (k + 1) p)) (hk : k ≠ 0) (hi : i < 512)
    (hlow : (p * 512 + i) * 512 ^ k < 2 ^ 35) (hp : isPresent (entryAt r.mem f i) = true) :
    hasFlag (entryAt r.mem f i) ptePageSize = false ∧
      own (physAddr (entryAt r.mem f i)) = some (.node t k (p * 512 + i)) := by
  cases h.tables.tree f t k p hf i hi with
  | absent hn =>
    rw [hp] at hn
    cases hn
  | upper hk3 hup =>
    subst hk3
    omega
  | table _ _ _ _ _ hs ho => exact ⟨hs, ho⟩
  | page hk0 => exact absurd hk0 hk
  | device hk0 => exact absurd hk0 hk

/-- **The lower half of an address space is a tree.** -/
theorem RamOk.treeOk (h : RamOk own isRam r) (hroot : own root = some (.node t 4 0)) :
    TreeOk (2 ^ 35) (treeTables own t) r root := by
  refine ⟨h.wellFormed, ?_, by decide, treeTables_eq_some.mpr ⟨3, rfl, hroot⟩, ?_, ?_, ?_⟩
  · rintro f ⟨k, p⟩ hf hm
    obtain ⟨j, -, ho⟩ := treeTables_eq_some.mp hf
    exact h.owned_live f _ ho hm
  · rintro f ⟨k, p⟩ hf
    obtain ⟨j, -, ho⟩ := treeTables_eq_some.mp hf
    exact (h.tables.ram f _ ho).2.1
  · intro f k p hf
    obtain ⟨j, hj, -⟩ := treeTables_eq_some.mp hf
    omega
  · intro f k p i hf hk hi hlow hp _
    obtain ⟨j, hj, ho⟩ := treeTables_eq_some.mp hf
    obtain rfl : k = j := by omega
    obtain ⟨j', rfl⟩ := Nat.exists_eq_succ_of_ne_zero hk
    exact treeTables_eq_some.mpr ⟨j', rfl, (h.next_table ho hk hi hlow hp).2⟩

/-- No large page lies on a way in the lower half. -/
theorem RamOk.smallPath (h : RamOk own isRam r) {n : Nat} (hn : n < 2 ^ 35) {k f : Nat}
    (hf : k ≠ 0 → own f = some (.node t k (n / 512 ^ k))) : SmallPath r.mem k f n := by
  induction k generalizing f with
  | zero => trivial
  | succ k ih =>
    intro hp hk
    have hlow : n / 512 ^ k * 512 ^ k < 2 ^ 35 := Nat.lt_of_le_of_lt (Nat.div_mul_le_self _ _) hn
    rw [path_succ] at hlow
    obtain ⟨hs, ho⟩ := h.next_table (hf (Nat.succ_ne_zero k)) hk (pageIndex_lt k n) hlow hp
    rw [← path_succ] at ho
    exact ⟨hs, ih fun _ => ho⟩

theorem RamOk.smallPath_root (h : RamOk own isRam r) (hroot : own root = some (.node t 4 0))
    {n : Nat} (hn : n < 2 ^ 35) : SmallPath r.mem 4 root n := by
  refine h.smallPath (t := t) hn fun _ => ?_
  rw [path_root (Nat.lt_trans hn (by decide)), hroot]

end TreeOfShard

theorem canonical_lower {va : Nat} (h : va < 0x800000000000) : canonical va = true := by
  rw [canonical, decide_eq_true h, Bool.true_or]

/-- The walk of an address whose page is translated. -/
theorem walk_of_translate {m : Memory} {root va : Nat} {t : Translation} (hcan : canonical va = true)
    (h : translate m 4 root (pageOf va) Perms.full = some t) : ∃ leaf,
      walk m root va = some leaf ∧ leaf.phys = t.frame + va % 4096 := by
  rw [walk, if_pos hcan, walkFrom_eq_translate _ (by decide), h]
  exact ⟨_, rfl, rfl⟩

/-- What the walk does not find has no translation. -/
theorem translate_of_walk_none {m : Memory} {root n : Nat} (hn : n < 2 ^ 35)
    (h : walk m root (n * 4096) = none) : translate m 4 root n Perms.full = none := by
  have hpage : pageOf (n * 4096) = n := by
    unfold pageOf
    omega
  rw [walk_lower (by omega), walkFrom_eq_translate _ (by decide), hpage] at h
  exact Option.map_eq_none_iff.mp h

end Coconut
