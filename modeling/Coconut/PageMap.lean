import Coconut.AddressSpace
import Coconut.PageTree

/-!
# `map_4k` and `unmap_4k` on a page-table tree

The two operations against the finite map of `PageTree`: on a well-formed tree whose
tables are allocated, `map_4k` adds one page to the map and `unmap_4k` removes one.  The
tree may be any tree: that of a shard or of the supervisor, with large pages elsewhere.
-/
namespace Coconut
open Paging

/-- A tree of page tables in memory whose tables the allocator does not hand out. -/
structure TreeOk (limit : Nat) (tab : TableMap) (r : Ram) (root : Nat) : Prop where
  wellFormed : r.WellFormed
  allocated : ∀ f x, tab f = some x → r.Managed f → r.Live f
  tree : Tree limit tab r.mem root

/-- What an operation on the way to page `n` may do: it writes entries on that way only,
keeps those that are present, and adds tables that are fresh frames, empty but for the
entry on the way. -/
structure GrowsOn (n : Nat) (tab : TableMap) (r : Ram) (tab' : TableMap) (r' : Ram) : Prop where
  keeps : ∀ f x, tab f = some x → tab' f = some x
  live : ∀ f, r.Live f → r'.Live f
  managed : ∀ f, r'.Managed f ↔ r.Managed f
  off : ∀ f k p, tab f = some (k + 1, p) → ∀ i, i < 512 → i ≠ pageIndex k n →
    entryAt r'.mem f i = entryAt r.mem f i
  present : ∀ f x, tab f = some x → ∀ i, i < 512 → isPresent (entryAt r.mem f i) = true →
    entryAt r'.mem f i = entryAt r.mem f i
  fresh : ∀ f k p, tab' f = some (k + 1, p) → tab f = none → r.Managed f ∧ ¬ r.Live f ∧
    r'.Live f ∧ ∀ i, i < 512 → i ≠ pageIndex k n → entryAt r'.mem f i = 0

namespace GrowsOn
variable {n : Nat} {tab tab' tab'' : TableMap} {r r' r'' : Ram}

theorem refl (n : Nat) (tab : TableMap) (r : Ram) : GrowsOn n tab r tab r where
  keeps _ _ h := h
  live _ h := h
  managed _ := Iff.rfl
  off _ _ _ _ _ _ _ := rfl
  present _ _ _ _ _ _ := rfl
  fresh f k p h hn := by
    rw [h] at hn
    cases hn

theorem trans (h : GrowsOn n tab r tab' r') (h' : GrowsOn n tab' r' tab'' r'') :
    GrowsOn n tab r tab'' r'' where
  keeps f x hf := h'.keeps f x (h.keeps f x hf)
  live f hf := h'.live f (h.live f hf)
  managed f := (h'.managed f).trans (h.managed f)
  off f k p hf i hi hne :=
    (h'.off f k p (h.keeps f _ hf) i hi hne).trans (h.off f k p hf i hi hne)
  present f x hf i hi hp := by
    have he := h.present f x hf i hi hp
    rw [h'.present f x (h.keeps f x hf) i hi (by rw [he]; exact hp), he]
  fresh f k p hf hn := by
    cases hmid : tab' f with
    | none =>
      obtain ⟨hm, hl, hl', hz⟩ := h'.fresh f k p hf hmid
      exact ⟨(h.managed f).mp hm, fun hlive => hl (h.live f hlive), hl', hz⟩
    | some x =>
      have hx : tab' f = some (k + 1, p) := by
        rw [hmid, ← h'.keeps f x hmid, hf]
      obtain ⟨hm, hl, hl', hz⟩ := h.fresh f k p hx hn
      refine ⟨hm, hl, h'.live f hl', ?_⟩
      intro i hi hne
      rw [h'.off f k p hx i hi hne]
      exact hz i hi hne

/-- A link stays where it is. -/
theorem leads {k f next : Nat} {x : Nat × Nat} (h : GrowsOn n tab r tab' r')
    (hf : tab f = some x) (hl : Leads r.mem k f n next) : Leads r'.mem k f n next := by
  unfold Leads at *
  rwa [h.present f x hf _ (pageIndex_lt k n) hl.1]

end GrowsOn

/-- The same translations, and no new large page on a way. -/
structure SamePages (limit root : Nat) (m m' : Memory) : Prop where
  translate : ∀ l, l < limit → ∀ a, translate m' 4 root l a = translate m 4 root l a
  small : ∀ l, l < limit → SmallPath m 4 root l → SmallPath m' 4 root l

theorem SamePages.trans {limit root : Nat} {m m' m'' : Memory} (h : SamePages limit root m m')
    (h' : SamePages limit root m' m'') : SamePages limit root m m'' where
  translate l hl a := (h'.translate l hl a).trans (h.translate l hl a)
  small l hl hs := h'.small l hl (h.small l hl hs)

/-! ## `ensure_table` -/

section EnsureTable
variable {limit : Nat} {tab : TableMap} {r r' : Ram} {root : Nat}

/-- A fresh frame is no table yet. -/
theorem TreeOk.unused (h : TreeOk limit tab r root) {c : Nat} (hc : r.Allocated c r') :
    tab c = none := by
  cases hx : tab c with
  | none => rfl
  | some x => exact absurd (h.allocated c x hx hc.managed) hc.fresh

/-- The memory in which `c`, zeroed, hangs at entry `i` of `f`. -/
def linkMem (m : Memory) (f i c e : Nat) : Memory := (m.fill c 4096 0).writeU64 (f + 8 * i) e

section Link
variable {m : Memory} {f i c e : Nat} (hf : f % 4096 = 0) (hc : c % 4096 = 0) (hfc : f ≠ c)
  (hi : i < 512)
include hf hc hi

include hfc in
theorem entryAt_linkMem_new {j : Nat} (hj : j < 512) : entryAt (linkMem m f i c e) c j = 0 := by
  rw [linkMem, entryAt_writeU64_of_ne _ hc hf hi hj (Or.inl hfc.symm)]
  exact m.readU64_fill_zero (by omega) (by omega)

theorem entryAt_linkMem_other {g j : Nat} (hg : g % 4096 = 0) (hgc : g ≠ c) (hj : j < 512)
    (hne : g ≠ f ∨ j ≠ i) : entryAt (linkMem m f i c e) g j = entryAt m g j := by
  rw [linkMem, entryAt_writeU64_of_ne _ hg hf hi hj hne]
  exact entryAt_congr (m.fill_sameFrame 0 hc hgc) hg hj

end Link

theorem entryAt_linkMem_self (m : Memory) {f i c e : Nat} (he : e < 2 ^ 64) :
    entryAt (linkMem m f i c e) f i = e := entryAt_writeU64_same _ he

/-- `ensure_table` has found entry `i` of `f` absent and hung a fresh frame, zeroed, there. -/
structure Links (r : Ram) (f i flags c : Nat) (r' : Ram) : Prop where
  absent : isPresent (entryAt r.mem f i) = false
  allocated : r.Allocated c r'
  mem : r'.mem = linkMem r.mem f i c (mkEntry c (flags ||| ptePresent))

/-- `ensure_table` finds a table, or makes one. -/
theorem ensureTable_cases (hw : r.WellFormed) {f i flags c : Nat}
    (hr : ensureTable r f i flags = .ok (c, r')) :
    (r' = r ∧ isPresent (entryAt r.mem f i) = true ∧ physAddr (entryAt r.mem f i) = c) ∨
      Links r f i flags c r' := by
  unfold ensureTable at hr
  simp only at hr
  cases hp : isPresent (entryAt r.mem f i) with
  | true =>
    rw [if_pos hp] at hr
    obtain ⟨rfl, rfl⟩ := Prod.mk.inj (Except.ok.inj hr)
    exact Or.inl ⟨rfl, rfl, rfl⟩
  | false =>
    rw [if_neg (by rw [hp]; decide)] at hr
    obtain ⟨⟨q, r₁⟩, hal, hr⟩ := Kernel.bind_eq_ok hr
    obtain ⟨rfl, rfl⟩ := Prod.mk.inj (Except.ok.inj hr)
    obtain ⟨spec, hmem⟩ := Ram.allocFrameZeroed_spec hw (Kernel.expect_eq_ok hal)
    have hw' := spec.wellFormed
    refine Or.inr ⟨hp, ⟨⟨hw'.aligned, hw'.taken, hw'.distinct⟩, spec.managed_iff, spec.managed,
      spec.fresh, spec.live_iff⟩, ?_⟩
    rw [Ram.setEntry, hmem]
    rfl

section Linked
variable {f i k p flags c : Nat} {x : Nat × Nat} (h : TreeOk limit tab r root) (hl : Links r f i flags c r')
include h hl

theorem TreeOk.ne_link {g : Nat} (hg : tab g = some x) : g ≠ c := by
  rintro rfl
  rw [h.unused hl.allocated] at hg
  cases hg

/-- The entries that are kept. -/
theorem TreeOk.link_other (hf : ∃ y, tab f = some y) (hi : i < 512) {g j : Nat} (hg : tab g = some x)
    (hj : j < 512) (hne : g ≠ f ∨ j ≠ i) : entryAt r'.mem g j = entryAt r.mem g j := by
  obtain ⟨y, hy⟩ := hf
  rw [hl.mem]
  exact entryAt_linkMem_other (h.tree.aligned f y hy) (hl.allocated.managed.bounds h.wellFormed).1 hi
    (h.tree.aligned g x hg) (h.ne_link hl hg) hj hne

/-- The new table is empty. -/
theorem TreeOk.link_new (hf : tab f = some x) (hi : i < 512) {j : Nat} (hj : j < 512) :
    entryAt r'.mem c j = 0 := by
  rw [hl.mem]
  exact entryAt_linkMem_new (h.tree.aligned f x hf) (hl.allocated.managed.bounds h.wellFormed).1
    (h.ne_link hl hf) hi hj

/-- The entry that leads to it. -/
theorem TreeOk.link_self (hflags : FlagsOk (flags ||| ptePresent)) :
    entryAt r'.mem f i = mkEntry c (flags ||| ptePresent) ∧ physAddr (entryAt r'.mem f i) = c := by
  obtain ⟨hca, hclt⟩ := hl.allocated.managed.bounds h.wellFormed
  have hself : entryAt r'.mem f i = mkEntry c (flags ||| ptePresent) := by
    rw [hl.mem]
    exact entryAt_linkMem_self r.mem (mkEntry_lt hflags)
  refine ⟨hself, ?_⟩
  rw [hself, physAddr_mkEntry hflags, physAddr_of_aligned hca (by omega)]

theorem TreeOk.link_tree (hf : tab f = some (k + 1, p)) (hk : k ≠ 0) (hi : i < 512)
    (hflags : FlagsOk (flags ||| ptePresent)) :
    TreeOk limit (tab.link c k (p * 512 + i)) r' root := by
  have spec := hl.allocated
  refine ⟨spec.wellFormed, ?_, ?_⟩
  · intro g x hg hm
    by_cases hgc : g = c
    · exact (spec.live_iff g).mpr (Or.inr hgc)
    · rw [tab.link_of_ne hgc] at hg
      exact (spec.live_iff g).mpr (Or.inl (h.allocated g x hg ((spec.managed_iff g).mp hm)))
  · refine h.tree.link hk hf ?_ (h.unused spec) (spec.managed.bounds h.wellFormed).1
      (h.link_self hl hflags).2 ?_
    · intro g x hg j hj hne
      exact h.link_other hl ⟨_, hf⟩ hi hg hj hne
    · intro j hj
      rw [h.link_new hl hf hi hj]
      exact isPresent_zero

theorem TreeOk.link_growsOn {n : Nat} (hf : tab f = some (k + 1, p)) (hi : i = pageIndex k n) :
    GrowsOn n tab r (tab.link c k (p * 512 + i)) r' := by
  have spec := hl.allocated
  have hlt : i < 512 := by
    rw [hi]
    exact pageIndex_lt k n
  refine ⟨?_, fun g hg => (spec.live_iff g).mpr (Or.inl hg), spec.managed_iff, ?_, ?_, ?_⟩
  · intro g x hg
    rw [tab.link_of_ne (h.ne_link hl hg)]
    exact hg
  · intro g k' p' hg j hj hne
    refine h.link_other hl ⟨_, hf⟩ hlt hg hj (Decidable.not_and_iff_or_not.mp ?_)
    rintro ⟨rfl, rfl⟩
    rw [hf] at hg
    cases hg
    exact hne hi
  · intro g x hg j hj hp
    refine h.link_other hl ⟨_, hf⟩ hlt hg hj (Decidable.not_and_iff_or_not.mp ?_)
    rintro ⟨rfl, rfl⟩
    rw [hl.absent] at hp
    cases hp
  · intro g k' p' hg hn
    have hgc : g = c := by
      by_contra hgc
      rw [tab.link_of_ne hgc, hn] at hg
      cases hg
    rw [hgc]
    exact ⟨spec.managed, spec.fresh, (spec.live_iff c).mpr (Or.inr rfl),
      fun j hj _ => h.link_new hl hf hlt hj⟩

theorem TreeOk.link_samePages (hf : tab f = some (k + 1, p)) (hk : k ≠ 0) (hi : i < 512)
    (hflags : FlagsOk (flags ||| ptePresent))
    (hps : hasFlag (flags ||| ptePresent) ptePageSize = false) :
    SamePages limit root r.mem r'.mem := by
  obtain ⟨hself, hphys⟩ := h.link_self hl hflags
  have hother : ∀ g x, tab g = some x → ∀ j, j < 512 → (g ≠ f ∨ j ≠ i) →
      entryAt r'.mem g j = entryAt r.mem g j := fun g x hg j hj hne =>
    h.link_other hl ⟨_, hf⟩ hi hg hj hne
  have hempty : ∀ j, j < 512 → isPresent (entryAt r'.mem (physAddr (entryAt r'.mem f i)) j) = false := by
    intro j hj
    rw [hphys, h.link_new hl hf hi hj]
    exact isPresent_zero
  have hsmall : hasFlag (entryAt r'.mem f i) ptePageSize = false := by
    rw [hself, hasFlag_mkEntry (by decide)]
    exact hps
  refine ⟨fun l hl' a => ?_, fun l hl' hs => ?_⟩
  · exact h.tree.translate_addTable hk hf hl.absent hother hempty hsmall hl' (h.tree.root_on_path hl') a
  · exact h.tree.smallPath_addTable hf hl.absent hother hempty hsmall hl' (h.tree.root_on_path hl') hs

end Linked

/-- **`ensure_table`** returns the table on the way to page `n`, linking a fresh empty one
if the entry was absent; no translation changes. -/
theorem ensureTable_tree (h : TreeOk limit tab r root) {f k c n flags : Nat}
    (hn : n < limit) (hf : tab f = some (k + 1, n / 512 ^ (k + 1))) (hk : k ≠ 0)
    (hsmall : isPresent (entryAt r.mem f (pageIndex k n)) = true →
      hasFlag (entryAt r.mem f (pageIndex k n)) ptePageSize = false)
    (hflags : FlagsOk (flags ||| ptePresent))
    (hps : hasFlag (flags ||| ptePresent) ptePageSize = false)
    (hr : ensureTable r f (pageIndex k n) flags = .ok (c, r')) :
    ∃ tab', TreeOk limit tab' r' root ∧ GrowsOn n tab r tab' r' ∧ tab' c = some (k, n / 512 ^ k) ∧
      Leads r'.mem k f n c ∧ SamePages limit root r.mem r'.mem := by
  rcases ensureTable_cases h.wellFormed hr with ⟨rfl, hp, rfl⟩ | hl
  · exact ⟨tab, h, GrowsOn.refl .., h.tree.next_on_path hn hf hk hp (hsmall hp), ⟨hp, hsmall hp, rfl⟩,
      ⟨fun _ _ _ => rfl, fun _ _ hs => hs⟩⟩
  · have hi := pageIndex_lt k n
    obtain ⟨hself, hphys⟩ := h.link_self hl hflags
    refine ⟨_, h.link_tree hl hf hk hi hflags, h.link_growsOn hl hf rfl, ?_, ⟨?_, ?_, hphys⟩,
      h.link_samePages hl hf hk hi hflags hps⟩
    · rw [tab.link_self, ← path_succ]
    · rw [hself]
      exact isPresent_mkEntry (isPresent_or flags)
    · rw [hself, hasFlag_mkEntry (by decide)]
      exact hps

end EnsureTable

/-! ## Writing the last entry -/

section LastEntry
variable {limit : Nat} {tab : TableMap} {r : Ram} {root t n e : Nat}

/-- What a write to the entry of page `n` in its last table may change. -/
structure WritesPage (limit root n : Nat) (m m' : Memory) : Prop where
  other : ∀ l, l < limit → l ≠ n → ∀ a, translate m' 4 root l a = translate m 4 root l a
  small : ∀ l, l < limit → SmallPath m 4 root l → SmallPath m' 4 root l

/-- An entry of another table, or another entry of the last table, is kept. -/
theorem TreeOk.setEntry_other (h : TreeOk limit tab r root) (ht : tab t = some (1, n / 512 ^ 1))
    {f i : Nat} {x : Nat × Nat} (hf : tab f = some x) (hi : i < 512)
    (hne : f ≠ t ∨ i ≠ pageIndex 0 n) :
    entryAt (r.setEntry t (pageIndex 0 n) e).mem f i = entryAt r.mem f i :=
  entryAt_writeU64_of_ne _ (h.tree.aligned f x hf) (h.tree.aligned t _ ht) (pageIndex_lt 0 n) hi hne

/-- The entry of a page in the last table lies on the way to that page only. -/
theorem TreeOk.setEntry_writesPage (h : TreeOk limit tab r root) (ht : tab t = some (1, n / 512 ^ 1)) :
    WritesPage limit root n r.mem (r.setEntry t (pageIndex 0 n) e).mem := by
  refine ⟨?_, ?_⟩
  · intro l hl hln a
    refine h.tree.translate_congr hl (h.tree.root_on_path hl) ?_ a
    intro j f _ hf
    refine h.setEntry_other ht hf (pageIndex_lt j l) (Decidable.not_and_iff_or_not.mp ?_)
    rintro ⟨rfl, hidx⟩
    rw [ht] at hf
    obtain ⟨hj, hpath⟩ := Prod.mk.inj (Option.some.inj hf)
    obtain rfl : j = 0 := by omega
    -- the same last table and the same index: the same page
    have h1 := path_succ 0 l
    have h2 := path_succ 0 n
    rw [Nat.pow_zero, Nat.div_one] at h1 h2
    exact hln (by rw [h1, h2, hidx, hpath])
  · intro l hl hs
    refine h.tree.smallPath_congr hl (h.tree.root_on_path hl) ?_ hs
    intro j f _ hj hf
    refine h.setEntry_other ht hf (pageIndex_lt j l) (Or.inl ?_)
    rintro rfl
    rw [ht] at hf
    have hlevel := (Prod.mk.inj (Option.some.inj hf)).1
    omega

theorem TreeOk.setEntry_tree (h : TreeOk limit tab r root) (ht : tab t = some (1, n / 512 ^ 1)) :
    TreeOk limit tab (r.setEntry t (pageIndex 0 n) e) root := by
  refine ⟨⟨h.wellFormed.aligned, h.wellFormed.taken, h.wellFormed.distinct⟩, h.allocated,
    h.tree.range, h.tree.root, h.tree.aligned, h.tree.level, ?_⟩
  intro f k p i hf hk hi hlim hp hs
  have hne : f ≠ t := by
    rintro rfl
    rw [ht] at hf
    have hlevel := (Prod.mk.inj (Option.some.inj hf)).1
    omega
  rw [h.setEntry_other ht hf hi (Or.inl hne)] at hp hs ⊢
  exact h.tree.child f k p i hf hk hi hlim hp hs

/-- An absent entry is filled in. -/
theorem TreeOk.setEntry_growsOn (h : TreeOk limit tab r root) (ht : tab t = some (1, n / 512 ^ 1))
    (habs : isPresent (entryAt r.mem t (pageIndex 0 n)) = false) :
    GrowsOn n tab r tab (r.setEntry t (pageIndex 0 n) e) where
  keeps _ _ hf := hf
  live _ hf := hf
  managed _ := Iff.rfl
  off f k p hf i hi hne := by
    refine h.setEntry_other ht hf hi (Decidable.not_and_iff_or_not.mp ?_)
    rintro ⟨rfl, rfl⟩
    rw [ht] at hf
    cases hf
    exact hne rfl
  present f x hf i hi hp := by
    refine h.setEntry_other ht hf hi (Decidable.not_and_iff_or_not.mp ?_)
    rintro ⟨rfl, rfl⟩
    rw [habs] at hp
    cases hp
  fresh f k p hf hn := by
    rw [hf] at hn
    cases hn

end LastEntry

/-! ## `map_4k` -/

theorem parentFlags_ok : FlagsOk (parentFlags ||| ptePresent) := by decide

theorem parentFlags_small : hasFlag (parentFlags ||| ptePresent) ptePageSize = false := by decide

theorem flagsOk_present {flags : Nat} (h : FlagsOk flags) : FlagsOk (flags ||| ptePresent) := by
  refine ⟨?_, Nat.or_lt_two_pow h.2 (by decide)⟩
  rw [Nat.and_or_distrib_right, h.1, Nat.zero_or]
  decide

/-- What `map_4k` of page `n` does to the tree. -/
structure MapsOn (limit root n phys flags : Nat) (tab : TableMap) (r : Ram) (tab' : TableMap)
    (r' : Ram) : Prop where
  tree : TreeOk limit tab' r' root
  grows : GrowsOn n tab r tab' r'
  before : ∀ a, translate r.mem 4 root n a = none
  page : ∀ a, ∃ a', translate r'.mem 4 root n a = some ⟨phys, flags ||| ptePresent, a'⟩
  other : ∀ l, l < limit → l ≠ n → ∀ a, translate r'.mem 4 root l a = translate r.mem 4 root l a
  small : ∀ l, l < limit → SmallPath r.mem 4 root l → SmallPath r'.mem 4 root l

/-- The states that `map_4k` goes through on the way to the last table of page `n`. -/
structure TableChain (limit root n : Nat) (tab : TableMap) (r : Ram) (t₃ : Nat) (tab₁ : TableMap)
    (r₁ : Ram) (t₂ : Nat) (tab₂ : TableMap) (r₂ : Ram) (t₁ : Nat) (tab₃ : TableMap) (r₃ : Ram) :
    Prop where
  tree₁ : TreeOk limit tab₁ r₁ root
  tree₂ : TreeOk limit tab₂ r₂ root
  tree₃ : TreeOk limit tab₃ r₃ root
  grows₁ : GrowsOn n tab r tab₁ r₁
  grows₂ : GrowsOn n tab₁ r₁ tab₂ r₂
  grows₃ : GrowsOn n tab₂ r₂ tab₃ r₃
  same₁ : SamePages limit root r.mem r₁.mem
  same₂ : SamePages limit root r₁.mem r₂.mem
  same₃ : SamePages limit root r₂.mem r₃.mem
  table₃ : tab₁ t₃ = some (3, n / 512 ^ 3)
  table₂ : tab₂ t₂ = some (2, n / 512 ^ 2)
  table₁ : tab₃ t₁ = some (1, n / 512 ^ 1)
  leads₃ : Leads r₁.mem 3 root n t₃
  leads₂ : Leads r₂.mem 2 t₃ n t₂
  leads₁ : Leads r₃.mem 1 t₂ n t₁

/-- **The tables on the way.**  The three `ensure_table` calls of `map_4k` lead to the last
table of the page; they change no translation. -/
theorem ensureTables_chain {limit : Nat} {tab : TableMap} {r r₁ r₂ r₃ : Ram} {root n t₃ t₂ t₁ : Nat}
    (h : TreeOk limit tab r root) (hn : n < limit) (hsp : SmallPath r.mem 4 root n)
    (h3 : ensureTable r root (pageIndex 3 n) parentFlags = .ok (t₃, r₁))
    (h2 : ensureTable r₁ t₃ (pageIndex 2 n) parentFlags = .ok (t₂, r₂))
    (h1 : ensureTable r₂ t₂ (pageIndex 1 n) parentFlags = .ok (t₁, r₃)) :
    ∃ tab₁ tab₂ tab₃, TableChain limit root n tab r t₃ tab₁ r₁ t₂ tab₂ r₂ t₁ tab₃ r₃ := by
  obtain ⟨tab₁, ok₁, gr₁, ht₃, l₃, same₁⟩ := ensureTable_tree h hn (h.tree.root_on_path hn) (by decide)
    (hsp.head (by decide)) parentFlags_ok parentFlags_small h3
  have hsp₁ := (same₁.small n hn hsp).tail (by decide) l₃
  obtain ⟨tab₂, ok₂, gr₂, ht₂, l₂, same₂⟩ := ensureTable_tree ok₁ hn ht₃ (by decide)
    (hsp₁.head (by decide)) parentFlags_ok parentFlags_small h2
  have hsp₂ := (((same₁.trans same₂).small n hn hsp).tail (by decide)
    (gr₂.leads ok₁.tree.root l₃)).tail (by decide) l₂
  obtain ⟨tab₃, ok₃, gr₃, ht₁, l₁, same₃⟩ := ensureTable_tree ok₂ hn ht₂ (by decide)
    (hsp₂.head (by decide)) parentFlags_ok parentFlags_small h1
  exact ⟨tab₁, tab₂, tab₃, ok₁, ok₂, ok₃, gr₁, gr₂, gr₃, same₁, same₂, same₃, ht₃, ht₂, ht₁, l₃, l₂, l₁⟩

namespace TableChain
variable {limit root n t₃ t₂ t₁ : Nat} {tab tab₁ tab₂ tab₃ : TableMap} {r r₁ r₂ r₃ : Ram}
  (h : TableChain limit root n tab r t₃ tab₁ r₁ t₂ tab₂ r₂ t₁ tab₃ r₃)
include h

theorem grows : GrowsOn n tab r tab₃ r₃ := (h.grows₁.trans h.grows₂).trans h.grows₃

theorem same : SamePages limit root r.mem r₃.mem := (h.same₁.trans h.same₂).trans h.same₃

/-- The walk to the last table, in the end. -/
theorem leads : Leads r₃.mem 3 root n t₃ ∧ Leads r₃.mem 2 t₃ n t₂ ∧ Leads r₃.mem 1 t₂ n t₁ :=
  ⟨h.grows₃.leads h.tree₂.tree.root (h.grows₂.leads h.tree₁.tree.root h.leads₃),
    h.grows₃.leads (h.grows₂.keeps _ _ h.table₃) h.leads₂, h.leads₁⟩

/-- The upper two tables, in the end. -/
theorem tables : tab₃ t₃ = some (3, n / 512 ^ 3) ∧ tab₃ t₂ = some (2, n / 512 ^ 2) :=
  ⟨h.grows₃.keeps _ _ (h.grows₂.keeps _ _ h.table₃), h.grows₃.keeps _ _ h.table₂⟩

end TableChain

/-- **`map_4k`** maps one page that was not mapped, and no other translation changes.  The
entry keeps the bits of the physical address that have a place in it. -/
theorem map4k_tree_masked {limit : Nat} {tab : TableMap} {r r' : Ram} {root virt phys flags : Nat}
    (h : TreeOk limit tab r root) (hn : pageOf virt < limit)
    (hsp : SmallPath r.mem 4 root (pageOf virt)) (hflags : FlagsOk flags)
    (hm : map4k r root virt phys flags = .ok r') :
    ∃ tab', MapsOn limit root (pageOf virt) (physAddr phys) flags tab r tab' r' := by
  obtain ⟨t₃, r₁, t₂, r₂, t₁, r₃, h3, h2, h1, habs, -, rfl⟩ := map4k_eq_ok hm
  rw [tableIndex_eq (by decide)] at h3 h2 h1 habs
  rw [tableIndex_eq (by decide)]
  obtain ⟨tab₁, tab₂, tab', chain⟩ := ensureTables_chain h hn hsp h3 h2 h1
  have ok := chain.tree₃
  have same := chain.same
  obtain ⟨l₃, l₂, l₁⟩ := chain.leads
  obtain ⟨ht₃, ht₂⟩ := chain.tables
  have hgr := ok.setEntry_growsOn (e := mkEntry phys (flags ||| ptePresent)) chain.table₁ habs
  have hwr := ok.setEntry_writesPage (e := mkEntry phys (flags ||| ptePresent)) chain.table₁
  have hself := entryAt_writeU64_same r₃.mem (g := t₁) (i := pageIndex 0 (pageOf virt))
    (mkEntry_lt (p := phys) (flagsOk_present hflags))
  refine ⟨tab', ok.setEntry_tree chain.table₁, chain.grows.trans hgr, ?_, ?_, ?_, ?_⟩
  · intro a
    obtain ⟨a', ha⟩ := translate_descend l₃ l₂ l₁ a
    rw [← same.translate _ hn, ha, translate_absent habs]
  · intro a
    obtain ⟨a', ha⟩ := translate_descend (hgr.leads ok.tree.root l₃) (hgr.leads ht₃ l₂)
      (hgr.leads ht₂ l₁) a
    rw [ha]
    refine ⟨a'.through (mkEntry phys (flags ||| ptePresent)), ?_⟩
    rw [Ram.setEntry, translate_last (by rw [hself]; exact isPresent_mkEntry (isPresent_or flags)),
      hself, physAddr_mkEntry (flagsOk_present hflags), entryFlags_mkEntry (flagsOk_present hflags)]
  · intro l hl hln a
    rw [hwr.other l hl hln a, same.translate l hl a]
  · intro l hl hs
    exact hwr.small l hl (same.small l hl hs)

theorem map4k_tree {limit : Nat} {tab : TableMap} {r r' : Ram} {root virt phys flags : Nat}
    (h : TreeOk limit tab r root) (hn : pageOf virt < limit)
    (hsp : SmallPath r.mem 4 root (pageOf virt)) (hpa : phys % 4096 = 0) (hlt : phys < 2 ^ 52)
    (hflags : FlagsOk flags) (hm : map4k r root virt phys flags = .ok r') :
    ∃ tab', MapsOn limit root (pageOf virt) phys flags tab r tab' r' := by
  have hmap := map4k_tree_masked h hn hsp hflags hm
  rwa [physAddr_of_aligned hpa hlt] at hmap

/-- `map_4k` refuses a page as already mapped only if it is. -/
theorem map4k_taken {limit : Nat} {tab : TableMap} {r : Ram} {root virt phys flags : Nat}
    (h : TreeOk limit tab r root) (hn : pageOf virt < limit)
    (hsp : SmallPath r.mem 4 root (pageOf virt))
    (hm : map4k r root virt phys flags = .error .alreadyMapped) (a : Perms) :
    translate r.mem 4 root (pageOf virt) a ≠ none := by
  rcases map4k_eq_error hm with ⟨hc, -⟩ | hc | ⟨-, t₃, r₁, t₂, r₂, t₁, r₃, h3, h2, h1, hp⟩
  · cases hc
  · cases hc
  · rw [tableIndex_eq (by decide)] at h3 h2 h1 hp
    obtain ⟨_, _, _, chain⟩ := ensureTables_chain h hn hsp h3 h2 h1
    obtain ⟨l₃, l₂, l₁⟩ := chain.leads
    obtain ⟨a', ha⟩ := translate_descend l₃ l₂ l₁ a
    rw [← chain.same.translate _ hn, ha, translate_last hp]
    exact Option.some_ne_none _

/-! ### Other frames -/

/-- A frame that is live and not a table is neither made a table nor freed. -/
theorem GrowsOn.not_table {limit n f : Nat} {tab tab' : TableMap} {r r' : Ram} {root : Nat}
    (h : GrowsOn n tab r tab' r') (h' : TreeOk limit tab' r' root) (hf : tab f = none)
    (hl : r.Live f) : tab' f = none ∧ r'.Live f := by
  refine ⟨?_, h.live f hl⟩
  cases hx : tab' f with
  | none => rfl
  | some x =>
    obtain ⟨k, hk⟩ := Nat.exists_eq_succ_of_ne_zero (h'.tree.level f x.1 x.2 hx)
    exact absurd hl (h.fresh f k x.2 (by rw [hx, ← Nat.succ_eq_add_one, ← hk]) hf).2.1

section SameFrame
variable {limit : Nat} {tab : TableMap} {r r' : Ram} {root f : Nat} (hf : tab f = none) (hl : r.Live f)
include hf

theorem TreeOk.setEntry_sameFrame (h : TreeOk limit tab r root) {g i e : Nat} {x : Nat × Nat}
    (hg : tab g = some x) (hi : i < 512) : Memory.SameFrame r.mem (r.setEntry g i e).mem f := by
  refine r.mem.writeLE_sameFrame (h.tree.aligned g x hg) (by omega) (by omega) ?_
  rintro rfl
  rw [hf] at hg
  cases hg

include hl

/-- `ensure_table` writes to tables and to a fresh frame only. -/
theorem ensureTable_sameFrame (h : TreeOk limit tab r root) {g i flags c : Nat} {x : Nat × Nat}
    (hg : tab g = some x) (hi : i < 512) (hr : ensureTable r g i flags = .ok (c, r')) :
    Memory.SameFrame r.mem r'.mem f := by
  rcases ensureTable_cases h.wellFormed hr with ⟨rfl, -, -⟩ | hlink
  · exact Memory.SameFrame.refl _ _
  · have hfc : f ≠ c := by
      rintro rfl
      exact hlink.allocated.fresh hl
    have hfg : f ≠ g := by
      rintro rfl
      rw [hf] at hg
      cases hg
    have hfill := r.mem.fill_sameFrame 0 (hlink.allocated.managed.bounds h.wellFormed).1 hfc
    rw [hlink.mem]
    exact hfill.trans (Memory.writeLE_sameFrame _ (h.tree.aligned g x hg) (by omega) (by omega) hfg)

/-- **`map_4k`** leaves the contents of every other frame alone. -/
theorem map4k_sameFrame (h : TreeOk limit tab r root) {virt phys flags : Nat}
    (hn : pageOf virt < limit) (hsp : SmallPath r.mem 4 root (pageOf virt))
    (hm : map4k r root virt phys flags = .ok r') : Memory.SameFrame r.mem r'.mem f := by
  obtain ⟨t₃, r₁, t₂, r₂, t₁, r₃, h3, h2, h1, -, -, rfl⟩ := map4k_eq_ok hm
  rw [tableIndex_eq (by decide)] at h3 h2 h1
  rw [tableIndex_eq (by decide)]
  obtain ⟨tab₁, tab₂, tab₃, chain⟩ := ensureTables_chain h hn hsp h3 h2 h1
  obtain ⟨hf₁, hl₁⟩ := chain.grows₁.not_table chain.tree₁ hf hl
  obtain ⟨hf₂, hl₂⟩ := chain.grows₂.not_table chain.tree₂ hf₁ hl₁
  obtain ⟨hf₃, -⟩ := chain.grows₃.not_table chain.tree₃ hf₂ hl₂
  exact (((ensureTable_sameFrame hf hl h (h.tree.root_on_path hn) (pageIndex_lt ..) h3).trans
    (ensureTable_sameFrame hf₁ hl₁ chain.tree₁ chain.table₃ (pageIndex_lt ..) h2)).trans
    (ensureTable_sameFrame hf₂ hl₂ chain.tree₂ chain.table₂ (pageIndex_lt ..) h1)).trans
    (chain.tree₃.setEntry_sameFrame hf₃ chain.table₁ (pageIndex_lt ..))

end SameFrame

/-! ## `unmap_4k` -/

/-- `unmap_4k` finds no translation and changes nothing, or follows three links to the last
table and clears the entry there. -/
theorem unmap4k_cases {r : Ram} {root virt : Nat} (hsp : SmallPath r.mem 4 root (pageOf virt)) :
    (unmap4k r root virt = (none, r) ∧ ∀ a, translate r.mem 4 root (pageOf virt) a = none) ∨
      ∃ t₃ t₂ t₁, Leads r.mem 3 root (pageOf virt) t₃ ∧ Leads r.mem 2 t₃ (pageOf virt) t₂ ∧
        Leads r.mem 1 t₂ (pageOf virt) t₁ ∧
        isPresent (entryAt r.mem t₁ (pageIndex 0 (pageOf virt))) = true ∧
        unmap4k r root virt = (some (physAddr (entryAt r.mem t₁ (pageIndex 0 (pageOf virt)))),
          r.setEntry t₁ (pageIndex 0 (pageOf virt)) 0) := by
  unfold unmap4k pml4Index pdptIndex pdIndex ptIndex
  rw [tableIndex_eq (by decide), tableIndex_eq (by decide), tableIndex_eq (by decide),
    tableIndex_eq (by decide)]
  generalize pageOf virt = n at hsp ⊢
  simp only
  cases hp₃ : isPresent (entryAt r.mem root (pageIndex 3 n)) with
  | false => exact Or.inl ⟨rfl, fun a => translate_absent hp₃⟩
  | true =>
    have l₃ : Leads r.mem 3 root n _ := ⟨hp₃, hsp.head (by decide) hp₃, rfl⟩
    have hsp₃ := hsp.tail (by decide) l₃
    cases hp₂ : isPresent (entryAt r.mem (physAddr (entryAt r.mem root (pageIndex 3 n)))
        (pageIndex 2 n)) with
    | false =>
      refine Or.inl ⟨rfl, fun a => ?_⟩
      rw [translate_leads (by decide) l₃, translate_absent hp₂]
    | true =>
      have l₂ : Leads r.mem 2 _ n _ := ⟨hp₂, hsp₃.head (by decide) hp₂, rfl⟩
      have hsp₂ := hsp₃.tail (by decide) l₂
      cases hp₁ : isPresent (entryAt r.mem (physAddr (entryAt r.mem (physAddr
          (entryAt r.mem root (pageIndex 3 n))) (pageIndex 2 n))) (pageIndex 1 n)) with
      | false =>
        refine Or.inl ⟨rfl, fun a => ?_⟩
        rw [translate_leads (by decide) l₃, translate_leads (by decide) l₂, translate_absent hp₁]
      | true =>
        have l₁ : Leads r.mem 1 _ n _ := ⟨hp₁, hsp₂.head (by decide) hp₁, rfl⟩
        cases hp₀ : isPresent (entryAt r.mem (physAddr (entryAt r.mem (physAddr (entryAt r.mem
            (physAddr (entryAt r.mem root (pageIndex 3 n))) (pageIndex 2 n))) (pageIndex 1 n)))
            (pageIndex 0 n)) with
        | false =>
          refine Or.inl ⟨rfl, fun a => ?_⟩
          obtain ⟨a', ha⟩ := translate_descend l₃ l₂ l₁ a
          rw [ha, translate_absent hp₀]
        | true => exact Or.inr ⟨_, _, _, l₃, l₂, l₁, hp₀, rfl⟩

/-- What `unmap_4k` of page `n` does to the tree. -/
structure UnmapsOn (limit root n : Nat) (tab : TableMap) (r : Ram) (result : Option Nat × Ram) : Prop where
  tree : TreeOk limit tab result.2 root
  found : ∀ a, result.1 = (translate r.mem 4 root n a).map (·.frame)
  page : ∀ a, translate result.2.mem 4 root n a = none
  writes : WritesPage limit root n r.mem result.2.mem

/-- **`unmap_4k`** returns the frame of the page if it was mapped, and removes that
translation only. -/
theorem unmap4k_tree {limit : Nat} {tab : TableMap} {r : Ram} {root virt : Nat}
    (h : TreeOk limit tab r root) (hn : pageOf virt < limit)
    (hsp : SmallPath r.mem 4 root (pageOf virt)) :
    UnmapsOn limit root (pageOf virt) tab r (unmap4k r root virt) := by
  rcases unmap4k_cases hsp with ⟨he, hnone⟩ | ⟨t₃, t₂, t₁, l₃, l₂, l₁, hp, he⟩
  · rw [he]
    refine ⟨h, ?_, hnone, fun _ _ _ _ => rfl, fun _ _ hs => hs⟩
    intro a
    rw [hnone a]
    rfl
  · -- the last table is a table of the tree
    have ht₃ : tab t₃ = some (3, pageOf virt / 512 ^ 3) := by
      obtain ⟨hp₃, hs₃, rfl⟩ := l₃
      exact h.tree.next_on_path hn (h.tree.root_on_path hn) (by decide) hp₃ hs₃
    have ht₂ : tab t₂ = some (2, pageOf virt / 512 ^ 2) := by
      obtain ⟨hp₂, hs₂, rfl⟩ := l₂
      exact h.tree.next_on_path hn ht₃ (by decide) hp₂ hs₂
    have ht₁ : tab t₁ = some (1, pageOf virt / 512 ^ 1) := by
      obtain ⟨hp₁, hs₁, rfl⟩ := l₁
      exact h.tree.next_on_path hn ht₂ (by decide) hp₁ hs₁
    have hkeep : ∀ {f k next}, (∃ x, tab f = some x) → f ≠ t₁ → Leads r.mem k f (pageOf virt) next →
        Leads (r.setEntry t₁ (pageIndex 0 (pageOf virt)) 0).mem k f (pageOf virt) next := by
      intro f k next hf hne hl
      obtain ⟨x, hx⟩ := hf
      unfold Leads at *
      rwa [h.setEntry_other ht₁ hx (pageIndex_lt k _) (Or.inl hne)]
    have hne : ∀ {f k p}, tab f = some (k + 2, p) → f ≠ t₁ := by
      rintro f k p hf rfl
      rw [ht₁] at hf
      have hlevel := (Prod.mk.inj (Option.some.inj hf)).1
      omega
    rw [he]
    refine ⟨h.setEntry_tree ht₁, ?_, ?_, h.setEntry_writesPage ht₁⟩
    · intro a
      obtain ⟨a', ha⟩ := translate_descend l₃ l₂ l₁ a
      rw [ha, translate_last hp]
      rfl
    · intro a
      obtain ⟨a', ha⟩ := translate_descend (hkeep ⟨_, h.tree.root⟩ (hne h.tree.root) l₃)
        (hkeep ⟨_, ht₃⟩ (hne ht₃) l₂) (hkeep ⟨_, ht₂⟩ (hne ht₂) l₁) a
      have hzero : entryAt (r.setEntry t₁ (pageIndex 0 (pageOf virt)) 0).mem t₁
          (pageIndex 0 (pageOf virt)) = 0 := entryAt_writeU64_same _ (by decide)
      rw [ha, translate_absent (by rw [hzero]; exact isPresent_zero)]

/-! ## The finite map -/

/-- The finite map that the tables of `root` stand for: frame and flags of every page. -/
def pageMap (m : Memory) (root : Nat) : Fin (2 ^ 36) → Option (Nat × Nat) :=
  fun n => (translate m 4 root n Perms.full).map fun t => (t.frame, t.flags)

/-- The page of a virtual address. -/
def pageNr (virt : Nat) : Fin (2 ^ 36) := ⟨pageOf virt, pageOf_lt virt⟩

/-- The hardware walk depends on the page's translation only. -/
theorem walk_congr {m m' : Memory} {root va : Nat}
    (h : translate m' 4 root (pageOf va) Perms.full = translate m 4 root (pageOf va) Perms.full) :
    walk m' root va = walk m root va := by
  rw [walk, walk, walkFrom_eq_translate _ (by decide), walkFrom_eq_translate _ (by decide), h]

/-- A page is set and the others are kept: an update of the map. -/
theorem pageMap_update {m m' : Memory} {root : Nat} (virt : Nat) (v : Option (Nat × Nat))
    (hpage : (translate m' 4 root (pageOf virt) Perms.full).map (fun t => (t.frame, t.flags)) = v)
    (hother : ∀ l, l < 2 ^ 36 → l ≠ pageOf virt → ∀ a,
      translate m' 4 root l a = translate m 4 root l a) :
    pageMap m' root = Function.update (pageMap m root) (pageNr virt) v := by
  funext l
  by_cases hl : l = pageNr virt
  · rw [hl, Function.update_self]
    exact hpage
  · have hne : (l : Nat) ≠ pageOf virt := fun he => hl (Fin.ext he)
    rw [Function.update_of_ne hl, pageMap, pageMap, hother l l.isLt hne]

/-- **Page tables refine a finite map.**  On a well-formed tree without a large page on the
way, a `map_4k` that returns sets the page to the frame and flags asked for, keeps every
other translation and the tree, linking only fresh empty tables, and is undone by
`unmap_4k`; and `unmap_4k` returns the frame that was mapped, if any, and removes that page
only. -/
theorem page_tables_refine_map {tab : TableMap} {r : Ram} {root : Nat} (h : TreeOk (2 ^ 36) tab r root)
    (virt : Nat) (hsp : SmallPath r.mem 4 root (pageOf virt)) {phys flags : Nat}
    (hpa : phys % 4096 = 0) (hlt : phys < 2 ^ 52) (hflags : FlagsOk flags) :
    (∀ r', map4k r root virt phys flags = .ok r' →
      pageMap r'.mem root =
        Function.update (pageMap r.mem root) (pageNr virt) (some (phys, flags ||| ptePresent)) ∧
      (∀ va, pageOf va ≠ pageOf virt → walk r'.mem root va = walk r.mem root va) ∧
      (∃ tab', TreeOk (2 ^ 36) tab' r' root ∧ GrowsOn (pageOf virt) tab r tab' r') ∧
      SmallPath r'.mem 4 root (pageOf virt) ∧
      (unmap4k r' root virt).1 = some phys ∧
      pageMap (unmap4k r' root virt).2.mem root = pageMap r.mem root) ∧
    (unmap4k r root virt).1 = (pageMap r.mem root (pageNr virt)).map Prod.fst ∧
    pageMap (unmap4k r root virt).2.mem root =
      Function.update (pageMap r.mem root) (pageNr virt) none ∧
    (∀ va, pageOf va ≠ pageOf virt →
      walk (unmap4k r root virt).2.mem root va = walk r.mem root va) ∧
    TreeOk (2 ^ 36) tab (unmap4k r root virt).2 root := by
  have hun := unmap4k_tree h (pageOf_lt virt) hsp
  refine ⟨?_, ?_, ?_, ?_, hun.tree⟩
  · intro r' hm
    obtain ⟨tab', hmap⟩ := map4k_tree h (pageOf_lt virt) hsp hpa hlt hflags hm
    obtain ⟨a', hpage⟩ := hmap.page Perms.full
    have hupdate := pageMap_update virt (some (phys, flags ||| ptePresent)) (by rw [hpage]; rfl)
      hmap.other
    have hsmall := hmap.small _ (pageOf_lt virt) hsp
    have hundo := unmap4k_tree hmap.tree (pageOf_lt virt) hsmall
    refine ⟨hupdate, ?_, ⟨tab', hmap.tree, hmap.grows⟩, hsmall, ?_, ?_⟩
    · intro va hva
      exact walk_congr (hmap.other _ (pageOf_lt va) hva _)
    · rw [hundo.found Perms.full, hpage]
      rfl
    · have hnone : pageMap r.mem root (pageNr virt) = none := by
        have := hmap.before Perms.full
        simp only [pageMap, pageNr, this, Option.map_none]
      rw [pageMap_update virt none (by rw [hundo.page]; rfl) hundo.writes.other, hupdate,
        Function.update_idem, ← hnone, Function.update_eq_self]
  · rw [hun.found Perms.full, pageMap, Option.map_map]
    rfl
  · exact pageMap_update virt none (by rw [hun.page]; rfl) hun.writes.other
  · intro va hva
    exact walk_congr (hun.writes.other _ (pageOf_lt va) hva _)

/-- Memory with an empty root table at `0x1000` and one free region. -/
def emptyTree : Ram := ⟨fun _ => 0, fun w => if w = 0 then 8#64 else 0#64, []⟩

theorem emptyTree_ok : TreeOk (2 ^ 36) (fun f => if f = 0x1000 then some (4, 0) else none) emptyTree 0x1000 := by
  have hentry : ∀ f i, entryAt emptyTree.mem f i = 0 := fun f i =>
    Memory.readLE_eq_zero fun _ _ _ => rfl
  have hone : ∀ {f x}, (if f = 0x1000 then some (4, 0) else none) = some x →
      f = 0x1000 ∧ x = (4, 0) := by
    intro f x hf
    by_cases hf1 : f = 0x1000
    · rw [if_pos hf1] at hf
      exact ⟨hf1, (Option.some.inj hf).symm⟩
    · rw [if_neg hf1] at hf
      cases hf
  refine ⟨⟨nofun, nofun, List.nodup_nil⟩, ?_, le_refl _, rfl, ?_, ?_, ?_⟩
  · rintro f x hf (⟨sr, hsr, -⟩ | ⟨-, -, hbit⟩)
    · cases hsr
    · rw [(hone hf).1] at hbit
      exact absurd hbit (by decide)
  · intro f x hf
    rw [(hone hf).1]
  · intro f k p hf
    have hk := (Prod.mk.inj (hone hf).2).1
    omega
  · intro f k p i _ _ _ _ hp
    rw [hentry] at hp
    cases hp

theorem page_tables_refine_map_emptyTree :
    ∃ r', map4k emptyTree 0x1000 0x400000 0x5000 pteUser = .ok r' ∧
      pageMap r'.mem 0x1000 = Function.update (pageMap emptyTree.mem 0x1000) (pageNr 0x400000)
        (some (0x5000, pteUser ||| ptePresent)) := by
  have hsp : SmallPath emptyTree.mem 4 0x1000 (pageOf 0x400000) := by
    intro hp
    rw [show entryAt emptyTree.mem 0x1000 _ = 0 from Memory.readLE_eq_zero fun _ _ _ => rfl] at hp
    cases hp
  cases hm : map4k emptyTree 0x1000 0x400000 0x5000 pteUser with
  | ok r' =>
    exact ⟨r', rfl, ((page_tables_refine_map emptyTree_ok 0x400000 hsp (by decide) (by decide)
      (by decide)).1 r' hm).1⟩
  | error e =>
    have hok : (map4k emptyTree 0x1000 0x400000 0x5000 pteUser).toBool = true := by decide +kernel
    rw [hm] at hok
    cases hok

end Coconut
