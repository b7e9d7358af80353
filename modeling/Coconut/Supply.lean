import Coconut.FrameLedger
import Coconut.Windows
import Mathlib.Data.Finset.Card

/-!
# Enough frames

`map_4k` takes a frame for every table that is missing on the way to its page and panics if
there is none left.  The frames that the allocator can still hand out are counted here
(`Ram.supply`), and so are the tables that are missing (`missingTables`).  The two numbers
and the translation of the page decide what becomes of a call (`map4k_outcome`).

A loop over pages makes each missing table once: three frames for every 2 MiB that it
touches are enough (`mapEach_returns`).
-/
namespace Coconut
open Paging

/-! ## The frames that are left -/

/-- How many regions the frame allocator can still claim. -/
def Ram.claimable (r : Ram) : Nat :=
  min ((List.range maxRegions).countP r.bitmap.bit) (maxSubRegions - r.subRegions.length)

/-- How many frames the allocator can still hand out. -/
def Ram.supply (r : Ram) : Nat := r.freeCount + framesPerRegion * r.claimable

theorem SubRegion.freeCount_new (base : Nat) : (SubRegion.new base).freeCount = framesPerRegion := by
  unfold SubRegion.freeCount
  rw [List.countP_eq_length.mpr, List.length_range]
  intro i _
  have hi : i % 64 < 64 := Nat.mod_lt _ (by decide)
  change (~~~0#64).getLsbD (i % 64) = true
  rw [BitVec.getLsbD_not, BitVec.getLsbD_zero, decide_eq_true hi]
  rfl

theorem SubRegion.freeCount_eq_zero {sr : SubRegion}
    (h : ∀ i < framesPerRegion, sr.bitmap.bit i = false) : sr.freeCount = 0 := by
  refine List.countP_eq_zero.mpr fun i hi => ?_
  rw [h i (List.mem_range.mp hi)]
  exact Bool.false_ne_true

theorem sum_freeCount_eq_zero {l : List SubRegion}
    (h : ∀ sr ∈ l, ∀ i < framesPerRegion, sr.bitmap.bit i = false) :
    (l.map SubRegion.freeCount).sum = 0 := by
  rw [List.sum_eq_zero_iff_forall_eq_nat]
  intro x hx
  obtain ⟨sr, hsr, rfl⟩ := List.mem_map.mp hx
  exact SubRegion.freeCount_eq_zero (h sr hsr)

namespace Ram
variable {r r' : Ram} {p : Nat}

/-- **Every allocation** takes one frame from the supply. -/
theorem allocFrame_supply (hw : r.WellFormed) (h : r.allocFrame = some (p, r')) :
    r'.supply + 1 = r.supply := by
  unfold allocFrame at h
  cases hal : allocFrom r.subRegions with
  | some x =>
    simp only [hal] at h
    obtain ⟨-, rfl⟩ := Prod.mk.inj (Option.some.inj h)
    have hcount : (x.2.map SubRegion.freeCount).sum + 1 = r.freeCount := allocFrom_freeCount hal
    have hlen := (allocFrom_eq_some hal hw.separate).1.length_eq
    unfold supply claimable freeCount at *
    simp only [hlen] at *
    omega
  | none =>
    simp only [hal] at h
    have hzero : r.freeCount = 0 := sum_freeCount_eq_zero fun sr hsr i hi =>
      SubRegion.alloc_eq_none (allocFrom_eq_none hal hsr) hi
    split at h
    · cases h
    · rename_i hroom
      obtain ⟨⟨base, b⟩, hregion, h⟩ := Option.bind_eq_some_iff.mp h
      obtain ⟨⟨q, sr⟩, hframe, h⟩ := Option.bind_eq_some_iff.mp h
      obtain ⟨-, rfl⟩ := Prod.mk.inj (Option.some.inj h)
      obtain ⟨⟨i, b'⟩, htake, he⟩ := Option.map_eq_some_iff.mp hregion
      obtain rfl := (Prod.mk.inj he).2
      obtain ⟨hlt, hset, rfl, -⟩ := Bitmap.takeFirst_eq_some htake
      -- one region less, and all but one of its frames
      have hregions := Bitmap.countP_clearBit r.bitmap (n := maxRegions) hlt hset
      have hfree := SubRegion.freeCount_alloc hframe
      rw [SubRegion.freeCount_new] at hfree
      unfold supply claimable freeCount at *
      rw [List.map_append, List.sum_append, List.map_singleton, List.sum_singleton,
        List.length_append, List.length_singleton, hzero]
      simp only [framesPerRegion, maxSubRegions] at *
      omega

/-- The allocator fails only if nothing is left. -/
theorem supply_of_allocFrame_eq_none (h : r.allocFrame = none) : r.supply = 0 := by
  obtain ⟨hclaimed, hregions⟩ := allocFrame_eq_none h
  have hzero : r.freeCount = 0 := sum_freeCount_eq_zero hclaimed
  have hnone : r.claimable = 0 := by
    rcases hregions with hfull | hempty
    · unfold claimable
      omega
    · have hcount : (List.range maxRegions).countP r.bitmap.bit = 0 := by
        refine List.countP_eq_zero.mpr fun i hi => ?_
        rw [hempty i (List.mem_range.mp hi)]
        exact Bool.false_ne_true
      rw [claimable, hcount, Nat.zero_min]
  rw [supply, hzero, hnone, Nat.mul_zero]

theorem allocFrameZeroed_supply (hw : r.WellFormed) (h : r.allocFrameZeroed = some (p, r')) :
    r'.supply + 1 = r.supply := by
  obtain ⟨⟨q, r₁⟩, hframe, h⟩ := Option.bind_eq_some_iff.mp h
  obtain ⟨-, rfl⟩ := Prod.mk.inj (Option.some.inj h)
  have hsupply := allocFrame_supply hw hframe
  exact hsupply

theorem supply_of_allocFrameZeroed_eq_none (h : r.allocFrameZeroed = none) : r.supply = 0 := by
  refine supply_of_allocFrame_eq_none ?_
  unfold allocFrameZeroed at h
  cases hal : r.allocFrame with
  | none => rfl
  | some x =>
    rw [hal] at h
    cases h

/-- The regions that are free among the first `n` can be claimed, as long as there is room
for them. -/
theorem le_supply {n k : Nat} (hn : n ≤ maxRegions) (hk : k ≤ (List.range n).countP r.bitmap.bit)
    (hroom : k + r.subRegions.length ≤ maxSubRegions) : framesPerRegion * k ≤ r.supply := by
  have hsub : (List.range n).countP r.bitmap.bit ≤ (List.range maxRegions).countP r.bitmap.bit :=
    (List.range_sublist.mpr hn).countP_le
  have hclaim : k ≤ r.claimable := le_min (hk.trans hsub) (by omega)
  exact (Nat.mul_le_mul_left _ hclaim).trans (Nat.le_add_left _ _)

end Ram

/-! ## The tables that are missing -/

/-- How many tables are missing on the way to page `n` below a table of level `k`. -/
def missingTables (m : Memory) : Nat → Nat → Nat → Nat
  | k + 2, table, n =>
    let e := entryAt m table (pageIndex (k + 1) n)
    if isPresent e then missingTables m (k + 1) (physAddr e) n else k + 1
  | _, _, _ => 0

theorem missingTables_present {m : Memory} {k table n : Nat} (hk : k ≠ 0)
    (hp : isPresent (entryAt m table (pageIndex k n)) = true) :
    missingTables m (k + 1) table n =
      missingTables m k (physAddr (entryAt m table (pageIndex k n))) n := by
  obtain ⟨k, rfl⟩ := Nat.exists_eq_succ_of_ne_zero hk
  exact if_pos hp

theorem missingTables_absent {m : Memory} {k table n : Nat}
    (hp : isPresent (entryAt m table (pageIndex k n)) = false) :
    missingTables m (k + 1) table n = k := by
  cases k with
  | zero => rfl
  | succ k => exact if_neg (by rw [hp]; exact Bool.false_ne_true)

theorem missingTables_le (m : Memory) {k : Nat} (table n : Nat) :
    missingTables m (k + 1) table n ≤ k := by
  induction k generalizing table with
  | zero => exact Nat.le_refl 0
  | succ k ih =>
    cases hp : isPresent (entryAt m table (pageIndex (k + 1) n)) with
    | true =>
      rw [missingTables_present (Nat.succ_ne_zero k) hp]
      exact (ih _).trans (Nat.le_succ k)
    | false => rw [missingTables_absent hp]

section Outcome
variable {limit : Nat} {tab : TableMap} {r r' : Ram} {root : Nat}

/-- A table that `ensure_table` makes is paid for with one frame. -/
theorem ensureTable_supply (hw : r.WellFormed) {f i flags c : Nat}
    (hp : isPresent (entryAt r.mem f i) = false) (hr : ensureTable r f i flags = .ok (c, r')) :
    r'.supply + 1 = r.supply := by
  unfold ensureTable at hr
  simp only at hr
  rw [if_neg (by rw [hp]; exact Bool.false_ne_true)] at hr
  obtain ⟨⟨q, r₁⟩, hal, hr⟩ := Kernel.bind_eq_ok hr
  obtain ⟨-, rfl⟩ := Prod.mk.inj (Except.ok.inj hr)
  have hsupply : r₁.supply + 1 = r.supply :=
    Ram.allocFrameZeroed_supply hw (Kernel.expect_eq_ok hal)
  exact hsupply

/-- In the table that `ensure_table` has just made everything is missing. -/
theorem TreeOk.missingTables_link (h : TreeOk limit tab r root) {f i flags c k : Nat} {x : Nat × Nat}
    (hl : Links r f i flags c r') (hf : tab f = some x) (hi : i < 512) (hk : k ≠ 0) (n : Nat) :
    missingTables r'.mem k c n + 1 = k := by
  obtain ⟨k, rfl⟩ := Nat.exists_eq_succ_of_ne_zero hk
  rw [missingTables_absent]
  rw [h.link_new hl hf hi (pageIndex_lt k n)]
  exact isPresent_zero

/-- **`ensure_table`** takes a frame exactly if the table was missing, and fails only if none is
left then. -/
theorem ensureTable_outcome (h : TreeOk limit tab r root) {f k n : Nat} {x : Nat × Nat}
    (hf : tab f = some x) (hk : k ≠ 0) :
    (ensureTable r f (pageIndex k n) parentFlags = .error .outOfFramesForPageTable ∧
      r.supply = 0 ∧ missingTables r.mem (k + 1) f n = k) ∨
    ∃ c r', ensureTable r f (pageIndex k n) parentFlags = .ok (c, r') ∧
      r'.supply + missingTables r.mem (k + 1) f n = r.supply + missingTables r'.mem k c n := by
  cases hr : ensureTable r f (pageIndex k n) parentFlags with
  | error p =>
    obtain ⟨rfl, hp, hnone⟩ := ensureTable_eq_error hr
    exact Or.inl ⟨rfl, Ram.supply_of_allocFrameZeroed_eq_none hnone, missingTables_absent hp⟩
  | ok y =>
    refine Or.inr ⟨y.1, y.2, rfl, ?_⟩
    rcases ensureTable_cases h.wellFormed hr with ⟨hsame, hp, hc⟩ | hlink
    · rw [missingTables_present hk hp, hsame, hc]
    · have hsupply := ensureTable_supply h.wellFormed hlink.absent hr
      -- the new table is empty: what it should lead to is missing, too
      have hempty := h.missingTables_link hlink hf (pageIndex_lt k n) hk n
      rw [missingTables_absent hlink.absent]
      omega

/-- `map_4k` without its first assertion, at the page number. -/
theorem map4k_eq {virt phys flags : Nat}
    (hwx : (!hasFlag flags pteWritable || hasFlag flags pteNoExecute) = true) :
    map4k r root virt phys flags = do
      let (t₃, r) ← ensureTable r root (pageIndex 3 (pageOf virt)) parentFlags
      let (t₂, r) ← ensureTable r t₃ (pageIndex 2 (pageOf virt)) parentFlags
      let (t₁, r) ← ensureTable r t₂ (pageIndex 1 (pageOf virt)) parentFlags
      assertThat (!isPresent (entryAt r.mem t₁ (pageIndex 0 (pageOf virt)))) .alreadyMapped
      return r.setEntry t₁ (pageIndex 0 (pageOf virt)) (mkEntry phys (flags ||| ptePresent)) := by
  have hassert : assertThat (!hasFlag flags pteWritable || hasFlag flags pteNoExecute)
      .writableAndExecutable = .ok () := if_pos hwx
  unfold map4k pml4Index pdptIndex pdIndex ptIndex
  rw [hassert, tableIndex_eq (by decide), tableIndex_eq (by decide), tableIndex_eq (by decide),
    tableIndex_eq (by decide)]
  rfl

/-- **What becomes of a call of `map_4k`.** -/
theorem map4k_outcome (h : TreeOk limit tab r root) {virt flags : Nat} (phys : Nat)
    (hn : pageOf virt < limit) (hsp : SmallPath r.mem 4 root (pageOf virt))
    (hwx : (!hasFlag flags pteWritable || hasFlag flags pteNoExecute) = true) :
    (map4k r root virt phys flags = .error .outOfFramesForPageTable ∧
      r.supply < missingTables r.mem 4 root (pageOf virt)) ∨
    (map4k r root virt phys flags = .error .alreadyMapped ∧
      missingTables r.mem 4 root (pageOf virt) ≤ r.supply ∧
      ∀ a, translate r.mem 4 root (pageOf virt) a ≠ none) ∨
    ∃ r', map4k r root virt phys flags = .ok r' ∧
      r'.supply + missingTables r.mem 4 root (pageOf virt) = r.supply := by
  have htaken : map4k r root virt phys flags = .error .alreadyMapped →
      ∀ a, translate r.mem 4 root (pageOf virt) a ≠ none := map4k_taken h hn hsp
  rw [map4k_eq hwx] at htaken ⊢
  generalize pageOf virt = n at *
  have hroot := h.tree.root_on_path hn
  rcases ensureTable_outcome (n := n) h hroot (show 3 ≠ 0 by decide) with
    ⟨h3, hzero, hmiss⟩ | ⟨t₃, r₁, h3, hcost₃⟩
  · exact Or.inl ⟨by rw [h3]; rfl, by rw [hzero, hmiss]; decide⟩
  obtain ⟨tab₁, ok₁, -, ht₃, l₃, same₁⟩ := ensureTable_tree h hn hroot (by decide)
    (hsp.head (by decide)) parentFlags_ok parentFlags_small h3
  have hsp₁ := (same₁.small n hn hsp).tail (by decide) l₃
  rcases ensureTable_outcome (n := n) ok₁ ht₃ (show 2 ≠ 0 by decide) with
    ⟨h2, hzero, hmiss⟩ | ⟨t₂, r₂, h2, hcost₂⟩
  · refine Or.inl ⟨by simp only [h3, h2, Kernel.ok_bind]; rfl, ?_⟩
    simp only [Nat.reduceAdd] at *
    omega
  obtain ⟨tab₂, ok₂, gr₂, ht₂, l₂, same₂⟩ := ensureTable_tree ok₁ hn ht₃ (by decide)
    (hsp₁.head (by decide)) parentFlags_ok parentFlags_small h2
  rcases ensureTable_outcome (n := n) ok₂ ht₂ (show 1 ≠ 0 by decide) with
    ⟨h1, hzero, hmiss⟩ | ⟨t₁, r₃, h1, hcost₁⟩
  · refine Or.inl ⟨by simp only [h3, h2, h1, Kernel.ok_bind]; rfl, ?_⟩
    simp only [Nat.reduceAdd] at *
    omega
  have hnone : missingTables r₃.mem 1 t₁ n = 0 := rfl
  simp only [Nat.reduceAdd] at hcost₃ hcost₂ hcost₁
  right
  simp only [h3, h2, h1, Kernel.ok_bind] at htaken ⊢
  cases hp : isPresent (entryAt r₃.mem t₁ (pageIndex 0 n)) with
  | true =>
    rw [hp] at htaken
    exact Or.inl ⟨rfl, by omega, htaken rfl⟩
  | false =>
    refine Or.inr ⟨_, rfl, ?_⟩
    change r₃.supply + _ = _
    omega

/-- Pages with the same way to level `j` have the same tables down to there. -/
theorem le_missingTables_congr (m : Memory) {j l n : Nat} (hj : j ≠ 0) (h : l / 512 ^ j = n / 512 ^ j)
    (k table : Nat) : j ≤ missingTables m k table l ↔ j ≤ missingTables m k table n := by
  induction k generalizing table with
  | zero => exact Iff.rfl
  | succ k ih =>
    by_cases hjk : j ≤ k
    · have hindex : pageIndex k l = pageIndex k n := by
        unfold pageIndex
        rw [← Nat.sub_add_cancel hjk, Nat.pow_add', ← Nat.div_div_eq_div_mul,
          ← Nat.div_div_eq_div_mul, h]
      cases hp : isPresent (entryAt m table (pageIndex k n)) with
      | false => rw [missingTables_absent hp, missingTables_absent (by rw [hindex, hp])]
      | true =>
        have hk : k ≠ 0 := by omega
        rw [missingTables_present hk hp, missingTables_present hk (by rw [hindex, hp]), hindex]
        exact ih _
    · have hl := missingTables_le m (k := k) table l
      have hn := missingTables_le m (k := k) table n
      exact ⟨fun hc => absurd (hc.trans hl) hjk, fun hc => absurd (hc.trans hn) hjk⟩

/-- Pages with the same last table miss the same tables. -/
theorem missingTables_congr (m : Memory) {k table l n : Nat} (h : l / 512 = n / 512) :
    missingTables m k table l = missingTables m k table n := by
  refine eq_of_forall_le_iff fun j => ?_
  cases j with
  | zero => exact iff_of_true (Nat.zero_le _) (Nat.zero_le _)
  | succ j =>
    refine le_missingTables_congr m (Nat.succ_ne_zero j) ?_ k table
    rw [Nat.pow_succ', ← Nat.div_div_eq_div_mul, ← Nat.div_div_eq_div_mul, h]

/-- No table is missing on the way to a page that is mapped. -/
theorem missingTables_of_translate {m : Memory} {k table n : Nat} {a : Perms}
    (hsp : SmallPath m k table n) (h : translate m k table n a ≠ none) :
    missingTables m k table n = 0 := by
  induction k generalizing table a with
  | zero => rfl
  | succ k ih =>
    cases hp : isPresent (entryAt m table (pageIndex k n)) with
    | false => exact absurd (translate_absent hp) h
    | true =>
      by_cases hk : k = 0
      · subst hk
        rfl
      · rw [missingTables_present hk hp]
        rw [translate_table hk hp (hsp.head hk hp)] at h
        exact ih (hsp.tail hk ⟨hp, hsp.head hk hp, rfl⟩) h

/-- A mapping operation does not take tables away. -/
theorem GrowsOn.missingTables_le {tab' : TableMap} {n : Nat} (hg : GrowsOn n tab r tab' r')
    (h : TreeOk limit tab r root) {k f l : Nat} (hl : l < limit)
    (hf : tab f = some (k, l / 512 ^ k)) (hsp : SmallPath r.mem k f l) :
    missingTables r'.mem k f l ≤ missingTables r.mem k f l := by
  induction k generalizing f with
  | zero => exact Nat.le_refl 0
  | succ k ih =>
    cases hp : isPresent (entryAt r.mem f (pageIndex k l)) with
    | false =>
      rw [missingTables_absent hp]
      exact Coconut.missingTables_le ..
    | true =>
      by_cases hk : k = 0
      · subst hk
        exact Nat.le_refl 0
      · have hsmall := hsp.head hk hp
        have hsame := hg.present f _ hf _ (pageIndex_lt k l) hp
        have hp' : isPresent (entryAt r'.mem f (pageIndex k l)) = true := by rw [hsame, hp]
        rw [missingTables_present hk hp, missingTables_present hk hp', hsame]
        exact ih (h.tree.next_on_path hl hf hk hp hsmall) (hsp.tail hk ⟨hp, hsmall, rfl⟩)

/-- After `map_4k` no table is missing for the pages that share the last table. -/
theorem MapsOn.missingTables_eq_zero {tab' : TableMap} {n phys flags l : Nat}
    (h : MapsOn limit root n phys flags tab r tab' r') (hn : n < limit)
    (hsp : SmallPath r.mem 4 root n) (hl : l / 512 = n / 512) :
    missingTables r'.mem 4 root l = 0 := by
  obtain ⟨a, hpage⟩ := h.page Perms.full
  rw [missingTables_congr _ hl]
  refine missingTables_of_translate (a := Perms.full) (h.small n hn hsp) ?_
  rw [hpage]
  exact Option.some_ne_none _

/-- Pages off the way to page `n` miss what they missed: `j` counts tables from below, and the
tables of page `l` differ from those of `n` up to level `j`. -/
def Spares (limit root n : Nat) (m m' : Memory) : Prop :=
  ∀ l, l < limit → SmallPath m 4 root l → ∀ j, l / 512 ^ j ≠ n / 512 ^ j →
    j ≤ missingTables m 4 root l → j ≤ missingTables m' 4 root l

theorem Spares.trans {n : Nat} {m m' m'' : Memory} (h : Spares limit root n m m')
    (hs : SamePages limit root m m') (h' : Spares limit root n m' m'') : Spares limit root n m m'' :=
  fun l hl hsp j hne hj => h' l hl (hs.small l hl hsp) j hne (h l hl hsp j hne hj)

/-- An entry that appears on the way to `l` lies on the way to `n`, too, and there is nothing
behind it yet. -/
theorem GrowsOn.spares {tab' : TableMap} {n : Nat} (hg : GrowsOn n tab r tab' r')
    (h : TreeOk limit tab r root)
    (hnew : ∀ l g i, tab g = some (i + 1, l / 512 ^ (i + 1)) → i ≠ 0 →
      isPresent (entryAt r.mem g (pageIndex i l)) = false →
      isPresent (entryAt r'.mem g (pageIndex i l)) = true → l / 512 ^ i = n / 512 ^ i ∧
        missingTables r'.mem i (physAddr (entryAt r'.mem g (pageIndex i l))) l + 1 = i) :
    Spares limit root n r.mem r'.mem := by
  intro l hl hsp j hne hj
  have hroot := h.tree.root_on_path hl
  -- down the way to `l`, from the root
  generalize 4 = k at hroot hsp hj ⊢
  generalize root = f at hroot hsp hj ⊢
  induction k generalizing f with
  | zero => exact hj
  | succ k ih =>
    by_cases hk : k = 0
    · subst hk
      exact hj
    cases hp : isPresent (entryAt r.mem f (pageIndex k l)) with
    | true =>
      have hsmall := hsp.head hk hp
      have hsame := hg.present f _ hroot _ (pageIndex_lt k l) hp
      rw [missingTables_present hk hp] at hj
      rw [missingTables_present hk (by rw [hsame, hp]), hsame]
      exact ih _ (h.tree.next_on_path hl hroot hk hp hsmall) (hsp.tail hk ⟨hp, hsmall, rfl⟩) hj
    | false =>
      rw [missingTables_absent hp] at hj
      cases hp' : isPresent (entryAt r'.mem f (pageIndex k l)) with
      | false =>
        rw [missingTables_absent hp']
        exact hj
      | true =>
        obtain ⟨hway, hmiss⟩ := hnew l f k hroot hk hp hp'
        rw [missingTables_present hk hp']
        have hjk : j ≠ k := by
          rintro rfl
          exact hne hway
        omega

theorem ensureTable_spares (h : TreeOk limit tab r root) {tab' : TableMap} {f k c n flags : Nat}
    (hf : tab f = some (k + 1, n / 512 ^ (k + 1))) (hflags : FlagsOk (flags ||| ptePresent))
    (hg : GrowsOn n tab r tab' r') (hr : ensureTable r f (pageIndex k n) flags = .ok (c, r')) :
    Spares limit root n r.mem r'.mem := by
  refine hg.spares h fun l g i hgi hi hp hp' => ?_
  rcases ensureTable_cases h.wellFormed hr with ⟨rfl, -, -⟩ | hlink
  · rw [hp] at hp'
    cases hp'
  -- the entry that has changed is the one that was linked
  have hhit : g = f ∧ pageIndex i l = pageIndex k n := by
    by_contra hne
    rw [h.link_other hlink ⟨_, hf⟩ (pageIndex_lt k n) hgi (pageIndex_lt i l)
      (Decidable.not_and_iff_or_not.mp hne), hp] at hp'
    cases hp'
  obtain ⟨rfl, hindex⟩ := hhit
  rw [hf] at hgi
  obtain ⟨hki, hway⟩ := Prod.mk.inj (Option.some.inj hgi)
  obtain rfl : k = i := by omega
  refine ⟨?_, ?_⟩
  · rw [path_succ k l, path_succ k n, ← hway, hindex]
  · rw [hindex, (h.link_self hlink hflags).2]
    exact h.missingTables_link hlink hf (pageIndex_lt k n) hi l

/-- **`map_4k`** makes tables on the way to its page only. -/
theorem map4k_spares (h : TreeOk limit tab r root) {virt phys flags : Nat} (hn : pageOf virt < limit)
    (hsp : SmallPath r.mem 4 root (pageOf virt)) (hm : map4k r root virt phys flags = .ok r') :
    Spares limit root (pageOf virt) r.mem r'.mem := by
  obtain ⟨t₃, r₁, t₂, r₂, t₁, r₃, h3, h2, h1, habs, -, rfl⟩ := map4k_eq_ok hm
  rw [tableIndex_eq (by decide)] at h3 h2 h1 habs
  rw [tableIndex_eq (by decide)]
  obtain ⟨tab₁, tab₂, tab₃, chain⟩ := ensureTables_chain h hn hsp h3 h2 h1
  have s₁ := ensureTable_spares h (h.tree.root_on_path hn) parentFlags_ok chain.grows₁ h3
  have s₂ := ensureTable_spares chain.tree₁ chain.table₃ parentFlags_ok chain.grows₂ h2
  have s₃ := ensureTable_spares chain.tree₂ chain.table₂ parentFlags_ok chain.grows₃ h1
  refine ((s₁.trans chain.same₁ s₂).trans (chain.same₁.trans chain.same₂) s₃).trans chain.same ?_
  -- the last entry leads to no table
  refine (chain.tree₃.setEntry_growsOn chain.table₁ habs).spares chain.tree₃ fun l g i hg hi hp hp' => ?_
  have hne : g ≠ t₁ := by
    rintro rfl
    rw [chain.table₁] at hg
    have hlevel := (Prod.mk.inj (Option.some.inj hg)).1
    omega
  rw [chain.tree₃.setEntry_other chain.table₁ hg (pageIndex_lt i l) (Or.inl hne), hp] at hp'
  cases hp'

/-- **The tables that are missing after `map_4k`**: those that were, but for the ones on the way
to the page. -/
theorem MapsOn.le_missingTables_iff {tab' : TableMap} {n phys flags l j : Nat}
    (h : MapsOn limit root n phys flags tab r tab' r') (ht : TreeOk limit tab r root)
    (hs : Spares limit root n r.mem r'.mem) (hn : n < limit) (hl : l < limit)
    (hspn : SmallPath r.mem 4 root n) (hspl : SmallPath r.mem 4 root l) (hj : j ≠ 0) :
    j ≤ missingTables r'.mem 4 root l ↔
      j ≤ missingTables r.mem 4 root l ∧ l / 512 ^ j ≠ n / 512 ^ j := by
  constructor
  · intro hmiss
    refine ⟨hmiss.trans (h.grows.missingTables_le ht hl (ht.tree.root_on_path hl) hspl), fun hway => ?_⟩
    rw [le_missingTables_congr _ hj hway, h.missingTables_eq_zero hn hspn rfl] at hmiss
    exact hj (Nat.le_zero.mp hmiss)
  · rintro ⟨hmiss, hne⟩
    exact hs l hl hspl j hne hmiss

/-! ## Loops -/

/-- **A loop over pages returns** if none of them is mapped and there are three frames for
every last table that is missing; `groups` are the numbers of these tables. -/
theorem mapEach_returns {flags : Nat} (hflags : FlagsOk flags)
    (hwx : (!hasFlag flags pteWritable || hasFlag flags pteNoExecute) = true)
    {pages : List (Nat × Nat)} (hpages : ∀ x ∈ pages, pageOf x.1 < limit)
    (h : TreeOk limit tab r root) (hsp : ∀ x ∈ pages, SmallPath r.mem 4 root (pageOf x.1))
    (hdistinct : (pages.map fun x => pageOf x.1).Nodup)
    (hfree : ∀ x ∈ pages, translate r.mem 4 root (pageOf x.1) Perms.full = none)
    {groups : Finset Nat}
    (hgroups : ∀ x ∈ pages, missingTables r.mem 4 root (pageOf x.1) ≠ 0 → pageOf x.1 / 512 ∈ groups)
    (hsupply : 3 * groups.card ≤ r.supply) : ∃ r', mapEach root flags pages r = .ok r' := by
  induction pages generalizing tab r groups with
  | nil => exact ⟨r, rfl⟩
  | cons x pages ih =>
    have hx := hpages x (List.mem_cons_self ..)
    have hspx := hsp x (List.mem_cons_self ..)
    have hrest : ∀ y ∈ pages, pageOf y.1 < limit := fun y hy => hpages y (List.mem_cons_of_mem _ hy)
    rw [List.map_cons, List.nodup_cons] at hdistinct
    have hle : missingTables r.mem 4 root (pageOf x.1) ≤ 3 := missingTables_le ..
    -- the group of the page is paid for
    have hpaid : missingTables r.mem 4 root (pageOf x.1) ≠ 0 →
        (groups.erase (pageOf x.1 / 512)).card + 1 = groups.card := fun hmiss =>
      Finset.card_erase_add_one (hgroups x (List.mem_cons_self ..) hmiss)
    rcases map4k_outcome h x.2 hx hspx hwx with
      ⟨-, hshort⟩ | ⟨-, -, htaken⟩ | ⟨r₁, hmap, hcost⟩
    · have := hpaid (by omega)
      omega
    · exact absurd (hfree x (List.mem_cons_self ..)) (htaken _)
    · obtain ⟨tab₁, maps⟩ := map4k_tree_masked h hx hspx hflags hmap
      have hne : ∀ y ∈ pages, pageOf y.1 ≠ pageOf x.1 := fun y hy he =>
        hdistinct.1 (List.mem_map.mpr ⟨y, hy, he⟩)
      -- the tables of its group are there for the rest of the loop
      have hmissing : ∀ y ∈ pages, missingTables r₁.mem 4 root (pageOf y.1) ≠ 0 →
          pageOf y.1 / 512 ∈ groups.erase (pageOf x.1 / 512) := by
        intro y hy hmiss
        refine Finset.mem_erase.mpr ⟨fun hsame => hmiss (maps.missingTables_eq_zero hx hspx hsame), ?_⟩
        refine hgroups y (List.mem_cons_of_mem _ hy) fun hzero => hmiss ?_
        have hmono := maps.grows.missingTables_le h (hrest y hy) (h.tree.root_on_path (hrest y hy))
          (hsp y (List.mem_cons_of_mem _ hy))
        omega
      have hleft : 3 * (groups.erase (pageOf x.1 / 512)).card ≤ r₁.supply := by
        by_cases hmiss : missingTables r.mem 4 root (pageOf x.1) = 0
        · have := Finset.card_erase_le (s := groups) (a := pageOf x.1 / 512)
          omega
        · have := hpaid hmiss
          omega
      obtain ⟨r', hr'⟩ := ih hrest maps.tree
        (fun y hy => maps.small _ (hrest y hy) (hsp y (List.mem_cons_of_mem _ hy))) hdistinct.2
        (fun y hy => (maps.other _ (hrest y hy) (hne y hy) _).trans
          (hfree y (List.mem_cons_of_mem _ hy))) hmissing hleft
      refine ⟨r', ?_⟩
      rw [mapEach, hmap]
      exact hr'

end Outcome

end Coconut
