import Coconut.Paging
import Mathlib.Algebra.Order.Ring.Nat

/-!
# Page tables as a finite map

One tree of page tables, read as a map from page numbers to translations.  A page number
is what the four indices of a virtual address spell: `n / 512 ^ k % 512` is the index at
level `k + 1`, and `n / 512 ^ k` names the node of level `k` on the way.

`Tree limit tab m root` says that the frames in `tab` are tables, each with one level and
one path, and that below page `limit` every entry that leads to a table leads to the one
its index names.  Large pages may hang anywhere in the tree, and nothing is asked of flags.  The rules about the
translation are the three that an update needs: entries off the path of a page do not
matter to it (`translate_congr`), linking an empty table changes nothing
(`translate_addTable`), and three links lead from the root to the last table
(`translate_descend`).
-/
namespace Paging

/-! ## Page numbers -/

/-- The page number of a virtual address: bits 47 to 12. -/
def pageOf (virt : Nat) : Nat := virt / 4096 % 2 ^ 36

/-- The index of page `n` in the level-`k + 1` table. -/
def pageIndex (k n : Nat) : Nat := n / 512 ^ k % 512

theorem pageOf_lt (virt : Nat) : pageOf virt < 2 ^ 36 := Nat.mod_lt _ (by decide)

theorem pageIndex_lt (k n : Nat) : pageIndex k n < 512 := Nat.mod_lt _ (by decide)

theorem tableIndex_eq {k : Nat} (hk : k < 4) (virt : Nat) :
    tableIndex k virt = pageIndex k (pageOf virt) := by
  unfold tableIndex pageIndex pageOf
  match k, hk with
  | 0, _ => simp only [span]; omega
  | 1, _ => simp only [span]; omega
  | 2, _ => simp only [span]; omega
  | 3, _ => simp only [span]; omega

/-- The node below is named by the path to the table and the index in it. -/
theorem path_succ (k n : Nat) : n / 512 ^ k = n / 512 ^ (k + 1) * 512 + pageIndex k n := by
  rw [pageIndex, Nat.pow_succ, ← Nat.div_div_eq_div_mul]
  omega

theorem path_root {n : Nat} (hn : n < 2 ^ 36) : n / 512 ^ 4 = 0 := Nat.div_eq_of_lt hn

/-! ## Entries -/

/-- The bits of an entry that are not the frame address. -/
def entryFlags (e : Nat) : Nat := e &&& 0xFFF0000000000FFF

theorem entryFlags_mkEntry {p flags : Nat} (hf : FlagsOk flags) :
    entryFlags (mkEntry p flags) = flags := by
  have hsplit : flags &&& (addrMask ||| 0xFFF0000000000FFF) = flags := by
    have hall : addrMask ||| 0xFFF0000000000FFF = 2 ^ 64 - 1 := by decide
    rw [hall, Nat.and_two_pow_sub_one_eq_mod, Nat.mod_eq_of_lt hf.2]
  rw [Nat.and_or_distrib_left, hf.1, Nat.zero_or] at hsplit
  have hoff : addrMask &&& 0xFFF0000000000FFF = 0 := by decide
  rw [entryFlags, mkEntry, Nat.and_or_distrib_right, Nat.and_assoc, hoff, Nat.and_zero,
    Nat.zero_or, hsplit]

/-! ## The translation of a page -/

/-- What a page leads to: its frame, the flags of the last entry, and the permissions that
all levels together grant. -/
structure Translation where
  frame : Nat
  flags : Nat
  perms : Perms
  deriving DecidableEq

/-- The translation of page `n` from a level-`k` table. -/
def translate (m : Memory) : Nat → Nat → Nat → Perms → Option Translation
  | 0, _, _, _ => none
  | k + 1, table, n, a =>
    let e := entryAt m table (pageIndex k n)
    if !isPresent e then none
    else if k = 0 then some ⟨physAddr e, entryFlags e, a.through e⟩
    else if hasFlag e ptePageSize then
      -- a large page; in the root table the bit is reserved
      if k = 3 then none
      else some ⟨physAddr e / span k * span k + n % 512 ^ k * 4096, entryFlags e, a.through e⟩
    else translate m k (physAddr e) n (a.through e)

/-- The hardware walk is the translation of the page, at the byte's offset. -/
theorem walkFrom_eq_translate (m : Memory) {k : Nat} (hk : k < 4) (table virt : Nat) (a : Perms) :
    walkFrom m (k + 1) table virt a = (translate m (k + 1) table (pageOf virt) a).map fun t =>
      ⟨t.frame + virt % 4096, t.perms.user, t.perms.writable, t.perms.executable⟩ := by
  induction k generalizing table a with
  | zero =>
    rw [walkFrom, translate, tableIndex_eq hk]
    cases isPresent (entryAt m table (pageIndex 0 (pageOf virt))) <;> simp [walkFrom]
  | succ k ih =>
    rw [walkFrom, translate, tableIndex_eq hk]
    simp only
    generalize entryAt m table (pageIndex (k + 1) (pageOf virt)) = e
    cases hp : isPresent e with
    | false => simp
    | true =>
      cases hs : hasFlag e ptePageSize with
      | false => simpa using ih (by omega) (physAddr e) (a.through e)
      | true =>
        by_cases h3 : k + 1 = 3
        · simp [h3]
        · have hoff : virt % span (k + 1) =
              pageOf virt % 512 ^ (k + 1) * 4096 + virt % 4096 := by
            unfold pageOf
            obtain rfl | rfl : k = 0 ∨ k = 1 := by omega
            · simp only [span]; omega
            · simp only [span]; omega
          have h3' : ¬ k = 2 := by omega
          simp [-span, h3', hoff, Nat.add_assoc]

/-- No large page lies on the way to page `n`. -/
def SmallPath (m : Memory) : Nat → Nat → Nat → Prop
  | 0, _, _ => True
  | k + 1, table, n =>
    isPresent (entryAt m table (pageIndex k n)) = true → k ≠ 0 →
      hasFlag (entryAt m table (pageIndex k n)) ptePageSize = false ∧
        SmallPath m k (physAddr (entryAt m table (pageIndex k n))) n

section Step
variable {m : Memory} {k table n : Nat} {a : Perms}

theorem translate_absent (hp : isPresent (entryAt m table (pageIndex k n)) = false) :
    translate m (k + 1) table n a = none := by
  rw [translate]
  simp only [hp, Bool.not_false, if_true]

theorem translate_table (hk : k ≠ 0) (hp : isPresent (entryAt m table (pageIndex k n)) = true)
    (hs : hasFlag (entryAt m table (pageIndex k n)) ptePageSize = false) :
    translate m (k + 1) table n a = translate m k (physAddr (entryAt m table (pageIndex k n))) n
      (a.through (entryAt m table (pageIndex k n))) := by
  rw [translate]
  simp only [hp, hs, hk, Bool.not_true, Bool.false_eq_true, if_false]

theorem translate_last (hp : isPresent (entryAt m table (pageIndex 0 n)) = true) :
    translate m 1 table n a = some ⟨physAddr (entryAt m table (pageIndex 0 n)),
      entryFlags (entryAt m table (pageIndex 0 n)),
      a.through (entryAt m table (pageIndex 0 n))⟩ := by
  rw [translate]
  simp only [hp, Bool.not_true, Bool.false_eq_true, if_false, if_true]

/-- Two translations that meet the same entry agree if they agree from there on. -/
theorem translate_congr_entry {m' : Memory}
    (he : entryAt m' table (pageIndex k n) = entryAt m table (pageIndex k n))
    (hrec : k ≠ 0 → isPresent (entryAt m table (pageIndex k n)) = true →
      hasFlag (entryAt m table (pageIndex k n)) ptePageSize = false → ∀ a,
        translate m' k (physAddr (entryAt m table (pageIndex k n))) n a =
          translate m k (physAddr (entryAt m table (pageIndex k n))) n a) :
    translate m' (k + 1) table n a = translate m (k + 1) table n a := by
  cases hp : isPresent (entryAt m table (pageIndex k n)) with
  | false => rw [translate_absent hp, translate_absent (by rw [he]; exact hp)]
  | true =>
    by_cases hk : k = 0
    · subst hk
      rw [translate_last hp, translate_last (by rw [he]; exact hp), he]
    · cases hs : hasFlag (entryAt m table (pageIndex k n)) ptePageSize with
      | true =>
        rw [translate, translate, he]
        simp only [hs, if_true]
      | false =>
        rw [translate_table hk hp hs, translate_table hk (by rw [he]; exact hp)
          (by rw [he]; exact hs), he]
        exact hrec hk hp hs _

end Step

/-! ## Trees -/

/-- The tables of a tree, each with its level and its path. -/
abbrev TableMap := Nat → Option (Nat × Nat)

/-- Frame `c` becomes a table. -/
def TableMap.link (tab : TableMap) (c k p : Nat) : TableMap :=
  fun f => if f = c then some (k, p) else tab f

theorem TableMap.link_self (tab : TableMap) (c k p : Nat) : tab.link c k p c = some (k, p) :=
  if_pos rfl

theorem TableMap.link_of_ne (tab : TableMap) {c k p f : Nat} (h : f ≠ c) :
    tab.link c k p f = tab f := if_neg h

/-- The frames of `tab` are the tables of a tree for the pages below `limit`: there an
entry that leads to a table leads to the one that its index names. -/
structure Tree (limit : Nat) (tab : TableMap) (m : Memory) (root : Nat) : Prop where
  range : limit ≤ 2 ^ 36
  root : tab root = some (4, 0)
  aligned : ∀ f x, tab f = some x → f % 4096 = 0
  level : ∀ f k p, tab f = some (k, p) → k ≠ 0
  child : ∀ f k p i, tab f = some (k + 1, p) → k ≠ 0 → i < 512 → (p * 512 + i) * 512 ^ k < limit →
    isPresent (entryAt m f i) = true → hasFlag (entryAt m f i) ptePageSize = false →
    tab (physAddr (entryAt m f i)) = some (k, p * 512 + i)

namespace Tree
variable {limit : Nat} {tab : TableMap} {m m' : Memory} {root k g n : Nat}

theorem root_on_path (h : Tree limit tab m root) (hn : n < limit) :
    tab root = some (4, n / 512 ^ 4) := by
  rw [path_root (Nat.lt_of_lt_of_le hn h.range)]
  exact h.root

/-- The next table on the way to page `n`. -/
theorem next_on_path (h : Tree limit tab m root) (hn : n < limit) (hg : tab g = some (k + 1, n / 512 ^ (k + 1)))
    (hk : k ≠ 0) (hp : isPresent (entryAt m g (pageIndex k n)) = true)
    (hs : hasFlag (entryAt m g (pageIndex k n)) ptePageSize = false) :
    tab (physAddr (entryAt m g (pageIndex k n))) = some (k, n / 512 ^ k) := by
  have hfirst : n / 512 ^ k * 512 ^ k < limit := Nat.lt_of_le_of_lt (Nat.div_mul_le_self _ _) hn
  rw [path_succ k n] at hfirst ⊢
  exact h.child g k _ _ hg hk (pageIndex_lt k n) hfirst hp hs

/-- Only the entries on the way to a page matter to its translation. -/
theorem translate_congr (h : Tree limit tab m root) (hn : n < limit) (hg : tab g = some (k, n / 512 ^ k))
    (hsame : ∀ j f, j < k → tab f = some (j + 1, n / 512 ^ (j + 1)) →
      entryAt m' f (pageIndex j n) = entryAt m f (pageIndex j n)) (a : Perms) :
    translate m' k g n a = translate m k g n a := by
  induction k generalizing g a with
  | zero => rfl
  | succ k ih =>
    refine translate_congr_entry (hsame k g (Nat.lt_succ_self k) hg) ?_
    intro hk hp hs a
    refine ih (h.next_on_path hn hg hk hp hs) ?_ a
    intro j f hj hf
    exact hsame j f (Nat.lt_succ_of_lt hj) hf

theorem smallPath_congr (h : Tree limit tab m root) (hn : n < limit) (hg : tab g = some (k, n / 512 ^ k))
    (hsame : ∀ j f, j < k → j ≠ 0 → tab f = some (j + 1, n / 512 ^ (j + 1)) →
      entryAt m' f (pageIndex j n) = entryAt m f (pageIndex j n)) (hsp : SmallPath m k g n) :
    SmallPath m' k g n := by
  induction k generalizing g with
  | zero => trivial
  | succ k ih =>
    intro hp hk
    rw [hsame k g (Nat.lt_succ_self k) hk hg] at hp ⊢
    obtain ⟨hs, hrest⟩ := hsp hp hk
    refine ⟨hs, ih (h.next_on_path hn hg hk hp hs) ?_ hrest⟩
    intro j f hj
    exact hsame j f (Nat.lt_succ_of_lt hj)

section AddTable
variable {f i p l : Nat} (h : Tree limit tab m root) (hl : l ≠ 0) (hf : tab f = some (l + 1, p))
  (hold : isPresent (entryAt m f i) = false)
  (hsame : ∀ g x, tab g = some x → ∀ j, j < 512 → (g ≠ f ∨ j ≠ i) →
    entryAt m' g j = entryAt m g j)
  (hempty : ∀ j, j < 512 → isPresent (entryAt m' (physAddr (entryAt m' f i)) j) = false)
  (hsmall : hasFlag (entryAt m' f i) ptePageSize = false)

include h hl hf hold hsame hempty hsmall

/-- **Linking an empty table changes no translation.**  Entry `i` of table `f` was absent,
and leads to a table without entries now. -/
theorem translate_addTable (hn : n < limit) (hg : tab g = some (k, n / 512 ^ k)) (a : Perms) :
    translate m' k g n a = translate m k g n a := by
  induction k generalizing g a with
  | zero => rfl
  | succ k ih =>
    by_cases hhit : g = f ∧ pageIndex k n = i
    · -- the walk meets the new entry: nothing before, nothing behind it now
      obtain ⟨rfl, rfl⟩ := hhit
      obtain rfl : k = l := by
        rw [hg] at hf
        cases hf
        rfl
      rw [translate_absent hold]
      cases hp : isPresent (entryAt m' g (pageIndex k n)) with
      | false => exact translate_absent hp
      | true =>
        rw [translate_table hl hp hsmall]
        obtain ⟨j, rfl⟩ := Nat.exists_eq_succ_of_ne_zero hl
        exact translate_absent (hempty _ (pageIndex_lt j n))
    · refine translate_congr_entry (hsame g _ hg _ (pageIndex_lt k n)
        (Decidable.not_and_iff_or_not.mp hhit)) ?_
      intro hk hp hs a
      exact ih (h.next_on_path hn hg hk hp hs) a

omit hl in
theorem smallPath_addTable (hn : n < limit) (hg : tab g = some (k, n / 512 ^ k)) (hsp : SmallPath m k g n) :
    SmallPath m' k g n := by
  induction k generalizing g with
  | zero => trivial
  | succ k ih =>
    intro hp hk
    by_cases hhit : g = f ∧ pageIndex k n = i
    · obtain ⟨rfl, rfl⟩ := hhit
      refine ⟨hsmall, ?_⟩
      obtain ⟨j, rfl⟩ := Nat.exists_eq_succ_of_ne_zero hk
      intro hp'
      rw [hempty _ (pageIndex_lt j n)] at hp'
      cases hp'
    · have he := hsame g _ hg _ (pageIndex_lt k n) (Decidable.not_and_iff_or_not.mp hhit)
      rw [he] at hp ⊢
      obtain ⟨hs, hrest⟩ := hsp hp hk
      exact ⟨hs, ih (h.next_on_path hn hg hk hp hs) hrest⟩

omit hempty hold hsmall in
/-- The tree with the new table in it. -/
theorem link {c : Nat} (hc : tab c = none) (hca : c % 4096 = 0)
    (hphys : physAddr (entryAt m' f i) = c)
    (hnew : ∀ j, j < 512 → isPresent (entryAt m' c j) = false) :
    Tree limit (tab.link c l (p * 512 + i)) m' root := by
  have hne : ∀ {g x}, tab g = some x → g ≠ c := by
    intro g x hg he
    rw [he, hc] at hg
    cases hg
  refine ⟨h.range, ?_, ?_, ?_, ?_⟩
  · rw [tab.link_of_ne (hne h.root)]
    exact h.root
  · intro g x hg
    by_cases hgc : g = c
    · rw [hgc]
      exact hca
    · rw [tab.link_of_ne hgc] at hg
      exact h.aligned g x hg
  · intro g k' p' hg
    by_cases hgc : g = c
    · rw [hgc, tab.link_self] at hg
      cases hg
      exact hl
    · rw [tab.link_of_ne hgc] at hg
      exact h.level g k' p' hg
  · intro g k' p' j hg hk' hj hlim hp hs
    by_cases hgc : g = c
    · rw [hgc, hnew j hj] at hp
      cases hp
    · rw [tab.link_of_ne hgc] at hg
      by_cases hhit : g = f ∧ j = i
      · obtain ⟨rfl, rfl⟩ := hhit
        rw [hg] at hf
        cases hf
        rw [hphys, tab.link_self]
      · have he := hsame g _ hg j hj (Decidable.not_and_iff_or_not.mp hhit)
        rw [he] at hp hs ⊢
        have hchild := h.child g k' p' j hg hk' hj hlim hp hs
        rw [tab.link_of_ne (hne hchild)]
        exact hchild

end AddTable

end Tree

/-- The entry of `table` for page `n` leads to the table `next`. -/
def Leads (m : Memory) (k table n next : Nat) : Prop :=
  isPresent (entryAt m table (pageIndex k n)) = true ∧
    hasFlag (entryAt m table (pageIndex k n)) ptePageSize = false ∧
    physAddr (entryAt m table (pageIndex k n)) = next

theorem translate_leads {m : Memory} {k table n next : Nat} (hk : k ≠ 0)
    (h : Leads m k table n next) (a : Perms) :
    translate m (k + 1) table n a =
      translate m k next n (a.through (entryAt m table (pageIndex k n))) := by
  obtain ⟨hp, hs, rfl⟩ := h
  exact translate_table hk hp hs

theorem SmallPath.head {m : Memory} {k table n : Nat} (h : SmallPath m (k + 1) table n)
    (hk : k ≠ 0) (hp : isPresent (entryAt m table (pageIndex k n)) = true) :
    hasFlag (entryAt m table (pageIndex k n)) ptePageSize = false := (h hp hk).1

theorem SmallPath.tail {m : Memory} {k table n next : Nat} (h : SmallPath m (k + 1) table n)
    (hk : k ≠ 0) (hl : Leads m k table n next) : SmallPath m k next n := by
  obtain ⟨hp, -, rfl⟩ := hl
  exact (h hp hk).2

/-- Three links lead from the root to the last table. -/
theorem translate_descend {m : Memory} {n t₄ t₃ t₂ t₁ : Nat} (h₃ : Leads m 3 t₄ n t₃)
    (h₂ : Leads m 2 t₃ n t₂) (h₁ : Leads m 1 t₂ n t₁) (a : Perms) :
    ∃ a', translate m 4 t₄ n a = translate m 1 t₁ n a' := by
  rw [translate_leads (by decide) h₃, translate_leads (by decide) h₂,
    translate_leads (by decide) h₁]
  exact ⟨_, rfl⟩

end Paging
