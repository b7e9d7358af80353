import Coconut.Mmap
import Coconut.Supply
import Mathlib.Order.Interval.Finset.Nat

/-!
# When `mmap` stops the supervisor

The checks of `handle_sys_mmap` look at the accounts of the caller: the image, the data
region, the list of frames.  `map_4k` looks at the page tables, and there it panics in two
cases: a page is mapped that the accounts do not mention, or the frame for the page itself
was the last that could be had and a table is missing.  Both are decided before the loop
starts, by the translations, the missing tables and the supply of frames
(`mmapPages_panics_iff`).
-/
namespace Coconut
open Paging

/-! ## The frames that a range of pages takes -/

/-- The tables of level `k` that the pages from `l` to `l + n` lack, by their place. -/
def lackedTables (m : Memory) (root l n k : Nat) : Finset Nat :=
  ((Finset.Ico l (l + n)).filter fun x => k ≤ missingTables m 4 root x).image (· / 512 ^ k)

/-- The frames that it takes to map these pages: one for each, and one for each table. -/
def framesFor (m : Memory) (root l n : Nat) : Nat :=
  n + ((lackedTables m root l n 1).card + (lackedTables m root l n 2).card +
    (lackedTables m root l n 3).card)

/-- What is served with `a` need not be served for the rest. -/
theorem card_image_filter_insert {α β : Type} [DecidableEq α] [DecidableEq β] (f : α → β) {a : α}
    {s : Finset α} {p q : α → Prop} [DecidablePred p] [DecidablePred q]
    (hp : ∀ x ∈ s, f x = f a → (p x ↔ p a)) (hq : ∀ x ∈ s, q x ↔ p x ∧ f x ≠ f a) :
    (((insert a s).filter p).image f).card = (if p a then 1 else 0) + ((s.filter q).image f).card := by
  have hmem : f a ∉ (s.filter q).image f := by
    intro hc
    obtain ⟨x, hx, hfx⟩ := Finset.mem_image.mp hc
    obtain ⟨hxs, hqx⟩ := Finset.mem_filter.mp hx
    exact ((hq x hxs).mp hqx).2 hfx
  by_cases hpa : p a
  · have himage : ((insert a s).filter p).image f = insert (f a) ((s.filter q).image f) := by
      ext y
      simp only [Finset.mem_image, Finset.mem_filter, Finset.mem_insert]
      constructor
      · rintro ⟨x, ⟨rfl | hxs, hpx⟩, rfl⟩
        · exact Or.inl rfl
        · by_cases hfx : f x = f a
          · exact Or.inl hfx
          · exact Or.inr ⟨x, ⟨hxs, (hq x hxs).mpr ⟨hpx, hfx⟩⟩, rfl⟩
      · rintro (rfl | ⟨x, ⟨hxs, hqx⟩, rfl⟩)
        · exact ⟨a, ⟨Or.inl rfl, hpa⟩, rfl⟩
        · exact ⟨x, ⟨Or.inr hxs, ((hq x hxs).mp hqx).1⟩, rfl⟩
    rw [himage, Finset.card_insert_of_notMem hmem, if_pos hpa, Nat.add_comm]
  · have hfilter : (insert a s).filter p = s.filter q := by
      ext x
      simp only [Finset.mem_filter, Finset.mem_insert]
      constructor
      · rintro ⟨rfl | hxs, hpx⟩
        · exact absurd hpx hpa
        · exact ⟨hxs, (hq x hxs).mpr ⟨hpx, fun hfx => hpa ((hp x hxs hfx).mp hpx)⟩⟩
      · rintro ⟨hxs, hqx⟩
        exact ⟨Or.inr hxs, ((hq x hxs).mp hqx).1⟩
    rw [hfilter, if_neg hpa, Nat.zero_add]

/-- Mapping the first page pays for its tables: the others then lack what is left. -/
theorem framesFor_succ {m m' : Memory} {root l n : Nat}
    (h : ∀ x ∈ Finset.Ico (l + 1) (l + 1 + n), ∀ k, k ≠ 0 → (k ≤ missingTables m' 4 root x ↔
      k ≤ missingTables m 4 root x ∧ x / 512 ^ k ≠ l / 512 ^ k)) :
    framesFor m root l (n + 1) = 1 + missingTables m 4 root l + framesFor m' root (l + 1) n := by
  have hinsert : Finset.Ico l (l + (n + 1)) = insert l (Finset.Ico (l + 1) (l + 1 + n)) := by
    ext x
    simp only [Finset.mem_insert, Finset.mem_Ico]
    omega
  have hcard : ∀ k, k ≠ 0 → (lackedTables m root l (n + 1) k).card =
      (if k ≤ missingTables m 4 root l then 1 else 0) + (lackedTables m' root (l + 1) n k).card := by
    intro k hk
    unfold lackedTables
    rw [hinsert]
    exact card_image_filter_insert _ (fun x _ hx => le_missingTables_congr m hk hx 4 root)
      fun x hx => h x hx k hk
  have hle : missingTables m 4 root l ≤ 3 := missingTables_le ..
  unfold framesFor
  rw [hcard 1 (by decide), hcard 2 (by decide), hcard 3 (by decide)]
  split_ifs <;> omega

theorem framesFor_zero (m : Memory) (root l : Nat) : framesFor m root l 0 = 0 := by
  simp [framesFor, lackedTables]

theorem framesFor_one (m : Memory) (root l : Nat) :
    framesFor m root l 1 = 1 + missingTables m 4 root l := by
  have hrest : framesFor m root l (0 + 1) = 1 + missingTables m 4 root l + framesFor m root (l + 1) 0 :=
    framesFor_succ (by simp)
  rw [framesFor_zero, Nat.add_zero] at hrest
  exact hrest

/-! ## The loop -/

section Loop
variable {limit : Nat} {tab : TableMap} {r r' : Ram} {root : Nat}

/-- The frame for the page itself is no table: the tree stays as it is. -/
structure TakesFrame (limit : Nat) (tab : TableMap) (r r' : Ram) (root : Nat) : Prop where
  tree : TreeOk limit tab r' root
  supply : r'.supply + 1 = r.supply
  same : SamePages limit root r.mem r'.mem
  missing : ∀ l, l < limit → SmallPath r.mem 4 root l →
    missingTables r'.mem 4 root l = missingTables r.mem 4 root l

/-- Tables whose entries are kept lead to the same tables. -/
theorem Tree.missingTables_entries {m m' : Memory} (h : Tree limit tab m root) {k g l : Nat}
    (hl : l < limit) (hg : tab g = some (k, l / 512 ^ k)) (hsp : SmallPath m k g l)
    (hsame : ∀ f x, tab f = some x → ∀ j, j < 512 → entryAt m' f j = entryAt m f j) :
    missingTables m' k g l = missingTables m k g l := by
  induction k generalizing g with
  | zero => rfl
  | succ k ih =>
    have he := hsame g _ hg _ (pageIndex_lt k l)
    cases hp : isPresent (entryAt m g (pageIndex k l)) with
    | false => rw [missingTables_absent hp, missingTables_absent (by rw [he, hp])]
    | true =>
      by_cases hk : k = 0
      · subst hk
        rfl
      have hsmall := hsp.head hk hp
      rw [missingTables_present hk hp, missingTables_present hk (by rw [he, hp]), he]
      exact ih (h.next_on_path hl hg hk hp hsmall) (hsp.tail hk ⟨hp, hsmall, rfl⟩)

theorem TreeOk.takesFrame (h : TreeOk limit tab r root) {p : Nat}
    (hal : r.allocFrameZeroed = some (p, r')) : TakesFrame limit tab r r' root := by
  obtain ⟨spec, hmem⟩ := Ram.allocFrameZeroed_spec h.wellFormed hal
  have hpa := (spec.managed.bounds h.wellFormed).1
  have hsame : ∀ f x, tab f = some x → ∀ j, j < 512 → entryAt r'.mem f j = entryAt r.mem f j := by
    intro f x hf j hj
    have hne : f ≠ p := by
      rintro rfl
      rw [h.unused spec] at hf
      cases hf
    rw [hmem]
    exact entryAt_congr (r.mem.fill_sameFrame 0 hpa hne) (h.tree.aligned f x hf) hj
  refine ⟨⟨spec.wellFormed, ?_, h.tree.range, h.tree.root, h.tree.aligned, h.tree.level, ?_⟩,
    Ram.allocFrameZeroed_supply h.wellFormed hal, ⟨?_, ?_⟩, ?_⟩
  · intro f x hf hm
    exact (spec.live_iff f).mpr (Or.inl (h.allocated f x hf ((spec.managed_iff f).mp hm)))
  · intro f k q i hf hk hi hlim hp hs
    rw [hsame f _ hf i hi] at hp hs ⊢
    exact h.tree.child f k q i hf hk hi hlim hp hs
  · intro l hl a
    exact h.tree.translate_congr hl (h.tree.root_on_path hl)
      (fun j f _ hf => hsame f _ hf _ (pageIndex_lt j l)) a
  · intro l hl hs
    exact h.tree.smallPath_congr hl (h.tree.root_on_path hl)
      (fun j f _ _ hf => hsame f _ hf _ (pageIndex_lt j l)) hs
  · intro l hl hs
    exact Tree.missingTables_entries h.tree hl (h.tree.root_on_path hl) hs hsame

/-- Mapping the `n` pages from `l` on stops with a panic: there are frames for the pages up to
one that is mapped, or for which the tables cannot be had. -/
def Traps (m : Memory) (root supply l n : Nat) : Prop :=
  ∃ i < n, (∀ j < i, translate m 4 root (l + j) Perms.full = none) ∧ framesFor m root l i < supply ∧
    (translate m 4 root (l + i) Perms.full ≠ none ∨ supply < framesFor m root l (i + 1))

/-- After the first page the loop is in the same position. -/
theorem traps_succ {m m' : Memory} {supply supply' l n : Nat}
    (hframes : ∀ i ≤ n, framesFor m root l (i + 1) = 1 + missingTables m 4 root l +
      framesFor m' root (l + 1) i)
    (hsupply : supply' + missingTables m 4 root l + 1 = supply)
    (hfree : translate m 4 root l Perms.full = none)
    (hother : ∀ i < n, translate m' 4 root (l + 1 + i) Perms.full =
      translate m 4 root (l + (i + 1)) Perms.full) :
    Traps m root supply l (n + 1) ↔ Traps m' root supply' (l + 1) n := by
  constructor
  · rintro ⟨i, hi, hbefore, henough, hstop⟩
    cases i with
    | zero =>
      have hone := hframes 0 (Nat.zero_le n)
      rw [framesFor_zero] at hone
      rcases hstop with hmapped | hshort
      · exact absurd hfree hmapped
      · omega
    | succ i =>
      have hi : i < n := by omega
      have h1 := hframes i (by omega)
      have h2 := hframes (i + 1) hi
      refine ⟨i, hi, fun j hj => ?_, by omega, ?_⟩
      · rw [hother j (by omega)]
        exact hbefore (j + 1) (by omega)
      · rw [hother i hi]
        exact hstop.imp_right fun hshort => by omega
  · rintro ⟨i, hi, hbefore, henough, hstop⟩
    have h1 := hframes i (by omega)
    have h2 := hframes (i + 1) hi
    refine ⟨i + 1, by omega, fun j hj => ?_, by omega, ?_⟩
    · cases j with
      | zero => exact hfree
      | succ j =>
        rw [← hother j (by omega)]
        exact hbefore j (by omega)
    · rw [← hother i hi]
      exact hstop.imp_right fun hshort => by omega

theorem pushFrame_of_lt {frames : List Nat} {p : Nat} (h : frames.length < maxShardFrames) :
    pushFrame frames p = .ok (frames ++ [p]) := if_pos h

/-- A page has been mapped in the frame that was taken for it: what is left to do. -/
theorem TakesFrame.traps_iff {r₁ r₂ : Ram}
    (taken : TakesFrame limit tab r r₁ root) (hsp : ∀ l, l < limit → SmallPath r.mem 4 root l)
    {virt phys flags n : Nat} (hflags : FlagsOk flags) (hn : pageOf virt + (n + 1) ≤ limit)
    (hm : map4k r₁ root virt phys flags = .ok r₂)
    (hcost : r₂.supply + missingTables r₁.mem 4 root (pageOf virt) = r₁.supply) :
    (∃ tab', TreeOk limit tab' r₂ root) ∧ (∀ l, l < limit → SmallPath r₂.mem 4 root l) ∧
      (Traps r.mem root r.supply (pageOf virt) (n + 1) ↔
        Traps r₂.mem root r₂.supply (pageOf virt + 1) n) := by
  have hsp₁ : ∀ l, l < limit → SmallPath r₁.mem 4 root l := fun l hl => taken.same.small l hl (hsp l hl)
  have hlt : pageOf virt < limit := by omega
  obtain ⟨tab', maps⟩ := map4k_tree_masked taken.tree hlt (hsp₁ _ hlt) hflags hm
  have hspares := map4k_spares taken.tree hlt (hsp₁ _ hlt) hm
  refine ⟨⟨tab', maps.tree⟩, fun l hl => maps.small l hl (hsp₁ l hl), ?_⟩
  have hmissing := taken.missing _ hlt (hsp _ hlt)
  have hsupply := taken.supply
  refine traps_succ (fun i hi => framesFor_succ fun x hx k hk => ?_) (by omega) ?_ fun i hi => ?_
  · have hx := Finset.mem_Ico.mp hx
    have hxl : x < limit := by omega
    rw [maps.le_missingTables_iff taken.tree hspares hlt hxl (hsp₁ _ hlt) (hsp₁ x hxl) hk,
      taken.missing x hxl (hsp x hxl)]
  · rw [← taken.same.translate _ hlt]
    exact maps.before _
  · have hil : pageOf virt + (i + 1) < limit := by omega
    rw [Nat.add_assoc, Nat.add_comm 1 i, maps.other _ hil (by omega), taken.same.translate _ hil]

/-- **The page loop of `mmap` panics** exactly if a page is reached that is mapped or whose
tables cannot be had. -/
theorem mmapPages_panics_iff {vaStart : Nat} (hva : vaStart % 4096 = 0) (hlimit : limit ≤ 2 ^ 35)
    {n : Nat} : ∀ (i : Nat) {tab : TableMap} {r : Ram} {frames : List Nat}, TreeOk limit tab r root →
      (∀ l, l < limit → SmallPath r.mem 4 root l) → pageOf vaStart + i + n ≤ limit →
      vaStart / 4096 < 2 ^ 36 → frames.length + n ≤ maxShardFrames →
      ((∃ p, mmapPages root vaStart n i r frames = .error p) ↔
        Traps r.mem root r.supply (pageOf vaStart + i) n) := by
  induction n with
  | zero =>
    intro i tab r frames _ _ _ _ _
    refine iff_of_false ?_ ?_
    · rintro ⟨p, hp⟩
      cases hp
    · rintro ⟨j, hj, -⟩
      exact absurd hj (Nat.not_lt_zero j)
  | succ n ih =>
    intro i tab r frames h hsp hbound hva' hlen
    have hpage : pageOf vaStart + i = pageOf (vaStart + i * 4096) := by
      unfold pageOf at hbound ⊢
      omega
    cases hal : r.allocFrameZeroed with
    | none =>
      have hzero := Ram.supply_of_allocFrameZeroed_eq_none hal
      refine iff_of_false ?_ ?_
      · rintro ⟨p, hp⟩
        unfold mmapPages at hp
        simp only [hal] at hp
        cases hp
      · rintro ⟨j, -, -, henough, -⟩
        omega
    | some x =>
      have taken := h.takesFrame hal
      have hlt : pageOf (vaStart + i * 4096) < limit := by omega
      have hstep : mmapPages root vaStart (n + 1) i r frames =
          (map4k x.2 root (vaStart + i * 4096) x.1 dataFlags >>= fun r =>
            mmapPages root vaStart n (i + 1) r (frames ++ [x.1])) := by
        rw [mmapPages]
        simp only [hal]
        rw [pushFrame_of_lt (by omega), Kernel.ok_bind]
      have hmissing := taken.missing _ hlt (hsp _ hlt)
      have hsupply := taken.supply
      have hone := framesFor_one r.mem root (pageOf (vaStart + i * 4096))
      rw [hstep, hpage]
      have hwx : (!hasFlag dataFlags pteWritable || hasFlag dataFlags pteNoExecute) = true := by decide
      rcases map4k_outcome taken.tree x.1 hlt (taken.same.small _ hlt (hsp _ hlt)) hwx with
        ⟨hm, hshort⟩ | ⟨hm, -, htaken⟩ | ⟨r₂, hm, hcost⟩
      · refine iff_of_true ⟨_, by rw [hm]; rfl⟩ ⟨0, Nat.succ_pos n, nofun, ?_, Or.inr ?_⟩
        · rw [framesFor_zero]
          omega
        · rw [Nat.zero_add, hone]
          omega
      · refine iff_of_true ⟨_, by rw [hm]; rfl⟩ ⟨0, Nat.succ_pos n, nofun, ?_, Or.inl ?_⟩
        · rw [framesFor_zero]
          omega
        · rw [Nat.add_zero, ← taken.same.translate _ hlt]
          exact htaken _
      · obtain ⟨⟨tab', htree⟩, hsp', htraps⟩ :=
          taken.traps_iff hsp (n := n) (by decide) (by omega) hm hcost
        rw [hm, Kernel.ok_bind, htraps, ← hpage, Nat.add_assoc (pageOf vaStart)]
        refine ih (i + 1) htree hsp' (by omega) hva' ?_
        rw [List.length_append, List.length_singleton]
        omega

end Loop

end Coconut
