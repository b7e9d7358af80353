import Coconut.Effects

/-!
# Giving back page tables

The frames a walk over page tables frees, and why it meets each of them before it is
zeroed: at every moment the frames given back lie in subtrees the walk is done with.
`lowerTables` lists them, and by the ownership map they are the tables of the tree, each
once.
-/
namespace Coconut
open Paging

variable {isRam : Nat → Prop} {own : Owners Nat} {r r' : Ram} {m : Memory} {t : Nat}

/-! ## Sequences of frees -/

/-- What `zero_and_free` calls for `frames`, in this order, do. -/
structure FreesAll (frames : List Nat) (r r' : Ram) : Prop where
  wellFormed : r'.WellFormed
  managed : ∀ f, r'.Managed f ↔ r.Managed f
  live : ∀ f, r'.Live f ↔ r.Live f ∧ f ∉ frames
  other : ∀ f, f ∉ frames → Memory.SameFrame r.mem r'.mem f
  zero : ∀ f ∈ frames, ∀ x, Memory.frameOf x = f → r'.mem x = 0

theorem sameFrame_foldl {frames : List Nat} : ∀ {r : Ram}, (∀ f ∈ frames, f % 4096 = 0) →
    ∀ f, f ∉ frames → Memory.SameFrame r.mem (frames.foldl zeroAndFree r).mem f := by
  induction frames with
  | nil => exact fun _ f _ => Memory.SameFrame.refl _ _
  | cons p frames ih =>
    intro r ha f hf
    obtain ⟨hne, hf⟩ := List.ne_and_not_mem_of_not_mem_cons hf
    exact (r.mem.fill_sameFrame 0 (ha p List.mem_cons_self) hne).trans
      (ih (fun g hg => ha g (List.mem_cons_of_mem _ hg)) f hf)

theorem foldl_zeroAndFree {frames : List Nat} : ∀ {r : Ram}, r.WellFormed → (∀ f ∈ frames, f % 4096 = 0) →
    FreesAll frames r (frames.foldl zeroAndFree r) := by
  induction frames with
  | nil =>
    exact fun hw _ => ⟨hw, fun _ => Iff.rfl, fun f => (and_iff_left List.not_mem_nil).symm,
      fun f _ => Memory.SameFrame.refl _ _, nofun⟩
  | cons p frames ih =>
    intro r hw ha
    have hp := ha p List.mem_cons_self
    have hrest : ∀ f ∈ frames, f % 4096 = 0 := fun g hg => ha g (List.mem_cons_of_mem _ hg)
    have hw' : Ram.WellFormed { r with mem := r.mem.fill p 4096 0 } :=
      ⟨hw.aligned, hw.taken, hw.distinct⟩
    obtain ⟨hwell, hmanaged, hlive⟩ := Ram.freeFrame_spec hw' hp
    have h := ih (r := zeroAndFree r p) hwell hrest
    refine ⟨h.wellFormed, fun f => (h.managed f).trans (hmanaged f), fun f => ?_,
      sameFrame_foldl ha, fun f hf x hx => ?_⟩
    · rw [List.foldl_cons, h.live, List.mem_cons, not_or, ← and_assoc]
      exact and_congr_left fun _ => hlive f
    · by_cases hmem : f ∈ frames
      · exact h.zero f hmem x hx
      · obtain rfl : f = p := (List.mem_cons.mp hf).resolve_right hmem
        refine (h.other f hmem x hx).trans ?_
        have := Memory.frameOf_le x
        have := Memory.lt_frameOf x
        exact Memory.fill_of_mem _ (by omega) (by omega)

/-! ## The walk over the entries of a table -/

/-- The frames a walk over `n` entries of `table` from `i` on gives back, where `frames e`
are those a present entry stands for. -/
def entryFrames (frames : Nat → List Nat) (m : Memory) (table : Nat) : Nat → Nat → List Nat
  | 0, _ => []
  | n + 1, i =>
    (if isPresent (entryAt m table i) then frames (entryAt m table i) else []) ++
      entryFrames frames m table n (i + 1)

section Entries
variable {frames : Nat → List Nat} {table : Nat}

theorem mem_entryFrames {n f : Nat} : ∀ {i : Nat}, f ∈ entryFrames frames m table n i ↔
    ∃ j, i ≤ j ∧ j < i + n ∧ isPresent (entryAt m table j) = true ∧ f ∈ frames (entryAt m table j) := by
  induction n with
  | zero => exact ⟨nofun, fun ⟨j, h1, h2, _⟩ => absurd h2 (by omega)⟩
  | succ n ih =>
    intro i
    rw [entryFrames, List.mem_append, ih]
    constructor
    · rintro (hf | ⟨j, h1, h2, hp, hf⟩)
      · split at hf
        · exact ⟨i, Nat.le_refl i, by omega, ‹_›, hf⟩
        · cases hf
      · exact ⟨j, by omega, by omega, hp, hf⟩
    · rintro ⟨j, h1, h2, hp, hf⟩
      by_cases hj : j = i
      · subst hj
        rw [if_pos hp]
        exact Or.inl hf
      · exact Or.inr ⟨j, by omega, by omega, hp, hf⟩

theorem nodup_entryFrames {n : Nat} : ∀ {i : Nat},
    (∀ j, i ≤ j → j < i + n → isPresent (entryAt m table j) = true →
      (frames (entryAt m table j)).Nodup) →
    (∀ j j' f, i ≤ j → j < j' → j' < i + n → isPresent (entryAt m table j) = true →
      isPresent (entryAt m table j') = true → f ∈ frames (entryAt m table j) →
      f ∉ frames (entryAt m table j')) → (entryFrames frames m table n i).Nodup := by
  induction n with
  | zero => exact fun _ _ => List.nodup_nil
  | succ n ih =>
    intro i hnodup hdisj
    have hrest := ih (i := i + 1) (fun j h1 h2 => hnodup j (by omega) (by omega))
      fun j j' f h1 h2 h3 => hdisj j j' f (by omega) h2 (by omega)
    rw [entryFrames]
    split
    · rename_i hp
      refine List.nodup_append.mpr ⟨hnodup i (Nat.le_refl i) (by omega) hp, hrest, fun f hf g hg he => ?_⟩
      subst he
      obtain ⟨j, h1, h2, hp', hg⟩ := mem_entryFrames.mp hg
      exact hdisj i j f (Nat.le_refl i) (by omega) (by omega) hp hp' hf hg
    · exact hrest

/-- **The loop over the entries** gives back the frames its entries stand for, if what it
still has to read is never among what it has given back. -/
theorem forPresent_eq_foldl {visit : Nat → Ram → Ram} {n : Nat} (reads : Nat → Nat → Prop)
    (hta : table % 4096 = 0) : ∀ {i : Nat} {r : Ram}, i + n ≤ 512 →
    Memory.SameFrame m r.mem table → (∀ j f, i ≤ j → reads j f → Memory.SameFrame m r.mem f) →
    (∀ j, i ≤ j → j < i + n → isPresent (entryAt m table j) = true →
      (∀ r', (∀ f, reads j f → Memory.SameFrame m r'.mem f) →
        visit (entryAt m table j) r' = (frames (entryAt m table j)).foldl zeroAndFree r') ∧
      ∀ f ∈ frames (entryAt m table j), f % 4096 = 0 ∧ f ≠ table ∧ ∀ j', j < j' → ¬ reads j' f) →
    forPresent visit table n i r = (entryFrames frames m table n i).foldl zeroAndFree r := by
  induction n with
  | zero => exact fun _ _ _ _ => rfl
  | succ n ih =>
    intro i r hn htable hreads hvisit
    have hentry : entryAt r.mem table i = entryAt m table i := entryAt_congr htable hta (by omega)
    rw [forPresent, entryFrames, List.foldl_append]
    simp only [hentry]
    by_cases hp : isPresent (entryAt m table i) = true
    · obtain ⟨hself, hframes⟩ := hvisit i (Nat.le_refl i) (by omega) hp
      rw [if_pos hp, if_pos hp, hself r fun f => hreads i f (Nat.le_refl i)]
      have hsame := sameFrame_foldl (r := r) fun f hf => (hframes f hf).1
      refine ih (by omega) (htable.trans (hsame table fun hc => (hframes table hc).2.1 rfl))
        (fun j f hj hf => (hreads j f (by omega) hf).trans (hsame f fun hc => ?_))
        fun j h1 h2 => hvisit j (by omega) (by omega)
      exact (hframes f hc).2.2 j hj hf
    · rw [if_neg hp, if_neg hp]
      exact ih (by omega) htable (fun j f hj => hreads j f (by omega))
        fun j h1 h2 => hvisit j (by omega) (by omega)

end Entries

/-! ## The tables of a tree -/

/-- A table of tree `t` in the subtree of the node of level `k + 1` with path `p`. -/
def Below (own : Owners Nat) (t k p f : Nat) : Prop :=
  ∃ j q, j ≤ k ∧ own f = some (.node t (j + 1) q) ∧ q / 512 ^ (k - j) = p

/-- The frames the walk gives back below a table of level `k + 1`, children first. -/
def tablesUnder (m : Memory) : Nat → Nat → List Nat
  | 0, _ => []
  | k + 1, g => entryFrames (fun e => tablesUnder m k (physAddr e) ++ [physAddr e]) m g 512 0

/-- The frames an entry of a table of level `k + 2` stands for. -/
def childFrames (m : Memory) (k e : Nat) : List Nat := tablesUnder m k (physAddr e) ++ [physAddr e]

/-- The tables of the lower half. -/
def lowerTables (m : Memory) (root : Nat) : List Nat := entryFrames (childFrames m 2) m root 256 0

section Tables
variable {k p i f g : Nat}

theorem Below.unique {p' : Nat} (h : Below own t k p f) (h' : Below own t k p' f) : p = p' := by
  obtain ⟨j, q, -, ho, rfl⟩ := h
  obtain ⟨j', q', -, ho', rfl⟩ := h'
  rw [ho] at ho'
  obtain ⟨-, hj, rfl⟩ := Owner.node.inj (Option.some.inj ho')
  rw [Nat.succ.inj hj]

/-- The subtree of a child is part of the subtree. -/
theorem Below.parent (hi : i < 512) (h : Below own t k (p * 512 + i) f) : Below own t (k + 1) p f := by
  obtain ⟨j, q, hj, ho, hq⟩ := h
  refine ⟨j, q, by omega, ho, ?_⟩
  rw [Nat.succ_sub hj, Nat.pow_succ, ← Nat.div_div_eq_div_mul, hq]
  omega

/-- A present entry above the last level leads to the child its index names. -/
theorem owner_child (h : TablesOk own isRam m) (hg : own g = some (.node t (k + 2) p)) (hi : i < 512)
    (hk : k = 2 → i < 256) (hp : isPresent (entryAt m g i) = true) :
    own (physAddr (entryAt m g i)) = some (.node t (k + 1) (p * 512 + i)) ∧
      hasFlag (entryAt m g i) ptePageSize = false := by
  cases h.tree g t (k + 1) p hg i hi with
  | absent h => rw [hp] at h; cases h
  | upper hk' hi' => exact absurd (hk (by omega)) (by omega)
  | table _ _ _ _ _ hs ho => exact ⟨ho, hs⟩
  | page hk' => cases hk'
  | device hk' => cases hk'

theorem mem_tablesUnder (h : TablesOk own isRam m) : ∀ {g p : Nat}, k < 3 →
    own g = some (.node t (k + 1) p) → f ∈ tablesUnder m k g →
    ∃ j q, j < k ∧ own f = some (.node t (j + 1) q) ∧ q / 512 ^ (k - j) = p := by
  induction k with
  | zero => exact fun _ _ hf => absurd hf List.not_mem_nil
  | succ k ih =>
    intro g p hk hg hf
    obtain ⟨i, -, hi, hp, hf⟩ := mem_entryFrames.mp hf
    obtain ⟨ho, -⟩ := owner_child h hg (by omega) (fun hc => by omega) hp
    rcases List.mem_append.mp hf with hf | hf
    · obtain ⟨j, q, hj, hof, hq⟩ := ih (by omega) ho hf
      refine ⟨j, q, by omega, hof, ?_⟩
      rw [Nat.succ_sub (Nat.le_of_lt hj), Nat.pow_succ, ← Nat.div_div_eq_div_mul, hq]
      omega
    · obtain rfl := List.mem_singleton.mp hf
      refine ⟨k, p * 512 + i, by omega, ho, ?_⟩
      rw [Nat.add_sub_cancel_left, Nat.pow_one]
      omega

/-- What an entry stands for lies in the subtree of the child. -/
theorem below_childFrames (h : TablesOk own isRam m) (hk : k < 3)
    (hg : own g = some (.node t (k + 2) p)) (hi : i < 512) (hk3 : k = 2 → i < 256)
    (hp : isPresent (entryAt m g i) = true) (hf : f ∈ childFrames m k (entryAt m g i)) :
    Below own t k (p * 512 + i) f := by
  obtain ⟨ho, -⟩ := owner_child h hg hi hk3 hp
  rcases List.mem_append.mp hf with hf | hf
  · obtain ⟨j, q, hj, hof, hq⟩ := mem_tablesUnder h hk ho hf
    exact ⟨j, q, Nat.le_of_lt hj, hof, hq⟩
  · rw [List.mem_singleton.mp hf]
    exact ⟨k, _, Nat.le_refl k, ho, by rw [Nat.sub_self, Nat.pow_zero, Nat.div_one]⟩

/-- The frames of different entries differ. -/
theorem nodup_level (h : TablesOk own isRam m) {n : Nat} (hk : k < 3) (hn : n ≤ 512)
    (hk3 : k = 2 → n ≤ 256) (hg : own g = some (.node t (k + 2) p))
    (hchild : ∀ c q, own c = some (.node t (k + 1) q) → (tablesUnder m k c).Nodup) :
    (entryFrames (childFrames m k) m g n 0).Nodup := by
  refine nodup_entryFrames (fun i _ hi hp => ?_) fun i i' f _ hlt hi' hp hp' hf hf' => ?_
  · obtain ⟨ho, -⟩ := owner_child h hg (by omega) (fun hc => by have := hk3 hc; omega) hp
    refine List.nodup_append.mpr ⟨hchild _ _ ho, List.pairwise_singleton _ _, fun f hf c hc he => ?_⟩
    subst he
    obtain ⟨j, q, hj, hof, -⟩ := mem_tablesUnder h hk ho hf
    rw [List.mem_singleton.mp hc, ho] at hof
    have := (Owner.node.inj (Option.some.inj hof)).2.1
    omega
  · have hb := below_childFrames h hk hg (by omega) (fun hc => by have := hk3 hc; omega) hp hf
    have hb' := below_childFrames h hk hg (by omega) (fun hc => by have := hk3 hc; omega) hp' hf'
    have := hb.unique hb'
    omega

theorem nodup_tablesUnder (h : TablesOk own isRam m) : ∀ {g p : Nat}, k < 3 →
    own g = some (.node t (k + 1) p) → (tablesUnder m k g).Nodup := by
  induction k with
  | zero => exact fun _ _ => List.nodup_nil
  | succ k ih =>
    exact fun hk hg => nodup_level h (by omega) (Nat.le_refl _) (fun hc => by omega) hg
      fun c q hc => ih (by omega) hc

/-! ## The walk of `free_lower_half_tables` -/

/-- `free` gives back the tables below a table of level `k + 1`. -/
def FreesTables (own : Owners Nat) (m : Memory) (t : Nat) (free : Nat → Ram → Ram) (k : Nat) : Prop :=
  ∀ g p r, own g = some (.node t (k + 1) p) → (∀ f, Below own t k p f → Memory.SameFrame m r.mem f) →
    free g r = (tablesUnder m k g).foldl zeroAndFree r

/-- **One level of the walk.**  While it goes on, only frames of subtrees it is done with
have been zeroed. -/
theorem forPresent_tables (h : TablesOk own isRam m) {free visit : Nat → Ram → Ram} {n : Nat}
    (hfree : FreesTables own m t free k)
    (hvisit : ∀ e r, hasFlag e ptePageSize = false →
      visit e r = zeroAndFree (free (physAddr e) r) (physAddr e))
    (hk : k < 3) (hn : n ≤ 512) (hk3 : k = 2 → n ≤ 256) (hg : own g = some (.node t (k + 2) p))
    (hr : ∀ f, Below own t (k + 1) p f → Memory.SameFrame m r.mem f) :
    forPresent visit g n 0 r = (entryFrames (childFrames m k) m g n 0).foldl zeroAndFree r := by
  have hself : Below own t (k + 1) p g :=
    ⟨k + 1, p, Nat.le_refl _, hg, by rw [Nat.sub_self, Nat.pow_zero, Nat.div_one]⟩
  refine forPresent_eq_foldl (fun i f => i < 512 ∧ Below own t k (p * 512 + i) f) (h.ram g _ hg).2.1
    (by omega) (hr g hself) (fun i f _ hf => hr f (hf.2.parent hf.1)) fun i _ hi hp => ?_
  have hi3 : k = 2 → i < 256 := fun hc => by have := hk3 hc; omega
  obtain ⟨ho, hs⟩ := owner_child h hg (by omega) hi3 hp
  refine ⟨fun r' hr' => ?_, fun f hf => ?_⟩
  · rw [hvisit _ _ hs, hfree _ _ r' ho fun f hf => hr' f ⟨by omega, hf⟩, childFrames, List.foldl_append]
    rfl
  · have hb := below_childFrames h hk hg (by omega) hi3 hp hf
    have hb' := hb
    obtain ⟨j, q, hj, hof, -⟩ := hb'
    refine ⟨(h.ram f _ hof).2.1, fun he => ?_, fun i' hlt hc => ?_⟩
    · rw [he, hg] at hof
      have := (Owner.node.inj (Option.some.inj hof)).2.1
      omega
    · have := hb.unique hc.2
      omega

theorem freesTables_freePd (h : TablesOk own isRam m) : FreesTables own m t freePd 1 := by
  intro g p r hg hr
  -- page tables are given back without a look at their entries
  have hleaf : FreesTables own m t (fun _ r => r) 0 := fun _ _ _ _ _ => rfl
  exact forPresent_tables h hleaf (fun e r hs => by rw [hs]; rfl) (by decide) (Nat.le_refl _)
    (fun hc => by cases hc) hg hr

theorem freesTables_freePdpt (h : TablesOk own isRam m) : FreesTables own m t freePdpt 2 :=
  fun _ _ _ hg hr => forPresent_tables h (freesTables_freePd h) (fun _ _ _ => rfl) (by decide)
    (Nat.le_refl _) (fun hc => by cases hc) hg hr

/-- **`free_lower_half_tables`** gives back the tables of the lower half, each once. -/
theorem freeLowerHalfTables_eq (h : TablesOk own isRam m) {root : Nat}
    (hroot : own root = some (.node t 4 0))
    (hr : ∀ f k q, own f = some (.node t (k + 1) q) → Memory.SameFrame m r.mem f) :
    freeLowerHalfTables root r = (lowerTables m root).foldl zeroAndFree r :=
  forPresent_tables h (freesTables_freePdpt h) (fun _ _ _ => rfl) (by decide) (by decide)
    (fun _ => Nat.le_refl _) hroot fun f ⟨j, q, _, hof, _⟩ => hr f j q hof

/-- **The tables of the lower half are the tables of the tree.** -/
theorem mem_lowerTables (h : TablesOk own isRam m) (hl : Linked own m t) {root : Nat}
    (hroot : own root = some (.node t 4 0)) (hone : ∀ g q, own g = some (.node t 4 q) → g = root) :
    f ∈ lowerTables m root ↔ ∃ k p, k < 3 ∧ own f = some (.node t (k + 1) p) := by
  constructor
  · intro hf
    obtain ⟨i, -, hi, hp, hf⟩ := mem_entryFrames.mp hf
    obtain ⟨j, q, hj, ho, -⟩ := below_childFrames h (by decide) hroot (by omega) (fun _ => by omega) hp hf
    exact ⟨j, q, by omega, ho⟩
  · -- a table and what is below it, from the parent's entry; down the three levels
    have htop : ∀ f p, own f = some (.node t 3 p) → ∀ x ∈ tablesUnder m 2 f ++ [f], x ∈ lowerTables m root := by
      intro f p hf x hx
      obtain ⟨g, hg, hp, rfl⟩ := hl f 2 p hf (by decide)
      obtain rfl := hone g _ hg
      refine mem_entryFrames.mpr ⟨p % 512, Nat.zero_le _, ?_, hp, hx⟩
      cases h.tree g t 3 _ hg (p % 512) (Nat.mod_lt _ (by decide)) with
      | absent hp' => rw [hp] at hp'; cases hp'
      | upper _ _ _ ho => rw [hf] at ho; cases ho
      | table _ hi => have := hi rfl; omega
      | page hk => cases hk
      | device hk => cases hk
    have hdown : ∀ k, k < 2 → (∀ f p, own f = some (.node t (k + 2) p) →
        ∀ x ∈ tablesUnder m (k + 1) f ++ [f], x ∈ lowerTables m root) →
        ∀ f p, own f = some (.node t (k + 1) p) →
        ∀ x ∈ tablesUnder m k f ++ [f], x ∈ lowerTables m root := by
      intro k hk hup f p hf x hx
      obtain ⟨g, hg, hp, rfl⟩ := hl f k p hf (by omega)
      refine hup g _ hg x (List.mem_append_left _ (mem_entryFrames.mpr ⟨p % 512, Nat.zero_le _, ?_, hp, hx⟩))
      have := Nat.mod_lt p (by decide : 0 < 512)
      omega
    rintro ⟨k, p, hk, hf⟩
    have hmem : f ∈ tablesUnder m k f ++ [f] := List.mem_append_right _ (List.mem_singleton_self f)
    have hmid := hdown 1 (by decide) htop
    obtain rfl | rfl | rfl : k = 0 ∨ k = 1 ∨ k = 2 := by omega
    · exact hdown 0 (by decide) hmid f p hf f hmem
    · exact hmid f p hf f hmem
    · exact htop f p hf f hmem

theorem nodup_lowerTables (h : TablesOk own isRam m) {root : Nat} (hroot : own root = some (.node t 4 0)) :
    (lowerTables m root).Nodup :=
  nodup_level h (by decide) (by decide) (fun _ => Nat.le_refl _) hroot fun _ _ hc =>
    nodup_tablesUnder h (by decide) hc

end Tables

end Coconut
