import Coconut.PageForest
import Coconut.Vmm

/-!
# Address spaces and the frame allocator

The ownership map of `PageForest`, kept together with the allocator: a frame that
has an owner is never free (`RamOk`).  So a frame fresh from the allocator has no
owner and can be given any; `ensureTable` uses it for a new table, the callers of
`map4k` for a page.

What a mapping operation on the tree `t` may do is said once, by `Grows`: it adds
nodes to that tree only, fills absent entries only, and leaves the contents of all
other frames alone.  `map4k_spec` adds what becomes of the translation: the page
was not mapped, is mapped as asked, and every other page is translated as before.
-/
namespace Coconut
open Paging

variable {isRam : Nat → Prop} {own own' own'' : Owners Nat} {r r' r'' : Ram}

/-- The ownership map agrees with the page tables and with the allocator. -/
structure RamOk (own : Owners Nat) (isRam : Nat → Prop) (r : Ram) : Prop where
  wellFormed : r.WellFormed
  managed : ∀ f, r.Managed f → isRam f
  owned_live : ∀ f o, own f = some o → r.Managed f → r.Live f
  tables : TablesOk own isRam r.mem

/-- A table of tree `t`. -/
def IsTableOf (t : Nat) (o : Owner Nat) : Prop := ∃ k p, o = .node t (k + 1) p

/-- A frame that belongs to tree `t`. -/
def OfTree (t : Nat) : Owner Nat → Prop
  | .node t' _ _ => t' = t
  | .held t' => t' = t
  | .shared _ => False

theorem OfTree.unique {i j : Nat} {o : Owner Nat} (hi : OfTree i o) (hj : OfTree j o) : i = j := by
  cases o with
  | node => exact Eq.trans (Eq.symm hi) hj
  | held => exact Eq.trans (Eq.symm hi) hj
  | shared => exact hi.elim

/-- What a mapping operation on tree `t` may do. -/
structure Grows (t : Nat) (own : Owners Nat) (r : Ram) (own' : Owners Nat) (r' : Ram)
    (isRam : Nat → Prop) : Prop where
  keeps : own.Extends own'
  adds : ∀ f o, own' f = some o → own f = some o ∨ OfTree t o
  entries : ∀ f o, own f = some o → ∀ i, i < 512 → isPresent (entryAt r.mem f i) = true →
    o.isTable = true → entryAt r'.mem f i = entryAt r.mem f i
  contents : ∀ f o, own f = some o → ¬ IsTableOf t o → Memory.SameFrame r.mem r'.mem f
  devices : ∀ f, ¬ isRam f → Memory.SameFrame r.mem r'.mem f
  live : ∀ f, r.Live f → r'.Live f
  managed : ∀ f, r'.Managed f ↔ r.Managed f
  took : ∀ f, (own f = none ∧ ∃ o, own' f = some o) ↔ (¬ r.Live f ∧ r'.Live f)

namespace Grows
variable {t : Nat}

/-- Without an allocation nothing is taken. -/
theorem took_self {f : Nat} {P : Prop} : (own f = none ∧ ∃ o, own f = some o) ↔ (¬ P ∧ P) :=
  ⟨fun ⟨hn, _, ho⟩ => absurd (hn.symm.trans ho) (Option.some_ne_none _).symm, fun ⟨hn, h⟩ => absurd h hn⟩

theorem refl (t : Nat) (own : Owners Nat) (r : Ram) (isRam : Nat → Prop) :
    Grows t own r own r isRam :=
  ⟨Owners.Extends.refl own, fun _ _ h => Or.inl h, fun _ _ _ _ _ _ _ => rfl,
    fun _ _ _ _ => Memory.SameFrame.refl _ _, fun _ _ => Memory.SameFrame.refl _ _,
    fun _ h => h, fun _ => Iff.rfl, fun _ => took_self⟩

theorem trans (h : Grows t own r own' r' isRam) (h' : Grows t own' r' own'' r'' isRam) :
    Grows t own r own'' r'' isRam where
  keeps := h.keeps.trans h'.keeps
  adds f o hf := (h'.adds f o hf).elim (h.adds f o) Or.inr
  entries f o hf i hi hp ht := by
    have h1 := h.entries f o hf i hi hp ht
    rw [← h1]
    exact h'.entries f o (h.keeps f o hf) i hi (by rw [h1]; exact hp) ht
  contents f o hf ht := (h.contents f o hf ht).trans (h'.contents f o (h.keeps f o hf) ht)
  devices f hf := (h.devices f hf).trans (h'.devices f hf)
  live f hf := h'.live f (h.live f hf)
  managed f := (h'.managed f).trans (h.managed f)
  took f := by
    constructor
    · rintro ⟨hn, o, ho⟩
      cases hf : own' f with
      | none =>
        obtain ⟨hl, hl'⟩ := (h'.took f).mp ⟨hf, o, ho⟩
        exact ⟨fun hlive => hl (h.live f hlive), hl'⟩
      | some o' =>
        obtain ⟨hl, hl'⟩ := (h.took f).mp ⟨hn, o', hf⟩
        exact ⟨hl, h'.live f hl'⟩
    · rintro ⟨hl, hl''⟩
      by_cases hl' : r'.Live f
      · obtain ⟨hn, o, ho⟩ := (h.took f).mpr ⟨hl, hl'⟩
        exact ⟨hn, o, h'.keeps f o ho⟩
      · obtain ⟨hn, ho⟩ := (h'.took f).mpr ⟨hl', hl''⟩
        refine ⟨?_, ho⟩
        cases hf : own f with
        | none => rfl
        | some o => rw [h.keeps f o hf] at hn; cases hn

/-- Links are kept, and it is enough to look at the new tables. -/
theorem linked {t' : Nat} (hg : Grows t own r own' r' isRam) (h : Linked own r.mem t')
    (hnew : ∀ f k p, own' f = some (.node t' (k + 1) p) → own f = some (.node t' (k + 1) p) ∨
      ∃ g, own' g = some (.node t' (k + 2) (p / 512)) ∧
        isPresent (entryAt r'.mem g (p % 512)) = true ∧ physAddr (entryAt r'.mem g (p % 512)) = f) :
    Linked own' r'.mem t' := by
  intro f k p hf hk
  rcases hnew f k p hf with hold | hlink
  · obtain ⟨g, ho, hp, ha⟩ := h f k p hold hk
    have he := hg.entries g _ ho (p % 512) (Nat.mod_lt _ (by decide)) hp rfl
    exact ⟨g, hg.keeps _ _ ho, by rw [he]; exact hp, by rw [he]; exact ha⟩
  · exact hlink

end Grows

/-- What a mapping operation on tree `t` uses frames for: tables that hang in the tree,
and `frames` for something else. -/
structure Takes (t : Nat) (own : Owners Nat) (m : Memory) (frames : List Nat) (own' : Owners Nat)
    (m' : Memory) : Prop where
  linked : Linked own m t → Linked own' m' t
  root : ∀ f k p, 4 ≤ k → own' f = some (.node t k p) → own f = some (.node t k p)
  data : ∀ f, IsData own' t f ↔ IsData own t f ∨ f ∈ frames
  fresh : ∀ f ∈ frames, own f = none
  nodup : frames.Nodup

namespace Takes
variable {t : Nat} {m m' m'' : Memory} {frames frames' : List Nat}

theorem refl (t : Nat) (own : Owners Nat) (m : Memory) : Takes t own m [] own m :=
  ⟨fun h => h, fun _ _ _ _ h => h, fun _ => ⟨Or.inl, fun h => h.elim id nofun⟩, nofun, List.nodup_nil⟩

theorem trans (h : Takes t own m frames own' m') (hx : own.Extends own')
    (h' : Takes t own' m' frames' own'' m'') : Takes t own m (frames ++ frames') own'' m'' where
  linked hl := h'.linked (h.linked hl)
  root f k p hk hf := h.root f k p hk (h'.root f k p hk hf)
  data f := by rw [h'.data, h.data, List.mem_append, or_assoc]
  fresh f hf := by
    rcases List.mem_append.mp hf with hf | hf
    · exact h.fresh f hf
    · cases ho : own f with
      | none => rfl
      | some o =>
        have hn := h'.fresh f hf
        rw [hx f o ho] at hn
        cases hn
  nodup := by
    -- a frame of the second operation had no owner after the first
    refine List.nodup_append.mpr ⟨h.nodup, h'.nodup, fun f hf g hg he => ?_⟩
    subst he
    exact ((h.data f).mpr (Or.inr hf)).owned (h'.fresh f hg)

end Takes

/-- What the allocator's answer means for the ownership map. -/
structure Fresh (own : Owners Nat) (r : Ram) (p : Nat) (r' : Ram) (isRam : Nat → Prop) : Prop where
  unowned : own p = none
  ram : isRam p
  aligned : p % 4096 = 0
  lt : p < 2 ^ 40
  live : r'.Live p
  zeroed : r'.mem = r.mem.fill p 4096 0
  grows : ∀ {t o}, OfTree t o → Grows t own r (own.assign p o) r' isRam
  ok : ∀ o, RamOk (own.assign p o) isRam r'

/-- **A fresh frame** had no owner, and takes any. -/
theorem RamOk.alloc (h : RamOk own isRam r) {p : Nat}
    (ha : r.allocFrameZeroed = some (p, r')) : Fresh own r p r' isRam := by
  unfold Ram.allocFrameZeroed at ha
  obtain ⟨⟨q, r₁⟩, hal, he⟩ := Option.bind_eq_some_iff.mp ha
  obtain ⟨rfl, rfl⟩ := Prod.mk.inj (Option.some.inj he)
  obtain ⟨spec, hmem⟩ := Ram.allocFrame_spec h.wellFormed hal
  obtain ⟨hal0, hlt⟩ := spec.managed.bounds h.wellFormed
  have hnone : own q = none := by
    cases hq : own q with
    | none => rfl
    | some o' => exact absurd (h.owned_live q o' hq spec.managed) spec.fresh
  have hram := h.managed q spec.managed
  have hsame : ∀ f, f ≠ q → Memory.SameFrame r.mem (r₁.mem.fill q 4096 0) f := fun f hf => by
    rw [hmem]
    exact r.mem.fill_sameFrame 0 hal0 hf
  have hne : ∀ {f o}, own f = some o → f ≠ q := fun hf he => by
    rw [he, hnone] at hf
    cases hf
  refine ⟨hnone, hram, hal0, hlt, (spec.live_iff q).mpr (Or.inr rfl), by rw [hmem]; rfl,
    fun {t o} hto => ?_, fun o => ⟨?_, fun f hf => h.managed f ((spec.managed_iff f).mp hf),
      fun f o' hf hm => ?_, ?_⟩⟩
  · refine ⟨Owners.extends_assign o hnone, fun f o' hf => ?_, fun f o' hf i hi _ _ => ?_,
      fun f o' hf _ => hsame f (hne hf), fun f hf => hsame f (fun he => hf (he ▸ hram)),
      fun f hf => (spec.live_iff f).mpr (Or.inl hf), spec.managed_iff, fun f => ?_⟩
    · by_cases hfq : f = q
      · subst hfq
        rw [own.assign_self] at hf
        cases hf
        exact Or.inr hto
      · rw [own.assign_of_ne o hfq] at hf
        exact Or.inl hf
    · exact entryAt_congr (hsame f (hne hf)) (h.tables.ram f o' hf).2.1 hi
    · refine Iff.trans ?_ (and_congr_right fun _ => (spec.live_iff f).symm)
      constructor
      · rintro ⟨hn, o', ho'⟩
        by_cases hfq : f = q
        · exact ⟨hfq ▸ spec.fresh, Or.inr hfq⟩
        · rw [own.assign_of_ne o hfq, hn] at ho'
          cases ho'
      · rintro ⟨hn, hl | rfl⟩
        · exact absurd hl hn
        · exact ⟨hnone, o, own.assign_self f o⟩
  · exact ⟨spec.wellFormed.aligned, spec.wellFormed.taken, spec.wellFormed.distinct⟩
  · refine (spec.live_iff f).mpr ?_
    by_cases hfq : f = q
    · exact Or.inr hfq
    · rw [own.assign_of_ne o hfq] at hf
      exact Or.inl (h.owned_live f o' hf ((spec.managed_iff f).mp hm))
  · change TablesOk _ _ (r₁.mem.fill q 4096 0)
    rw [hmem]
    exact h.tables.fresh o hnone hram hal0 (by omega)

/-- The fresh frame is a table below the root. -/
theorem Fresh.takes_table {p t k q : Nat} {m m' : Memory} (fr : Fresh own r p r' isRam) (hk : k < 4)
    (hk0 : k ≠ 0) (hlink : Linked own m t → Linked (own.assign p (.node t k q)) m' t) :
    Takes t own m [] (own.assign p (.node t k q)) m' := by
  have hother : ∀ f o, o ≠ .node t k q → own.assign p (.node t k q) f = some o → own f = some o := by
    intro f o hne hf
    by_cases hfp : f = p
    · subst hfp
      rw [Owners.assign_self] at hf
      exact absurd (Option.some.inj hf).symm hne
    · rwa [own.assign_of_ne _ hfp] at hf
  have hx := Owners.extends_assign (.node t k q) fr.unowned
  refine ⟨hlink, fun f k' p' hk' hf => hother f _ (fun he => ?_) hf,
    fun f => ⟨fun hd => ?_, fun hd => ?_⟩, nofun, List.nodup_nil⟩
  · have := (Owner.node.inj he).2.1
    omega
  · refine Or.inl (hd.imp (fun ⟨p', hf⟩ => ⟨p', hother f _ (fun he => ?_) hf⟩) fun hf =>
      hother f _ nofun hf)
    exact hk0 (Owner.node.inj he).2.1.symm
  · exact (hd.resolve_right nofun).imp (fun ⟨p', hf⟩ => ⟨p', hx _ _ hf⟩) fun hf => hx _ _ hf

/-- The fresh frame is used for something other than tables. -/
theorem Fresh.takes_data {p t : Nat} {o : Owner Nat} {m m' : Memory} (fr : Fresh own r p r' isRam)
    (ho : (∃ q, o = .node t 0 q) ∨ o = .held t)
    (hlink : Linked own m t → Linked (own.assign p o) m' t) :
    Takes t own m [p] (own.assign p o) m' := by
  have hx := Owners.extends_assign o fr.unowned
  refine ⟨hlink, fun f k p' hk hf => ?_, fun f => ⟨fun hd => ?_, fun hd => ?_⟩, fun f hf => ?_,
    List.pairwise_singleton _ p⟩
  · by_cases hfp : f = p
    · rw [hfp, Owners.assign_self] at hf
      obtain rfl := Option.some.inj hf
      rcases ho with ⟨q, hq⟩ | hq
      · have := (Owner.node.inj hq).2.1
        omega
      · cases hq
    · rwa [own.assign_of_ne _ hfp] at hf
  · by_cases hfp : f = p
    · exact Or.inr (List.mem_singleton.mpr hfp)
    · refine Or.inl ?_
      unfold IsData at hd
      rwa [own.assign_of_ne _ hfp] at hd
  · rcases hd with hd | hd
    · exact hd.imp (fun ⟨p', hf⟩ => ⟨p', hx _ _ hf⟩) fun hf => hx _ _ hf
    · obtain rfl := List.mem_singleton.mp hd
      rcases ho with ⟨q, rfl⟩ | rfl
      · exact Or.inl ⟨q, Owners.assign_self ..⟩
      · exact Or.inr (Owners.assign_self ..)
  · rw [List.mem_singleton.mp hf]
    exact fr.unowned

/-- An absent entry of a table of tree `t` is filled in. -/
theorem RamOk.setEntry (h : RamOk own isRam r) {t f p k i e : Nat}
    (hf : own f = some (.node t (k + 1) p)) (hi : i < 512) (he : e < 2 ^ 64)
    (hold : isPresent (entryAt r.mem f i) = false) (hok : EntryOk own isRam t k p i e) :
    RamOk own isRam (r.setEntry f i e) ∧ Grows t own r own (r.setEntry f i e) isRam := by
  obtain ⟨hram, ha, -⟩ := h.tables.ram f _ hf
  have hsame : ∀ g, g ≠ f → Memory.SameFrame r.mem (r.mem.writeU64 (f + 8 * i) e) g := fun g hg =>
    r.mem.writeLE_sameFrame ha (by omega) (by omega) hg
  refine ⟨⟨⟨h.wellFormed.aligned, h.wellFormed.taken, h.wellFormed.distinct⟩, h.managed,
    h.owned_live, h.tables.setEntry hf hi he hok⟩, Owners.Extends.refl own, fun _ _ h => Or.inl h,
    fun g o hg j hj hp _ => ?_, fun g o hg ht => hsame g fun he => ?_,
    fun g hg => hsame g fun he => hg (he ▸ hram), fun _ h => h, fun _ => Iff.rfl,
    fun _ => Grows.took_self⟩
  · refine entryAt_writeU64_of_ne _ (h.tables.ram g o hg).2.1 ha hi hj ?_
    refine Decidable.not_and_iff_or_not.mp fun hc => ?_
    obtain ⟨rfl, rfl⟩ := hc
    rw [hold] at hp
    cases hp
  · subst he
    rw [hf] at hg
    cases hg
    exact ht ⟨k, p, rfl⟩

/-! ## `ensure_table` -/

/-- The flags of an intermediate entry: it restricts nothing. -/
def parentFlags : Nat := ptePresent ||| pteWritable ||| pteUser

/-- Every lower-half address of tree `t` is translated as before. -/
def SameWalks (t : Nat) (own : Owners Nat) (m m' : Memory) : Prop :=
  ∀ root virt a, own root = some (.node t 4 0) → virt < 0x800000000000 →
    walkFrom m' 4 root virt a = walkFrom m 4 root virt a

theorem SameWalks.trans {t : Nat} {m m' m'' : Memory} (h : SameWalks t own m m')
    (hx : own.Extends own') (h' : SameWalks t own' m' m'') : SameWalks t own m m'' :=
  fun root virt a hroot hv => (h' root virt a (hx _ _ hroot) hv).trans (h root virt a hroot hv)

/-- **`ensure_table`** returns the child node its entry names, adding an empty table if
the entry was absent; no translation changes. -/
theorem ensureTable_spec (h : RamOk own isRam r) {t f p k i c : Nat}
    (hf : own f = some (.node t (k + 1) p)) (hk : k < 4) (hk0 : k ≠ 0) (hk3 : k = 3 → i < 256)
    (hi : i < 512) (hr : ensureTable r f i parentFlags = .ok (c, r')) :
    ∃ own', RamOk own' isRam r' ∧ Grows t own r own' r' isRam ∧ Takes t own r.mem [] own' r'.mem ∧
      own' c = some (.node t k (p * 512 + i)) ∧ isPresent (entryAt r'.mem f i) = true ∧
      physAddr (entryAt r'.mem f i) = c ∧ SameWalks t own r.mem r'.mem := by
  unfold ensureTable at hr
  simp only at hr
  split at hr
  · rename_i hp
    obtain ⟨rfl, rfl⟩ := Prod.mk.inj (Except.ok.inj hr)
    refine ⟨own, h, Grows.refl .., Takes.refl .., ?_, hp, rfl, fun _ _ _ _ _ => rfl⟩
    cases h.tables.tree f t k p hf i hi with
    | absent h => rw [h] at hp; cases hp
    | upper hk hi' _ _ => exact absurd (hk3 hk) (by omega)
    | table _ _ _ _ _ _ ho => exact ho
    | page hk _ => exact absurd hk hk0
    | device hk _ => exact absurd hk hk0
  · rename_i hp
    have hp : isPresent (entryAt r.mem f i) = false := by simpa using hp
    obtain ⟨⟨q, r₁⟩, hal, hr⟩ := Kernel.bind_eq_ok hr
    obtain ⟨hq, hr'⟩ := Prod.mk.inj (Except.ok.inj hr)
    change q = c at hq
    change r₁.setEntry f i (mkEntry q (parentFlags ||| ptePresent)) = r' at hr'
    subst hq hr'
    have fr := h.alloc (Kernel.expect_eq_ok hal)
    have hfq : f ≠ q := fun he => by rw [he, fr.unowned] at hf; cases hf
    have hfa := (h.tables.ram f _ hf).2.1
    -- the fresh frame becomes the child, and its parent's entry is still absent
    have hof : OfTree t (.node t k (p * 512 + i)) := rfl
    have hentry : ∀ g o, own g = some o → ∀ j, j < 512 →
        entryAt r₁.mem g j = entryAt r.mem g j := fun g o hg j hj => by
      have hgq : g ≠ q := fun he => by rw [he, fr.unowned] at hg; cases hg
      rw [fr.zeroed]
      exact entryAt_congr (r.mem.fill_sameFrame 0 fr.aligned hgq) (h.tables.ram g o hg).2.1 hj
    have hok := fr.ok (.node t k (p * 512 + i))
    have hf₁ : own.assign q (.node t k (p * 512 + i)) f = some (.node t (k + 1) p) := by
      rw [own.assign_of_ne _ hfq, hf]
    have hflags : FlagsOk (parentFlags ||| ptePresent) := by decide
    have hlt : mkEntry q (parentFlags ||| ptePresent) < 2 ^ 64 := mkEntry_lt hflags
    have hphys : physAddr (mkEntry q (parentFlags ||| ptePresent)) = q := by
      rw [physAddr_mkEntry hflags, physAddr_of_aligned fr.aligned (by have := fr.lt; omega)]
    have hchild : EntryOk (own.assign q (.node t k (p * 512 + i))) isRam t k p i
        (mkEntry q (parentFlags ||| ptePresent)) := by
      refine .table hk0 hk3 ?_ ?_ ?_ ?_ (by rw [hphys, Owners.assign_self])
      all_goals rw [hasFlag_mkEntry (by decide)]; decide
    obtain ⟨hok', hgr⟩ := hok.setEntry hf₁ hi hlt (by rw [hentry f _ hf i hi]; exact hp) hchild
    have hself : entryAt (r₁.setEntry f i (mkEntry q (parentFlags ||| ptePresent))).mem f i =
        mkEntry q (parentFlags ||| ptePresent) := entryAt_writeU64_same _ hlt
    have hpresent : isPresent (mkEntry q (parentFlags ||| ptePresent)) = true := by
      rw [isPresent, hasFlag_mkEntry (by decide)]
      decide
    have hgrows := (fr.grows hof).trans hgr
    refine ⟨_, hok', hgrows, fr.takes_table hk hk0 fun h => hgrows.linked h fun g k' p' hg => ?_,
      Owners.assign_self .., by rw [hself]; exact hpresent, by rw [hself, hphys], ?_⟩
    · by_cases hgq : g = q
      · subst hgq
        rw [Owners.assign_self] at hg
        obtain ⟨-, rfl, rfl⟩ := Owner.node.inj (Option.some.inj hg)
        rw [show (p * 512 + i) / 512 = p by omega, show (p * 512 + i) % 512 = i by omega]
        exact Or.inr ⟨f, hf₁, by rw [hself]; exact hpresent, by rw [hself, hphys]⟩
      · rw [own.assign_of_ne _ hgq] at hg
        exact Or.inl hg
    · intro root virt a hroot hv
      refine h.tables.walkFrom_addTable hv hk0 hf hp (fun g o hg j hj hne => ?_) (fun j hj => ?_) ?_
        (by omega) (root_path hroot hv) a
      · exact (entryAt_writeU64_of_ne _ (h.tables.ram g o hg).2.1 hfa hi hj hne).trans
          (hentry g o hg j hj)
      · have hzero : entryAt r₁.mem q j = 0 := by
          rw [fr.zeroed]
          exact r.mem.readU64_fill_zero (by omega) (by omega)
        rw [hself, hphys, Ram.setEntry, entryAt_writeU64_of_ne _ fr.aligned hfa hi hj
          (Or.inl hfq.symm), hzero, isPresent_zero]
      · rw [hself, hasFlag_mkEntry (by decide)]
        decide

/-! ## `map_4k` -/

/-- The steps of a `map_4k` that returned. -/
theorem map4k_eq_ok {root virt phys flags : Nat} (h : map4k r root virt phys flags = .ok r') :
    ∃ t₃ r₁ t₂ r₂ t₁ r₃,
      ensureTable r root (tableIndex 3 virt) parentFlags = .ok (t₃, r₁) ∧
      ensureTable r₁ t₃ (tableIndex 2 virt) parentFlags = .ok (t₂, r₂) ∧
      ensureTable r₂ t₂ (tableIndex 1 virt) parentFlags = .ok (t₁, r₃) ∧
      isPresent (entryAt r₃.mem t₁ (tableIndex 0 virt)) = false ∧
      (hasFlag flags pteWritable = true → hasFlag flags pteNoExecute = true) ∧
      r' = r₃.setEntry t₁ (tableIndex 0 virt) (mkEntry phys (flags ||| ptePresent)) := by
  unfold map4k at h
  obtain ⟨_, hwx, h⟩ := Kernel.bind_eq_ok h
  obtain ⟨⟨t₃, r₁⟩, h3, h⟩ := Kernel.bind_eq_ok h
  obtain ⟨⟨t₂, r₂⟩, h2, h⟩ := Kernel.bind_eq_ok h
  obtain ⟨⟨t₁, r₃⟩, h1, h⟩ := Kernel.bind_eq_ok h
  obtain ⟨_, hp, h⟩ := Kernel.bind_eq_ok h
  refine ⟨t₃, r₁, t₂, r₂, t₁, r₃, h3, h2, h1, ?_, ?_, (Except.ok.inj h).symm⟩
  · exact Bool.not_eq_true' _ ▸ Kernel.assert_eq_ok hp
  · have := Kernel.assert_eq_ok hwx
    simp only [Bool.or_eq_true, Bool.not_eq_true'] at this
    intro hw
    rcases this with hn | hn
    · rw [hw] at hn
      cases hn
    · exact hn

theorem ensureTable_eq_error {table index flags : Nat} {p : Panic}
    (h : ensureTable r table index flags = .error p) :
    p = .outOfFramesForPageTable ∧ isPresent (entryAt r.mem table index) = false ∧
      r.allocFrameZeroed = none := by
  unfold ensureTable at h
  simp only at h
  split at h
  · cases h
  · rename_i hp
    rcases Kernel.bind_eq_error h with h | ⟨_, _, h⟩
    · obtain ⟨hnone, hpanic⟩ := Kernel.expect_eq_error h
      exact ⟨hpanic, by simpa using hp, hnone⟩
    · cases h

/-- How `map_4k` stops: at the W^X check, for want of a frame, or because the page is
mapped. -/
theorem map4k_eq_error {root virt phys flags : Nat} {p : Panic}
    (h : map4k r root virt phys flags = .error p) :
    (p = .writableAndExecutable ∧ hasFlag flags pteWritable = true ∧
      hasFlag flags pteNoExecute = false) ∨
    p = .outOfFramesForPageTable ∨
    (p = .alreadyMapped ∧ ∃ t₃ r₁ t₂ r₂ t₁ r₃,
      ensureTable r root (tableIndex 3 virt) parentFlags = .ok (t₃, r₁) ∧
      ensureTable r₁ t₃ (tableIndex 2 virt) parentFlags = .ok (t₂, r₂) ∧
      ensureTable r₂ t₂ (tableIndex 1 virt) parentFlags = .ok (t₁, r₃) ∧
      isPresent (entryAt r₃.mem t₁ (tableIndex 0 virt)) = true) := by
  unfold map4k at h
  rcases Kernel.bind_eq_error h with h | ⟨-, -, h⟩
  · obtain ⟨hwx, hp⟩ := Kernel.assert_eq_error h
    simp only [Bool.or_eq_false_iff, Bool.not_eq_false'] at hwx
    exact Or.inl ⟨hp, hwx⟩
  right
  rcases Kernel.bind_eq_error h with h | ⟨⟨t₃, r₁⟩, h3, h⟩
  · exact Or.inl (ensureTable_eq_error h).1
  rcases Kernel.bind_eq_error h with h | ⟨⟨t₂, r₂⟩, h2, h⟩
  · exact Or.inl (ensureTable_eq_error h).1
  rcases Kernel.bind_eq_error h with h | ⟨⟨t₁, r₃⟩, h1, h⟩
  · exact Or.inl (ensureTable_eq_error h).1
  rcases Kernel.bind_eq_error h with h | ⟨-, -, h⟩
  · obtain ⟨hpresent, hp⟩ := Kernel.assert_eq_error h
    rw [Bool.not_eq_false'] at hpresent
    exact Or.inr ⟨hp, t₃, r₁, t₂, r₂, t₁, r₃, h3, h2, h1, hpresent⟩
  · cases h

/-- The leaf `map_4k` makes for the bytes of its page. -/
def leafOf (phys flags virt : Nat) : Leaf :=
  ⟨physAddr phys + virt % 4096, hasFlag flags pteUser, hasFlag flags pteWritable,
    !hasFlag flags pteNoExecute⟩

/-- What `map_4k` does to the translation of tree `t`: the page of `virt` was not
mapped, is mapped to `phys` with `flags`, and no other page is affected. -/
structure MapsPage (root virt phys flags : Nat) (m m' : Memory) : Prop where
  before : walk m root virt = none
  page : ∀ va, va / 4096 = virt / 4096 → walk m' root va = some (leafOf phys flags va)
  other : ∀ va, va < 0x800000000000 → va / 4096 ≠ virt / 4096 → walk m' root va = walk m root va

/-- Three present entries lead from the root to the last table. -/
theorem walkFrom_descend {m : Memory} (h : TablesOk own isRam m) {t root t₃ t₂ t₁ virt : Nat}
    (hv : virt < 0x800000000000) (hroot : own root = some (.node t 4 0))
    (ho₃ : own t₃ = some (.node t 3 (virt / span 3)))
    (ho₂ : own t₂ = some (.node t 2 (virt / span 2)))
    (h₃ : isPresent (entryAt m root (tableIndex 3 virt)) = true ∧
      physAddr (entryAt m root (tableIndex 3 virt)) = t₃)
    (h₂ : isPresent (entryAt m t₃ (tableIndex 2 virt)) = true ∧
      physAddr (entryAt m t₃ (tableIndex 2 virt)) = t₂)
    (h₁ : isPresent (entryAt m t₂ (tableIndex 1 virt)) = true ∧
      physAddr (entryAt m t₂ (tableIndex 1 virt)) = t₁) (a : Perms) :
    walkFrom m 4 root virt a = walkFrom m 1 t₁ virt a := by
  rw [h.walkFrom_through hv (by decide) (by decide) (root_path hroot hv) h₃.1, h₃.2,
    h.walkFrom_through hv (by decide) (by decide) ho₃ h₂.1, h₂.2,
    h.walkFrom_through hv (by decide) (by decide) ho₂ h₁.1, h₁.2]

/-- A present entry of a table survives what a mapping operation does. -/
theorem Grows.entry {t f i c : Nat} {o : Owner Nat} (h : Grows t own r own' r' isRam)
    (hf : own f = some o) (ht : o.isTable = true) (hi : i < 512)
    (he : isPresent (entryAt r.mem f i) = true ∧ physAddr (entryAt r.mem f i) = c) :
    isPresent (entryAt r'.mem f i) = true ∧ physAddr (entryAt r'.mem f i) = c := by
  rw [h.entries f o hf i hi he.1 ht]
  exact he

/-- **`map_4k`** keeps the ownership map and maps exactly the page it is asked to. -/
theorem map4k_spec (h : RamOk own isRam r) {t root virt phys flags : Nat}
    (hroot : own root = some (.node t 4 0)) (hv : virt < 0x800000000000)
    (htarget : own (physAddr phys) = some (.node t 0 (virt / 4096)) ∨ ¬ isRam (physAddr phys))
    (hflags : FlagsOk (flags ||| ptePresent)) (hm : map4k r root virt phys flags = .ok r') :
    ∃ own', RamOk own' isRam r' ∧ Grows t own r own' r' isRam ∧ Takes t own r.mem [] own' r'.mem ∧
      MapsPage root virt phys flags r.mem r'.mem := by
  obtain ⟨t₃, r₁, t₂, r₂, t₁, r₃, h3, h2, h1, habs, -, rfl⟩ := map4k_eq_ok hm
  have hroot' := root_path hroot hv
  -- down the three intermediate levels
  obtain ⟨own₁, ok₁, gr₁, tk₁, ho₁, hp₁, ha₁, hw₁⟩ := ensureTable_spec h hroot' (by decide) (by decide)
    (fun _ => tableIndex_lower hv) (tableIndex_lt 3 virt) h3
  rw [← div_span 3 virt (by decide)] at ho₁
  obtain ⟨own₂, ok₂, gr₂, tk₂, ho₂, hp₂, ha₂, hw₂⟩ := ensureTable_spec ok₁ ho₁ (by decide) (by decide)
    (fun hc => by cases hc) (tableIndex_lt 2 virt) h2
  rw [← div_span 2 virt (by decide)] at ho₂
  obtain ⟨own₃, ok₃, gr₃, tk₃, ho₃, hp₃, ha₃, hw₃⟩ := ensureTable_spec ok₂ ho₂ (by decide) (by decide)
    (fun hc => by cases hc) (tableIndex_lt 1 virt) h1
  rw [← div_span 1 virt (by decide)] at ho₃
  have gr := (gr₁.trans gr₂).trans gr₃
  have hwalk : SameWalks t own r.mem r₃.mem :=
    hw₁.trans gr₁.keeps (hw₂.trans gr₂.keeps hw₃)
  -- the last entry
  have hlt : mkEntry phys (flags ||| ptePresent) < 2 ^ 64 := mkEntry_lt hflags
  have hphys : physAddr (mkEntry phys (flags ||| ptePresent)) = physAddr phys :=
    physAddr_mkEntry hflags
  have hleaf : EntryOk own₃ isRam t 0 (virt / span 1) (tableIndex 0 virt)
      (mkEntry phys (flags ||| ptePresent)) := by
    rcases htarget with ho | hd
    · refine .page rfl ?_
      rw [hphys, ← div_span 0 virt (by decide)]
      exact gr.keeps _ _ ho
    · exact .device rfl (by rw [hphys]; exact hd)
  obtain ⟨ok₄, gr₄⟩ := ok₃.setEntry ho₃ (tableIndex_lt 0 virt) hlt habs hleaf
  have hself : entryAt (r₃.setEntry t₁ (tableIndex 0 virt) (mkEntry phys (flags ||| ptePresent))).mem
      t₁ (tableIndex 0 virt) = mkEntry phys (flags ||| ptePresent) := entryAt_writeU64_same _ hlt
  have hroot₁ := gr₁.keeps _ _ hroot
  have hroot₃ := gr.keeps _ _ hroot
  have ho₁₂ := gr₂.keeps _ _ ho₁
  have ho₁₃ := gr₃.keeps _ _ ho₁₂
  have ho₂₃ := gr₃.keeps _ _ ho₂
  -- the entries that lead to the last table, before and after it is written
  have hd₃ := (gr₂.trans gr₃).entry hroot₁ rfl (tableIndex_lt 3 virt) ⟨hp₁, ha₁⟩
  have hd₂ := gr₃.entry ho₁₂ rfl (tableIndex_lt 2 virt) ⟨hp₂, ha₂⟩
  have he₃ := gr₄.entry hroot₃ rfl (tableIndex_lt 3 virt) hd₃
  have he₂ := gr₄.entry ho₁₃ rfl (tableIndex_lt 2 virt) hd₂
  have he₁ := gr₄.entry ho₂₃ rfl (tableIndex_lt 1 virt) ⟨hp₃, ha₃⟩
  have tk : Takes t own r.mem [] own₃ r₃.mem :=
    tk₁.trans gr₁.keeps (tk₂.trans gr₂.keeps tk₃)
  refine ⟨own₃, ok₄, gr.trans gr₄, ⟨fun h => gr₄.linked (tk.linked h) fun _ _ _ => Or.inl, tk.root,
    tk.data, tk.fresh, tk.nodup⟩, ?_, fun va hpage => ?_, fun va hva hpage => ?_⟩
  · rw [walk_lower hv, ← hwalk root virt _ hroot hv,
      walkFrom_descend ok₃.tables hv hroot₃ ho₁₃ ho₂₃ hd₃ hd₂ ⟨hp₃, ha₃⟩, walkFrom_absent _ habs]
  · have hva : va < 0x800000000000 := by omega
    have hidx := tableIndex_of_page hpage
    have hspan := div_span_of_page hpage
    have hp : isPresent (mkEntry phys (flags ||| ptePresent)) = true :=
      isPresent_mkEntry (isPresent_or flags)
    have hbit : ∀ b, addrMask &&& b = 0 → ptePresent &&& b = 0 →
        hasFlag (mkEntry phys (flags ||| ptePresent)) b = hasFlag flags b := fun b h1 h2 => by
      rw [hasFlag_mkEntry h1, hasFlag_or h2]
    rw [walk_lower hva, walkFrom_descend ok₄.tables hva hroot₃ (by rw [hspan]; exact ho₁₃)
      (by rw [hspan]; exact ho₂₃) (by rw [hidx]; exact he₃) (by rw [hidx]; exact he₂)
      (by rw [hidx]; exact he₁), walkFrom_step _ (by rw [hidx, hself]; exact hp) (Or.inl rfl), hidx,
      hself, hphys, walkFrom, Perms.through, hbit _ (by decide) (by decide),
      hbit _ (by decide) (by decide), hbit _ (by decide) (by decide)]
    rfl
  · rw [walk_lower hva, walk_lower hva, ← hwalk root va _ hroot hva]
    refine ok₃.tables.walkFrom_of_path hva (by decide) (root_path hroot₃ hva) (fun j f hj hf => ?_) _
    refine entryAt_writeU64_of_ne _ (ok₃.tables.ram f _ hf).2.1 (ok₃.tables.ram t₁ _ ho₃).2.1
      (tableIndex_lt 0 virt) (tableIndex_lt j va) ?_
    -- the written entry is on the path of `virt` only
    refine Decidable.not_and_iff_or_not.mp fun hc => hpage ?_
    obtain ⟨rfl, hidx⟩ := hc
    rw [ho₃] at hf
    obtain ⟨-, hj, hspan⟩ := Owner.node.inj (Option.some.inj hf)
    obtain rfl : j = 0 := by omega
    have h1 := div_span 0 va (by decide)
    have h2 := div_span 0 virt (by decide)
    simp only [span] at h1 h2 hspan
    omega

end Coconut
