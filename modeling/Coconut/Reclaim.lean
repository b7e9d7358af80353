import Coconut.Isolation
import Coconut.Replay
import Coconut.TableWalk

/-!
# Destroying a shard

`destroy` finds what to give back in two places: the list of allocated frames, and the
page tables themselves.  The ownership map says what the two must add up to: `FramesOk`
lists the frames of a tree that are no tables, and links every table to its parent.  So
the list and the walk together give back every frame of the shard once, and no other;
and the frames of the shard are those that were allocated for it.
-/
namespace Coconut
open Paging

variable {isRam : Nat → Prop} {own : Owners Nat} {r r' : Ram} {m : Memory} {t : Nat}

/-! ## `destroy` -/

/-- The frame belongs to shard `i`. -/
def Owned (own : Owners Nat) (i f : Nat) : Prop := ∃ o, own f = some o ∧ OfTree i o

/-- What `destroy` gives back, in this order. -/
def freedFrames (m : Memory) (d : ShardDescriptor) : List Nat :=
  d.allocatedFrames.drop 1 ++ (lowerTables m d.pml4Phys ++ [d.pml4Phys])

section Destroy
variable {d : ShardDescriptor} {s : Sys} {i f : Nat}

theorem FramesOk.mem_freedFrames (hf : FramesOk own m t d) (h : TablesOk own isRam m)
    (hroot : own d.pml4Phys = some (.node t 4 0)) : f ∈ freedFrames m d ↔ Owned own t f := by
  obtain ⟨rest, hrest, -, hdata⟩ := hf.listed
  have htables := mem_lowerTables (f := f) h hf.linked hroot fun g q => hf.root g 4 q (Nat.le_refl 4)
  rw [freedFrames, hrest, List.drop_one, List.tail_cons, List.mem_append, List.mem_append, ← hdata, htables,
    List.mem_singleton]
  constructor
  · rintro ((⟨p, ho⟩ | ho) | ⟨k, p, -, ho⟩ | rfl)
    · exact ⟨_, ho, rfl⟩
    · exact ⟨_, ho, rfl⟩
    · exact ⟨_, ho, rfl⟩
    · exact ⟨_, hroot, rfl⟩
  · rintro ⟨o, ho, hof⟩
    cases o with
    | node t' k p =>
      obtain rfl : t' = t := hof
      rcases Nat.eq_zero_or_pos k with rfl | hk
      · exact Or.inl (Or.inl ⟨p, ho⟩)
      · obtain ⟨k, rfl⟩ := Nat.exists_eq_succ_of_ne_zero (Nat.ne_of_gt hk)
        by_cases h4 : k < 3
        · exact Or.inr (Or.inl ⟨k, p, h4, ho⟩)
        · exact Or.inr (Or.inr (hf.root f _ p (by omega) ho))
    | held t' =>
      obtain rfl : t' = t := hof
      exact Or.inl (Or.inr ho)
    | shared => exact hof.elim

theorem FramesOk.nodup_freedFrames (hf : FramesOk own m t d) (h : TablesOk own isRam m)
    (hroot : own d.pml4Phys = some (.node t 4 0)) : (freedFrames m d).Nodup := by
  obtain ⟨rest, hrest, hnodup, hdata⟩ := hf.listed
  have htables : ∀ f, f ∈ lowerTables m d.pml4Phys → ∃ k p, k < 3 ∧ own f = some (.node t (k + 1) p) :=
    fun f => (mem_lowerTables h hf.linked hroot fun g q => hf.root g 4 q (Nat.le_refl 4)).mp
  rw [freedFrames, hrest, List.drop_one, List.tail_cons]
  refine List.nodup_append.mpr ⟨hnodup, List.nodup_append.mpr ⟨nodup_lowerTables h hroot,
    List.pairwise_singleton _ _, fun f hf g hg he => ?_⟩, fun f hf g hg he => ?_⟩
  · -- the root is no table of a lower level
    obtain ⟨k, p, hk, ho⟩ := htables f hf
    rw [he, List.mem_singleton.mp hg, hroot] at ho
    have := (Owner.node.inj (Option.some.inj ho)).2.1
    omega
  · -- a listed frame is no table
    subst he
    have hd := (hdata f).mpr hf
    have ho : ∃ k p, own f = some (.node t (k + 1) p) := by
      rcases List.mem_append.mp hg with hg | hg
      · obtain ⟨k, p, -, ho⟩ := htables f hg
        exact ⟨k, p, ho⟩
      · exact ⟨3, 0, List.mem_singleton.mp hg ▸ hroot⟩
    obtain ⟨k, p, ho⟩ := ho
    rcases hd with ⟨q, hd⟩ | hd
    · rw [ho] at hd
      cases (Owner.node.inj (Option.some.inj hd)).2.1
    · rw [ho] at hd
      cases hd

theorem freeFrames_eq {frames : List Nat} (h : 0 ∉ frames) (r : Ram) :
    freeFrames r frames = frames.foldl zeroAndFree r := by
  unfold freeFrames
  induction frames generalizing r with
  | nil => rfl
  | cons p frames ih =>
    obtain ⟨hne, h⟩ := List.ne_and_not_mem_of_not_mem_cons h
    rw [List.foldl_cons, List.foldl_cons, if_pos (bne_iff_ne.mpr hne.symm)]
    exact ih h _

/-- **The calls `destroy` makes.** -/
theorem destroyed_ram (h : RamOk own isRam s.ram) (hroot : own (s.desc i).pml4Phys = some (.node i 4 0))
    (hf : FramesOk own s.ram.mem i (s.desc i)) (hzero : ¬ Owned own i 0) :
    (destroyed s i).ram = (freedFrames s.ram.mem (s.desc i)).foldl zeroAndFree s.ram := by
  obtain ⟨rest, hrest, -, hdata⟩ := hf.listed
  have hdrop : (s.desc i).allocatedFrames.drop 1 = rest := by rw [hrest]; rfl
  have hmem : ∀ f ∈ rest, IsData own i f := fun f hf => (hdata f).mpr hf
  have h0 : 0 ∉ rest := fun hc => hzero (by
    rcases hmem 0 hc with ⟨p, ho⟩ | ho
    · exact ⟨_, ho, rfl⟩
    · exact ⟨_, ho, rfl⟩)
  have haligned : ∀ f ∈ rest, f % 4096 = 0 := fun f hf => by
    rcases hmem f hf with ⟨p, ho⟩ | ho
    · exact (h.tables.ram f _ ho).2.1
    · exact (h.tables.ram f _ ho).2.1
  change zeroAndFree (freeLowerHalfTables (s.desc i).pml4Phys
    (freeFrames s.ram ((s.desc i).allocatedFrames.drop 1))) (s.desc i).pml4Phys = _
  rw [freedFrames, hdrop, freeFrames_eq h0, List.foldl_append, List.foldl_append,
    freeLowerHalfTables_eq h.tables hroot fun g k q hg => ?_]
  · rfl
  · -- the listed frames are no tables
    refine sameFrame_foldl haligned g fun hc => ?_
    rcases hmem g hc with ⟨p, ho⟩ | ho
    · rw [hg] at ho
      cases (Owner.node.inj (Option.some.inj ho)).2.1
    · rw [hg] at ho
      cases ho

open Classical in
/-- The ownership map without tree `t`. -/
noncomputable def withoutTree (own : Owners Nat) (t : Nat) : Owners Nat :=
  fun f => if Owned own t f then none else own f

theorem withoutTree_eq_some {o : Owner Nat} :
    withoutTree own t f = some o ↔ own f = some o ∧ ¬ OfTree t o := by
  unfold withoutTree
  split
  · rename_i h
    obtain ⟨o', ho', hof⟩ := h
    refine ⟨nofun, fun ⟨ho, hn⟩ => absurd hof ?_⟩
    rw [ho] at ho'
    obtain rfl := Option.some.inj ho'
    exact hn
  · rename_i h
    exact ⟨fun ho => ⟨ho, fun hof => h ⟨o, ho, hof⟩⟩, fun ho => ho.1⟩

theorem owned_withoutTree {j : Nat} (hne : j ≠ t) : Owned (withoutTree own t) j f ↔ Owned own j f := by
  constructor
  · rintro ⟨o, ho, hof⟩
    exact ⟨o, (withoutTree_eq_some.mp ho).1, hof⟩
  · rintro ⟨o, ho, hof⟩
    exact ⟨o, withoutTree_eq_some.mpr ⟨ho, fun ht => hne (hof.unique ht)⟩, hof⟩

/-- The other trees stand when tree `t` is gone. -/
theorem EntryOk.withoutTree {t' k p i e : Nat} (h : EntryOk own isRam t' k p i e) (hne : t' ≠ t) :
    EntryOk (withoutTree own t) isRam t' k p i e := by
  cases h with
  | absent hp => exact .absent hp
  | upper hk hi hu ho => exact .upper hk hi hu (withoutTree_eq_some.mpr ⟨ho, id⟩)
  | table hk hi hu hw hx hs ho =>
    exact .table hk hi hu hw hx hs (withoutTree_eq_some.mpr ⟨ho, fun hc => hne hc⟩)
  | page hk ho => exact .page hk (withoutTree_eq_some.mpr ⟨ho, fun hc => hne hc⟩)
  | device hk hd => exact .device hk hd

/-- The frames of tree `t` have been given back. -/
theorem RamOk.withoutTree (h : RamOk own isRam r) {frames : List Nat} (hfrees : FreesAll frames r r')
    (hframes : ∀ f, f ∈ frames ↔ Owned own t f) : RamOk (withoutTree own t) isRam r' := by
  have hkept : ∀ {f o}, Coconut.withoutTree own t f = some o → f ∉ frames := fun {f o} ho hf => by
    obtain ⟨ho, hn⟩ := withoutTree_eq_some.mp ho
    obtain ⟨o', ho', hof⟩ := (hframes f).mp hf
    rw [ho] at ho'
    obtain rfl := Option.some.inj ho'
    exact hn hof
  have hentry : ∀ {f o i}, Coconut.withoutTree own t f = some o → i < 512 →
      entryAt r'.mem f i = entryAt r.mem f i := fun {f o i} ho hi =>
    entryAt_congr (hfrees.other f (hkept ho)) (h.tables.ram f o (withoutTree_eq_some.mp ho).1).2.1 hi
  refine ⟨hfrees.wellFormed, fun f hf => h.managed f ((hfrees.managed f).mp hf), fun f o ho hm => ?_,
    fun f o ho => h.tables.ram f o (withoutTree_eq_some.mp ho).1, fun f t' k p ho i hi => ?_,
    fun f k ho hk i hi => ?_⟩
  · exact (hfrees.live f).mpr ⟨h.owned_live f o (withoutTree_eq_some.mp ho).1 ((hfrees.managed f).mp hm),
      hkept ho⟩
  · obtain ⟨hold, hn⟩ := withoutTree_eq_some.mp ho
    rw [hentry ho hi]
    exact EntryOk.withoutTree (h.tables.tree f t' k p hold i hi) hn
  · rw [hentry ho hi]
    intro hp hs
    exact withoutTree_eq_some.mpr ⟨h.tables.shared f k (withoutTree_eq_some.mp ho).1 hk i hi hp hs, id⟩

theorem FramesOk.withoutTree {t' : Nat} (hf : FramesOk own r.mem t' d) (h : RamOk own isRam r)
    {frames : List Nat} (hfrees : FreesAll frames r r') (hframes : ∀ f, f ∈ frames ↔ Owned own t f)
    (hne : t' ≠ t) : FramesOk (withoutTree own t) r'.mem t' d := by
  have hold : ∀ {f o}, Coconut.withoutTree own t f = some o → own f = some o := fun ho =>
    (withoutTree_eq_some.mp ho).1
  have hkeep : ∀ {f o}, OfTree t' o → own f = some o → Coconut.withoutTree own t f = some o :=
    fun hof ho => withoutTree_eq_some.mpr ⟨ho, fun hc => hne (hof.unique hc)⟩
  obtain ⟨rest, hrest, hnodup, hdata⟩ := hf.listed
  refine ⟨fun f k p ho hk => ?_, fun f k p hk ho => hf.root f k p hk (hold ho), rest, hrest, hnodup,
    fun f => Iff.trans ⟨?_, ?_⟩ (hdata f)⟩
  · obtain ⟨g, hg, hp, ha⟩ := hf.linked f k p (hold ho) hk
    have hgone : g ∉ frames := fun hc => by
      obtain ⟨o, hgo, hof⟩ := (hframes g).mp hc
      rw [hg] at hgo
      obtain rfl := Option.some.inj hgo
      exact hne hof
    have he := entryAt_congr (hfrees.other g hgone) (h.tables.ram g _ hg).2.1
      (Nat.mod_lt p (by decide : 0 < 512))
    exact ⟨g, hkeep rfl hg, by rw [he]; exact hp, by rw [he]; exact ha⟩
  · exact fun hd => hd.imp (fun ⟨p, ho⟩ => ⟨p, hold ho⟩) hold
  · exact fun hd => hd.imp (fun ⟨p, ho⟩ => ⟨p, hkeep rfl ho⟩) (hkeep rfl)

/-- The frames of every exited shard are known. -/
structure Reclaimable (own : Owners Nat) (isRam : Nat → Prop) (s : Sys) : Prop where
  ram : RamOk own isRam s.ram
  managed : ∀ i f, Owned own i f → s.ram.Managed f
  root : ∀ i, (s.desc i).state = .exited → own (s.desc i).pml4Phys = some (.node i 4 0)
  frames : ∀ i, (s.desc i).state = .exited → FramesOk own s.ram.mem i (s.desc i)

theorem desc_destroyed (s : Sys) {i : Nat} (hi : i < maxShards) (j : Nat) :
    (j ≠ i → (destroyed s i).desc j = s.desc j) ∧ ((destroyed s i).desc i).state = .destroyed := by
  have hdesc := Sys.desc_modifyShard { s with ram := (destroyed s i).ram } hi fun d => { d with
    caps := fun _ => CapEntry.empty, state := .destroyed, pml4Phys := 0, allocatedFrames := [] }
  refine ⟨fun hne => (hdesc j).trans (if_neg hne), ?_⟩
  exact (congrArg ShardDescriptor.state (hdesc i)).trans (by rw [if_pos rfl])

/-- **One round of the loop**: the shard's frames are given back, and the others' are as
they were. -/
theorem Reclaimable.destroyed (h : Reclaimable own isRam s) (hzero : ¬ s.ram.Managed 0)
    (hi : i < maxShards) (hexited : (s.desc i).state = .exited) :
    (destroyed s i).ram = (freedFrames s.ram.mem (s.desc i)).foldl zeroAndFree s.ram ∧
      FreesAll (freedFrames s.ram.mem (s.desc i)) s.ram (destroyed s i).ram ∧
      (∀ f, f ∈ freedFrames s.ram.mem (s.desc i) ↔ Owned own i f) ∧
      Reclaimable (withoutTree own i) isRam (destroyed s i) := by
  have hroot := h.root i hexited
  have hf := h.frames i hexited
  have hram := destroyed_ram h.ram hroot hf fun hc => hzero (h.managed i 0 hc)
  have hmem : ∀ f, f ∈ freedFrames s.ram.mem (s.desc i) ↔ Owned own i f := fun f =>
    hf.mem_freedFrames h.ram.tables hroot
  have hfrees := foldl_zeroAndFree h.ram.wellFormed fun f hf => by
    obtain ⟨o, ho, -⟩ := (hmem f).mp hf
    exact (h.ram.tables.ram f o ho).2.1
  rw [← hram] at hfrees
  have hother : ∀ j, ((Coconut.destroyed s i).desc j).state = .exited → j ≠ i := fun j hj he => by
    rw [he, (desc_destroyed s hi j).2] at hj
    cases hj
  refine ⟨hram, hfrees, hmem, h.ram.withoutTree hfrees hmem, fun j f ho => ?_, fun j hj => ?_,
    fun j hj => ?_⟩
  · obtain ⟨o, ho, hof⟩ := ho
    exact (hfrees.managed f).mpr (h.managed j f ⟨o, (withoutTree_eq_some.mp ho).1, hof⟩)
  · have hne := hother j hj
    rw [(desc_destroyed s hi j).1 hne] at hj ⊢
    exact withoutTree_eq_some.mpr ⟨h.root j hj, fun hc => hne hc⟩
  · have hne := hother j hj
    rw [(desc_destroyed s hi j).1 hne] at hj ⊢
    exact (h.frames j hj).withoutTree h.ram hfrees hmem hne

/-- **The loop that destroys the exited shards** keeps the frames of those to come. -/
theorem Reclaimable.destroyAll {n : Nat} : ∀ {own : Owners Nat} {i : Nat} {s : Sys}, i + n ≤ maxShards →
    Reclaimable own isRam s → ¬ s.ram.Managed 0 →
    ∃ own' s', destroyAll n i s = .ok s' ∧ Reclaimable own' isRam s' ∧ ¬ s'.ram.Managed 0 ∧
      ∀ j, i + n ≤ j → s'.desc j = s.desc j ∧ ∀ f, Owned own' j f ↔ Owned own j f := by
  induction n with
  | zero => exact fun {own i s} _ h hzero => ⟨own, s, rfl, h, hzero, fun _ _ => ⟨rfl, fun _ => Iff.rfl⟩⟩
  | succ n ih =>
    intro own i s hn h hzero
    have hi : i < maxShards := by omega
    have hshard : s.shard i = .ok (s.desc i) := Sys.shard_of_lt hi
    by_cases hexited : (s.desc i).state = .exited
    · obtain ⟨-, hfrees, -, h'⟩ := h.destroyed hzero hi hexited
      obtain ⟨own', s', hrun, hok, hz, hrest⟩ :=
        ih (i := i + 1) (by omega) h' fun hc => hzero ((hfrees.managed 0).mp hc)
      refine ⟨own', s', ?_, hok, hz, fun j hj => ?_⟩
      · rw [Coconut.destroyAll, hshard, Kernel.ok_bind, hexited]
        change (destroy s i >>= _) = _
        rw [destroy_of_exited hi hexited]
        exact hrun
      · have hne : j ≠ i := by omega
        obtain ⟨hd, ho⟩ := hrest j (by omega)
        exact ⟨hd.trans ((desc_destroyed s hi j).1 hne), fun f => (ho f).trans (owned_withoutTree hne)⟩
    · obtain ⟨own', s', hrun, hok, hz, hrest⟩ := ih (i := i + 1) (by omega) h hzero
      refine ⟨own', s', ?_, hok, hz, fun j hj => hrest j (by omega)⟩
      rw [Coconut.destroyAll, hshard, Kernel.ok_bind, if_neg (by simpa using hexited)]
      exact hrun

end Destroy

/-! ## Allocation on behalf of a shard -/

/-- The frames each shard has been given by boot: a frame is given to shard `i` by a call
that acts for it and during which the frame is allocated. -/
inductive BootTook (isRam : Nat → Prop) : List BootOp → Sys → (Nat → Nat → Prop) → Prop
  | initial {s : Sys} : Initial isRam s → BootTook isRam [] s fun _ _ => False
  | op {ops : List BootOp} {s s' : Sys} {op : BootOp} {took : Nat → Nat → Prop} :
      BootTook isRam ops s took → op.Admissible isRam s → op.run s = .ok s' →
      BootTook isRam (ops ++ [op]) s' fun i f =>
        took i f ∨ (op.target s = some i ∧ ¬ s.ram.Live f ∧ s'.ram.Live f)

theorem Booted.took {ops : List BootOp} {s : Sys} (h : Booted isRam ops s) :
    ∃ took, BootTook isRam ops s took := by
  induction h with
  | initial h => exact ⟨_, .initial h⟩
  | op _ hadm hrun ih =>
    obtain ⟨took, h⟩ := ih
    exact ⟨_, h.op hadm hrun⟩

section Gains
variable {acts : Nat → Prop} {new : Nat → Leaf → Prop} {own' : Owners Nat} {s s' : Sys} {i f : Nat}

/-- A shard owns what it owned and what has been allocated for it. -/
theorem Gains.owned_iff (h : Gains acts new own s own' s') (hone : ∀ i j, acts i → acts j → i = j) :
    Owned own' i f ↔ Owned own i f ∨ (acts i ∧ ¬ s.ram.Live f ∧ s'.ram.Live f) := by
  constructor
  · rintro ⟨o, ho, hof⟩
    rcases h.adds f o ho with hold | ⟨t, hacts, hof'⟩
    · exact Or.inl ⟨o, hold, hof⟩
    · obtain rfl := hof.unique hof'
      cases hf : own f with
      | none => exact Or.inr ⟨hacts, (h.took f).mp ⟨hf, o, ho⟩⟩
      | some o' =>
        have heq := h.keeps f o' hf
        rw [ho] at heq
        obtain rfl := Option.some.inj heq
        exact Or.inl ⟨o, hf, hof⟩
  · rintro (⟨o, ho, hof⟩ | ⟨hacts, hlive⟩)
    · exact ⟨o, h.keeps f o ho, hof⟩
    · obtain ⟨hnone, o, ho⟩ := (h.took f).mpr hlive
      rcases h.adds f o ho with hold | ⟨t, hacts', hof⟩
      · rw [hnone] at hold
        cases hold
      · exact ⟨o, ho, hone i t hacts hacts' ▸ hof⟩

/-- Shards own frames of the allocator only. -/
theorem Gains.managed_of_owned (h : Gains acts new own s own' s')
    (hm : ∀ i f, Owned own i f → s.ram.Managed f) (ho : Owned own' i f) : s'.ram.Managed f := by
  obtain ⟨o, ho, hof⟩ := ho
  cases hf : own f with
  | none => exact ((h.took f).mp ⟨hf, o, ho⟩).2.managed
  | some o' =>
    have heq := h.keeps f o' hf
    rw [ho] at heq
    obtain rfl := Option.some.inj heq
    exact (h.managed f).mpr (hm i f ⟨o, hf, hof⟩)

end Gains

theorem BootTook.owned {ops : List BootOp} {s : Sys} {took : Nat → Nat → Prop}
    (h : BootTook isRam ops s took) : ∃ own, BootOk own isRam s ∧
      (∀ i f, Owned own i f → s.ram.Managed f) ∧ ∀ i f, took i f ↔ Owned own i f := by
  induction h with
  | initial h =>
    obtain ⟨own, hok⟩ := BootOk.initial h
    have hnone : ∀ i f, ¬ Owned own i f := fun i f ⟨o, ho, hof⟩ =>
      hok.unowned i (by rw [h.desc_eq i]; rfl) f o ho hof
    exact ⟨own, hok, fun i f ho => absurd ho (hnone i f), fun i f => (iff_false_intro (hnone i f)).symm⟩
  | @op ops s s' call took _ hadm hrun ih =>
    obtain ⟨own, hok, hm, hown⟩ := ih
    obtain ⟨own', hok', gains⟩ := hok.run hadm hrun
    have hone : ∀ i j, call.target s = some i → call.target s = some j → i = j := fun i j hi hj =>
      Option.some.inj (hi.symm.trans hj)
    refine ⟨own', hok', fun i f => gains.managed_of_owned hm, fun i f => ?_⟩
    rw [gains.owned_iff hone, ← hown]

namespace Run
variable (r : Run)

/-- Frame `f` has been allocated for shard `i` before time `n`: by boot, or by a syscall of
the shard. -/
def AllocatedFor (took : Nat → Nat → Prop) (n i f : Nat) : Prop :=
  took i f ∨ ∃ t, t < n ∧ i = (r.state t).currentShard ∧ ¬ (r.state t).ram.Live f ∧
    (r.state (t + 1)).ram.Live f

theorem allocatedFor_succ {took : Nat → Nat → Prop} {n i f : Nat} : r.AllocatedFor took (n + 1) i f ↔
    r.AllocatedFor took n i f ∨ (i = (r.state n).currentShard ∧ ¬ (r.state n).ram.Live f ∧
      (r.state (n + 1)).ram.Live f) := by
  unfold AllocatedFor
  rw [or_assoc]
  refine or_congr_right ⟨fun ⟨t, ht, h⟩ => ?_, fun h => ?_⟩
  · rcases Nat.lt_succ_iff_lt_or_eq.mp ht with ht | rfl
    · exact Or.inl ⟨t, ht, h⟩
    · exact Or.inr h
  · rcases h with ⟨t, ht, h⟩ | h
    · exact ⟨t, Nat.lt_succ_of_lt ht, h⟩
    · exact ⟨n, Nat.lt_succ_self n, h⟩

/-- **A shard owns the frames allocated for it.** -/
theorem owned {took : Nat → Nat → Prop} (hboot : BootTook r.isRam r.ops (r.state 0) took) (n : Nat)
    (hm : (r.state n).mode ≠ .halted) : ∃ own, Spaces own r.isRam (r.state n) ∧
      (∀ f, (r.state n).ram.Managed f ↔ (r.state 0).ram.Managed f) ∧
      (∀ i f, Owned own i f → (r.state n).ram.Managed f) ∧
      ∀ i f, r.AllocatedFor took n i f ↔ Owned own i f := by
  induction n with
  | zero =>
    obtain ⟨own, hok, hmanaged, hown⟩ := hboot.owned
    refine ⟨own, hok.spaces, fun _ => Iff.rfl, hmanaged, fun i f => ?_⟩
    rw [← hown]
    exact ⟨fun h => h.resolve_right fun ⟨t, ht, _⟩ => absurd ht (Nat.not_lt_zero t), Or.inl⟩
  | succ n ih =>
    have hm' := r.unhalted hm
    obtain ⟨own, hok, hconst, hmanaged, hown⟩ := ih hm'
    obtain ⟨own', hok', gains⟩ := hok.step (r.vramOk n) (r.footprint hm') hm fun i => r.created_of_next
    refine ⟨own', hok', fun f => (gains.managed f).trans (hconst f),
      fun i f => gains.managed_of_owned hmanaged, fun i f => ?_⟩
    rw [r.allocatedFor_succ, hown, gains.owned_iff fun i j hi hj => hi.trans hj.symm]

/-- What destroying shard `i` gives back, in the state `before` in which the loop comes to
it: the frames `freed`, by `zero_and_free` calls in this order. -/
structure GivesBack (took : Nat → Nat → Prop) (n i : Nat) (before after : Sys) (freed : List Nat) :
    Prop where
  calls : after.ram = freed.foldl zeroAndFree before.ram
  once : freed.Nodup
  /-- Exactly what has been allocated for the shard. -/
  exact : ∀ f, f ∈ freed ↔ r.AllocatedFor took n i f
  /-- All of it was allocated, and nothing else is given back. -/
  held : ∀ f ∈ freed, before.ram.Live f
  live : ∀ f, after.ram.Live f ↔ before.ram.Live f ∧ f ∉ freed
  zero : ∀ f ∈ freed, ∀ x, Memory.frameOf x = f → after.ram.mem x = 0
  /-- No device page. -/
  memory : ∀ f ∈ freed, r.isRam f
  /-- No table of the shared half. -/
  upper : ∀ f ∈ freed, ∀ k, ¬ UpperTable before.ram.mem (before.desc i).pml4Phys k f
  /-- No frame of another shard. -/
  others : ∀ f ∈ freed, ∀ j, j ≠ i → ¬ r.AllocatedFor took n j f

/-- **Destroy returns exactly what was taken**, for every exited shard in every state of
every run on a machine whose memory map does not offer frame 0. -/
theorem destroy_exact (hzero : ¬ (r.state 0).ram.Managed 0) (n i : Nat)
    (hexited : ((r.state n).desc i).state = .exited) :
    (∃ took, BootTook r.isRam r.ops (r.state 0) took) ∧
      ∀ took, BootTook r.isRam r.ops (r.state 0) took → ∃ before after freed,
        destroyAll i 0 (r.state n) = .ok before ∧ destroy before i = .ok after ∧
          r.GivesBack took n i before after freed := by
  refine ⟨r.booted.took, fun took hboot => ?_⟩
  have hm : (r.state n).mode ≠ .halted := fun hc => by
    rcases r.destroyed_of_halted n i hc with hd | hd
    · rw [hexited] at hd
      cases hd
    · rw [hexited] at hd
      cases hd
  have hi : i < maxShards := by
    refine Nat.lt_of_not_le fun hge => ?_
    rw [Sys.desc_of_ge hge] at hexited
    cases hexited
  obtain ⟨own, hok, hconst, hmanaged, hown⟩ := r.owned hboot n hm
  have hne : ∀ {j}, ((r.state n).desc j).state = .exited → ((r.state n).desc j).state ≠ .free :=
    fun hj => by rw [hj]; nofun
  have hrec : Reclaimable own r.isRam (r.state n) :=
    ⟨hok.ram, hmanaged, fun j hj => (hok.shard j (hne hj)).root, fun j hj => hok.frames j (hne hj)⟩
  -- the loop up to slot `i`
  obtain ⟨own', before, hrun, hrec', hzero', hrest⟩ := hrec.destroyAll (n := i) (i := 0) (by omega)
    fun hc => hzero ((hconst 0).mp hc)
  obtain ⟨hdesc, howned⟩ := hrest i (by omega)
  have hbefore : (before.desc i).state = .exited := by
    rw [hdesc]
    exact hexited
  obtain ⟨hcalls, hfrees, hmem, -⟩ := hrec'.destroyed hzero' hi hbefore
  have hroot := hrec'.root i hbefore
  have htaken : ∀ f, f ∈ freedFrames before.ram.mem (before.desc i) ↔ r.AllocatedFor took n i f := fun f => by
    rw [hmem, howned, hown]
  refine ⟨before, destroyed before i, freedFrames before.ram.mem (before.desc i), hrun,
    destroy_of_exited hi hbefore, hcalls,
    (hrec'.frames i hbefore).nodup_freedFrames hrec'.ram.tables hroot, htaken, fun f hf => ?_,
    hfrees.live, hfrees.zero, fun f hf => ?_, fun f hf k hu => ?_, fun f hf j hj hc => ?_⟩
  · obtain ⟨o, ho, -⟩ := (hmem f).mp hf
    exact hrec'.ram.owned_live f o ho (hrec'.managed i f ((hmem f).mp hf))
  · obtain ⟨o, ho, -⟩ := (hmem f).mp hf
    exact (hrec'.ram.tables.ram f o ho).1
  · obtain ⟨o, ho, hof⟩ := (hmem f).mp hf
    rw [hrec'.ram.tables.owner_of_upperTable hroot hu] at ho
    obtain rfl := Option.some.inj ho
    exact hof
  · obtain ⟨o, ho, hof⟩ := (hown i f).mp ((htaken f).mp hf)
    obtain ⟨o', ho', hof'⟩ := (hown j f).mp hc
    rw [ho] at ho'
    obtain rfl := Option.some.inj ho'
    exact hj (hof'.unique hof)

end Run

/-- A shard maps two pages and exits. -/
def heapRun : Run :=
  plainRun [.create emptyImage .normal] oneShard_isSome
    [.schedule, .syscall 43 0x1000 2 0 0, .syscall 0 0 0 0 0]

set_option maxRecDepth 100000 in
theorem heapRun_exact : ¬ (heapRun.state 0).ram.Managed 0 ∧
    ((heapRun.state 3).desc 0).state = .exited ∧
    ((heapRun.state 3).desc 0).allocatedFrames.length = 5 ∧
    (∃ took, BootTook heapRun.isRam heapRun.ops (heapRun.state 0) took) ∧
      ∀ took, BootTook heapRun.isRam heapRun.ops (heapRun.state 0) took → ∃ before after freed,
        destroyAll 0 0 (heapRun.state 3) = .ok before ∧ destroy before 0 = .ok after ∧
          heapRun.GivesBack took 3 0 before after freed := by
  have hzero : ¬ (heapRun.state 0).ram.Managed 0 := by
    unfold Ram.Managed SubRegion.Contains
    decide +kernel
  have hexited : ((heapRun.state 3).desc 0).state = .exited := by decide +kernel
  exact ⟨hzero, hexited, by decide +kernel, heapRun.destroy_exact hzero 3 0 hexited⟩

end Coconut
