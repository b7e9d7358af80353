import Coconut.Paging
import Mathlib.Logic.Function.Basic

/-!
# Forests of page tables

Several address spaces live in one physical memory, each a tree of tables whose
upper half is shared.  The invariant that keeps them apart is stated with an
**ownership map** `own`, which says for a frame what it is: the node of one tree
(a table, or at level 0 a page), a frame a tree holds without mapping it, or a
table of the shared half.  `TablesOk` says that every entry of every table agrees
with the map: below the split an entry leads from a node to the child the index
names, in the same tree, and grants everything, so that the last entry decides;
above it an entry never grants user access.  Because a frame is one node of one
tree, two trees cannot meet.

`isRam` tells the frames of memory from those of devices; only a last-level entry
may leave memory.

The operations on tables are two: a fresh zeroed frame enters the map
(`TablesOk.fresh`), and an absent entry is filled in (`TablesOk.setEntry`).  For
the walk, `walkFrom_addTable` says that linking an empty table changes no
translation, and `walkFrom_of_path` that an entry off the path of an address does
not matter to it.
-/
namespace Paging

/-- What a frame is, in a forest of trees named by `ι`. -/
inductive Owner (ι : Type) where
  /-- A node of a tree; `path` is the virtual address over the span of the level. -/
  | node (tree : ι) (level path : Nat)
  /-- A frame that belongs to a tree and is not part of it. -/
  | held (tree : ι)
  /-- A table of the upper half that all trees share. -/
  | shared (level : Nat)
  deriving DecidableEq, Repr

/-- The ownership map. -/
abbrev Owners (ι : Type) := Nat → Option (Owner ι)

variable {ι : Type}

/-- `own'` says at least what `own` says. -/
def Owners.Extends (own own' : Owners ι) : Prop := ∀ f o, own f = some o → own' f = some o

theorem Owners.Extends.refl (own : Owners ι) : own.Extends own := fun _ _ h => h

theorem Owners.Extends.trans {own own' own'' : Owners ι} (h : own.Extends own')
    (h' : own'.Extends own'') : own.Extends own'' := fun f o hf => h' f o (h f o hf)

/-- Record the owner of a frame. -/
def Owners.assign (own : Owners ι) (c : Nat) (o : Owner ι) : Owners ι :=
  fun f => if f = c then some o else own f

@[simp] theorem Owners.assign_self (own : Owners ι) (c : Nat) (o : Owner ι) :
    own.assign c o c = some o := if_pos rfl

theorem Owners.assign_of_ne (own : Owners ι) {c f : Nat} (o : Owner ι) (h : f ≠ c) :
    own.assign c o f = own f := if_neg h

theorem Owners.extends_assign {own : Owners ι} {c : Nat} (o : Owner ι) (h : own c = none) :
    own.Extends (own.assign c o) := by
  intro f o' hf
  have hne : f ≠ c := fun he => by rw [he, h] at hf; cases hf
  rw [own.assign_of_ne o hne, hf]

/-- What entry `i` of the level-`k + 1` table of tree `t` with path `p` may hold. -/
inductive EntryOk (own : Owners ι) (isRam : Nat → Prop) (t : ι) (k p i e : Nat) : Prop
  | absent (h : isPresent e = false)
  | upper (hk : k = 3) (hi : 256 ≤ i) (hu : hasFlag e pteUser = false)
      (ho : own (physAddr e) = some (.shared 3))
  | table (hk : k ≠ 0) (hi : k = 3 → i < 256) (hu : hasFlag e pteUser = true)
      (hw : hasFlag e pteWritable = true) (hx : hasFlag e pteNoExecute = false)
      (hs : hasFlag e ptePageSize = false) (ho : own (physAddr e) = some (.node t k (p * 512 + i)))
  | page (hk : k = 0) (ho : own (physAddr e) = some (.node t 0 (p * 512 + i)))
  | device (hk : k = 0) (hd : ¬ isRam (physAddr e))

theorem EntryOk.mono {own own' : Owners ι} {isRam : Nat → Prop} {t : ι} {k p i e : Nat}
    (h : EntryOk own isRam t k p i e) (hx : own.Extends own') : EntryOk own' isRam t k p i e := by
  cases h with
  | absent h => exact .absent h
  | upper hk hi hu ho => exact .upper hk hi hu (hx _ _ ho)
  | table hk hi hu hw hn hs ho => exact .table hk hi hu hw hn hs (hx _ _ ho)
  | page hk ho => exact .page hk (hx _ _ ho)
  | device hk hd => exact .device hk hd

/-- Every table agrees with the ownership map. -/
structure TablesOk (own : Owners ι) (isRam : Nat → Prop) (m : Memory) : Prop where
  /-- Owned frames are frames of memory. -/
  ram : ∀ f o, own f = some o → isRam f ∧ f % 4096 = 0 ∧ f < 2 ^ 52
  /-- Entries of the trees. -/
  tree : ∀ f t k p, own f = some (.node t (k + 1) p) → ∀ i, i < 512 →
    EntryOk own isRam t k p i (entryAt m f i)
  /-- Entries of the shared half. -/
  shared : ∀ f k, own f = some (.shared (k + 1)) → k ≠ 0 → ∀ i, i < 512 →
    isPresent (entryAt m f i) = true → hasFlag (entryAt m f i) ptePageSize = false →
    own (physAddr (entryAt m f i)) = some (.shared k)

/-- The owner is a table. -/
def Owner.isTable : Owner ι → Bool
  | .node _ k _ => k != 0
  | .held _ => false
  | .shared _ => true

/-- Every table of tree `t` below the root is the one an entry of its parent names. -/
def Linked (own : Owners ι) (m : Memory) (t : ι) : Prop :=
  ∀ f k p, own f = some (.node t (k + 1) p) → k < 3 → ∃ g,
    own g = some (.node t (k + 2) (p / 512)) ∧ isPresent (entryAt m g (p % 512)) = true ∧
      physAddr (entryAt m g (p % 512)) = f

/-- The frame is one tree `t` uses for something other than tables. -/
def IsData (own : Owners ι) (t : ι) (f : Nat) : Prop :=
  (∃ p, own f = some (.node t 0 p)) ∨ own f = some (.held t)

theorem IsData.owned {own : Owners ι} {t : ι} {f : Nat} (h : IsData own t f) : own f ≠ none := by
  rcases h with ⟨p, h⟩ | h <;> rw [h] <;> exact Option.some_ne_none _

theorem entryAt_congr {m m' : Memory} {f i : Nat} (h : Memory.SameFrame m m' f)
    (hf : f % 4096 = 0) (hi : i < 512) : entryAt m' f i = entryAt m f i :=
  h.readU64 hf (by omega) (by omega)

namespace TablesOk
variable {own : Owners ι} {isRam : Nat → Prop} {m : Memory}

/-- Only the frames of tables matter. -/
theorem congr (h : TablesOk own isRam m) {m' : Memory}
    (hs : ∀ f o, own f = some o → o.isTable = true → Memory.SameFrame m m' f) :
    TablesOk own isRam m' where
  ram := h.ram
  tree f t k p hf i hi := by
    rw [entryAt_congr (hs f _ hf rfl) (h.ram f _ hf).2.1 hi]
    exact h.tree f t k p hf i hi
  shared f k hf hk i hi := by
    rw [entryAt_congr (hs f _ hf rfl) (h.ram f _ hf).2.1 hi]
    exact h.shared f k hf hk i hi

/-- A fresh frame, zeroed, can be given any owner. -/
theorem fresh (h : TablesOk own isRam m) {c : Nat} (o : Owner ι) (hc : own c = none)
    (hram : isRam c) (ha : c % 4096 = 0) (hlt : c < 2 ^ 52) :
    TablesOk (own.assign c o) isRam (m.fill c 4096 0) := by
  have hx := Owners.extends_assign o hc
  have hzero : ∀ i, i < 512 → entryAt (m.fill c 4096 0) c i = 0 := fun i hi =>
    m.readU64_fill_zero (by omega) (by omega)
  have hsame : ∀ f o', own f = some o' → ∀ i, i < 512 →
      entryAt (m.fill c 4096 0) f i = entryAt m f i := fun f o' hf i hi => by
    have hne : f ≠ c := fun he => by rw [he, hc] at hf; cases hf
    exact entryAt_congr (m.fill_sameFrame 0 ha hne) (h.ram f _ hf).2.1 hi
  refine ⟨fun f o' hf => ?_, fun f t k p hf i hi => ?_, fun f k hf hk i hi hp hs => ?_⟩
  · by_cases hfc : f = c
    · exact hfc ▸ ⟨hram, ha, hlt⟩
    · rw [own.assign_of_ne o hfc] at hf
      exact h.ram f o' hf
  · by_cases hfc : f = c
    · exact .absent (by rw [hfc, hzero i hi]; rfl)
    · rw [own.assign_of_ne o hfc] at hf
      rw [hsame f _ hf i hi]
      exact (h.tree f t k p hf i hi).mono hx
  · by_cases hfc : f = c
    · rw [hfc, hzero i hi] at hp
      cases hp
    · rw [own.assign_of_ne o hfc] at hf
      rw [hsame f _ hf i hi] at hp hs ⊢
      exact hx _ _ (h.shared f k hf hk i hi hp hs)

/-- One table of a tree is rewritten, to entries that agree with the map. -/
theorem update (h : TablesOk own isRam m) {m' : Memory} {g p k : Nat} {t : ι}
    (hg : own g = some (.node t (k + 1) p))
    (hother : ∀ f, f ≠ g → Memory.SameFrame m m' f)
    (hnew : ∀ i, i < 512 → EntryOk own isRam t k p i (entryAt m' g i)) :
    TablesOk own isRam m' where
  ram := h.ram
  tree f t' k' p' hf i hi := by
    by_cases hfg : f = g
    · subst hfg
      rw [hg] at hf
      cases hf
      exact hnew i hi
    · rw [entryAt_congr (hother f hfg) (h.ram f _ hf).2.1 hi]
      exact h.tree f t' k' p' hf i hi
  shared f k' hf hk i hi := by
    have hfg : f ≠ g := fun he => by rw [he, hg] at hf; cases hf
    rw [entryAt_congr (hother f hfg) (h.ram f _ hf).2.1 hi]
    exact h.shared f k' hf hk i hi

/-- One entry of one table is rewritten. -/
theorem setEntry (h : TablesOk own isRam m) {g p k i e : Nat} {t : ι}
    (hg : own g = some (.node t (k + 1) p)) (hi : i < 512) (he : e < 2 ^ 64)
    (hok : EntryOk own isRam t k p i e) : TablesOk own isRam (m.writeU64 (g + 8 * i) e) := by
  have ha := (h.ram g _ hg).2.1
  refine h.update hg (fun f hf => m.writeLE_sameFrame ha (by omega) (by omega) hf) ?_
  intro j hj
  by_cases hij : j = i
  · subst hij
    rw [entryAt, m.readU64_writeU64 he]
    exact hok
  · rw [entryAt, m.readU64_writeU64_of_disjoint (by omega)]
    exact h.tree g t k p hg j hj

end TablesOk

/-! ## Entries after a store -/

theorem entryAt_writeU64_same (m : Memory) {g i e : Nat} (he : e < 2 ^ 64) :
    entryAt (m.writeU64 (g + 8 * i) e) g i = e := m.readU64_writeU64 he

theorem entryAt_writeU64_of_ne (m : Memory) {f g i j e : Nat} (hf : f % 4096 = 0)
    (hg : g % 4096 = 0) (hi : i < 512) (hj : j < 512) (h : f ≠ g ∨ j ≠ i) :
    entryAt (m.writeU64 (g + 8 * i) e) f j = entryAt m f j := by
  apply m.readU64_writeU64_of_disjoint
  by_cases hfg : f = g
  · have hne : j ≠ i := h.resolve_left (fun hn => hn hfg)
    omega
  · omega

/-! ## The walk and the map -/

theorem Perms.through_user (a : Perms) {e : Nat} (h : hasFlag e pteUser = false) :
    (a.through e).user = false := by
  rw [Perms.through, h, Bool.and_false]

/-- A table entry that grants everything leaves the permissions as they are. -/
theorem Perms.through_full (a : Perms) {e : Nat} (hu : hasFlag e pteUser = true)
    (hw : hasFlag e pteWritable = true) (hx : hasFlag e pteNoExecute = false) :
    a.through e = a := by
  rw [Perms.through, hu, hw, hx, Bool.and_true, Bool.and_true, Bool.not_false, Bool.and_true]

/-- One step of the walk through a present entry that is not a large page. -/
theorem walkFrom_step (m : Memory) {k g virt : Nat} {a : Perms}
    (hp : isPresent (entryAt m g (tableIndex k virt)) = true)
    (hs : k = 0 ∨ hasFlag (entryAt m g (tableIndex k virt)) ptePageSize = false) :
    walkFrom m (k + 1) g virt a =
      walkFrom m k (physAddr (entryAt m g (tableIndex k virt))) virt
        (a.through (entryAt m g (tableIndex k virt))) := by
  rw [walkFrom]
  have hcond : (hasFlag (entryAt m g (tableIndex k virt)) ptePageSize && k != 0) = false := by
    rcases hs with rfl | hs
    · simp
    · rw [hs, Bool.false_and]
  simp only [hp, hcond, Bool.not_true, Bool.false_eq_true, if_false]

theorem walkFrom_absent (m : Memory) {k g virt : Nat} {a : Perms}
    (hp : isPresent (entryAt m g (tableIndex k virt)) = false) :
    walkFrom m (k + 1) g virt a = none := by
  rw [walkFrom]
  simp only [hp, Bool.not_false, if_true]

/-- Two walks that meet the same entry agree if they agree from there on. -/
theorem walkFrom_congr_entry {m m' : Memory} {k g virt : Nat} (a : Perms)
    (he : entryAt m' g (tableIndex k virt) = entryAt m g (tableIndex k virt))
    (hrec : isPresent (entryAt m g (tableIndex k virt)) = true → ∀ a,
      walkFrom m' k (physAddr (entryAt m g (tableIndex k virt))) virt a =
        walkFrom m k (physAddr (entryAt m g (tableIndex k virt))) virt a) :
    walkFrom m' (k + 1) g virt a = walkFrom m (k + 1) g virt a := by
  rw [walkFrom, walkFrom, he]
  split
  · rfl
  · rename_i hp
    split
    · rfl
    · exact hrec (by simpa using hp) _

/-- User access once refused stays refused. -/
theorem walkFrom_user_false (m : Memory) {k g virt : Nat} {a : Perms} {l : Leaf}
    (ha : a.user = false) (h : walkFrom m k g virt a = some l) : l.user = false := by
  induction k generalizing g a with
  | zero =>
    obtain rfl := Option.some.inj h
    exact ha
  | succ k ih =>
    have hthrough : ∀ e, (a.through e).user = false := fun e => by
      rw [Perms.through, ha, Bool.false_and]
    rw [walkFrom] at h
    split at h
    · cases h
    · split at h
      · split at h
        · cases h
        · obtain rfl := Option.some.inj h
          exact hthrough _
      · exact ih (hthrough _) h

/-- The permissions are those of the page. -/
theorem walkFrom_page (m : Memory) {virt virt' : Nat} (hpage : virt' / 4096 = virt / 4096) {k g : Nat}
    {a : Perms} {l : Leaf} (h : walkFrom m k g virt a = some l) : ∃ l',
    walkFrom m k g virt' a = some l' ∧ l'.user = l.user ∧ l'.writable = l.writable := by
  induction k generalizing g a with
  | zero =>
    obtain rfl := Option.some.inj h
    exact ⟨_, rfl, rfl, rfl⟩
  | succ k ih =>
    rw [walkFrom, tableIndex_of_page hpage]
    rw [walkFrom] at h
    simp only at h ⊢
    split at h
    · cases h
    · rename_i hp
      rw [if_neg hp]
      split at h
      · rename_i hs
        rw [if_pos hs]
        split at h
        · cases h
        · rename_i hk
          obtain rfl := Option.some.inj h
          rw [if_neg hk]
          exact ⟨_, rfl, rfl, rfl⟩
      · rename_i hs
        rw [if_neg hs]
        exact ih h

/-- The index of a lower-half address in the root table. -/
theorem tableIndex_lower {virt : Nat} (h : virt < 0x800000000000) : tableIndex 3 virt < 256 := by
  simp only [tableIndex, span]
  omega

section Walk
variable {own : Owners ι} {isRam : Nat → Prop} {m : Memory} {t : ι} {virt : Nat}

theorem root_path {root : Nat} (hroot : own root = some (.node t 4 0))
    (hv : virt < 0x800000000000) : own root = some (.node t 4 (virt / span 4)) := by
  rw [hroot, show virt / span 4 = 0 from Nat.div_eq_of_lt (by simp only [span]; omega)]

theorem walk_lower {root : Nat} (hv : virt < 0x800000000000) :
    walk m root virt = walkFrom m 4 root virt Perms.full := by
  rw [walk, canonical, decide_eq_true hv, Bool.true_or, if_pos rfl]

/-- The entry met at a node on the path of a lower-half address is absent, leads to
the next node of the path, or to a device page. -/
theorem TablesOk.entry_cases (h : TablesOk own isRam m) (hv : virt < 0x800000000000) {k g : Nat}
    (hk : k < 4) (hg : own g = some (.node t (k + 1) (virt / span (k + 1)))) :
    isPresent (entryAt m g (tableIndex k virt)) = false ∨
    (isPresent (entryAt m g (tableIndex k virt)) = true ∧
      own (physAddr (entryAt m g (tableIndex k virt))) = some (.node t k (virt / span k)) ∧
      (k ≠ 0 → hasFlag (entryAt m g (tableIndex k virt)) ptePageSize = false ∧
        ∀ a : Perms, a.through (entryAt m g (tableIndex k virt)) = a)) ∨
    (isPresent (entryAt m g (tableIndex k virt)) = true ∧ k = 0 ∧
      ¬ isRam (physAddr (entryAt m g (tableIndex k virt)))) := by
  have hok := h.tree g t k _ hg _ (tableIndex_lt k virt)
  rw [div_span k virt hk]
  generalize entryAt m g (tableIndex k virt) = e at hok ⊢
  cases hp : isPresent e with
  | false => exact Or.inl rfl
  | true =>
    refine Or.inr ?_
    cases hok with
    | absent h => rw [hp] at h; cases h
    | upper hk' hi hu ho =>
      subst hk'
      exact absurd (tableIndex_lower hv) (by omega)
    | table hk' hi hu hw hx hs ho =>
      exact Or.inl ⟨rfl, ho, fun _ => ⟨hs, fun a => a.through_full hu hw hx⟩⟩
    | page hk' ho =>
      subst hk'
      exact Or.inl ⟨rfl, ho, fun hc => absurd rfl hc⟩
    | device hk' hd => exact Or.inr ⟨rfl, hk', hd⟩

/-- A present entry of a table above the last is passed without loss of permissions. -/
theorem TablesOk.walkFrom_through (h : TablesOk own isRam m) (hv : virt < 0x800000000000) {k g : Nat}
    (hk : k < 4) (hk0 : k ≠ 0) (hg : own g = some (.node t (k + 1) (virt / span (k + 1))))
    (hp : isPresent (entryAt m g (tableIndex k virt)) = true) (a : Perms) :
    walkFrom m (k + 1) g virt a =
      walkFrom m k (physAddr (entryAt m g (tableIndex k virt))) virt a := by
  rcases h.entry_cases hv hk hg with hp' | ⟨-, -, hs⟩ | ⟨-, hk', -⟩
  · rw [hp] at hp'
    cases hp'
  · rw [walkFrom_step m hp (Or.inr (hs hk0).1), (hs hk0).2]
  · exact absurd hk' hk0

/-- **Where a walk ends.**  From a node on the path of a lower-half address the walk
reaches the page of that address in the same tree, or a device page. -/
theorem TablesOk.walkFrom_frame (h : TablesOk own isRam m) (hv : virt < 0x800000000000) {k g : Nat}
    (hk : k < 4) (hg : own g = some (.node t (k + 1) (virt / span (k + 1)))) {a : Perms} {l : Leaf}
    (hw : walkFrom m (k + 1) g virt a = some l) :
    (own (Memory.frameOf l.phys) = some (.node t 0 (virt / 4096)) ∨
      ¬ isRam (Memory.frameOf l.phys)) ∧ l.phys % 4096 = virt % 4096 := by
  have hoff : virt % 4096 < 4096 := Nat.mod_lt _ (by decide)
  induction k generalizing g a with
  | zero =>
    -- the last table: the walk ends at the frame its entry names
    have hend : ∀ e, Memory.frameOf (physAddr e + virt % 4096) = physAddr e ∧
        (physAddr e + virt % 4096) % 4096 = virt % 4096 := fun e =>
      ⟨Memory.frameOf_add (physAddr_mod e) hoff, by have := physAddr_mod e; omega⟩
    rcases h.entry_cases hv hk hg with hp | ⟨hp, ho, -⟩ | ⟨hp, -, hd⟩
    · rw [walkFrom_absent m hp] at hw
      cases hw
    · rw [walkFrom_step m hp (Or.inl rfl), walkFrom] at hw
      obtain rfl := Option.some.inj hw
      exact ⟨Or.inl (by rw [(hend _).1]; exact ho), (hend _).2⟩
    · rw [walkFrom_step m hp (Or.inl rfl), walkFrom] at hw
      obtain rfl := Option.some.inj hw
      exact ⟨Or.inr (by rw [(hend _).1]; exact hd), (hend _).2⟩
  | succ k ih =>
    rcases h.entry_cases hv hk hg with hp | ⟨hp, ho, hs⟩ | ⟨-, hk0, -⟩
    · rw [walkFrom_absent m hp] at hw
      cases hw
    · rw [walkFrom_step m hp (Or.inr (hs (by omega)).1)] at hw
      exact ih (by omega) ho hw
    · cases hk0

/-- The last-level entry of the translation of `virt` from a level-`k` table. -/
def lastEntry (m : Memory) : Nat → Nat → Nat → Option Nat
  | 0, _, _ => none
  | k + 1, table, virt =>
    let e := entryAt m table (tableIndex k virt)
    if !isPresent e then none
    else if k = 0 then some e
    else lastEntry m k (physAddr e) virt

/-- **The last entry decides**: the levels above it take no permission away. -/
theorem TablesOk.walkFrom_lastEntry (h : TablesOk own isRam m) (hv : virt < 0x800000000000) {k g : Nat}
    (hk : k < 4) (hg : own g = some (.node t (k + 1) (virt / span (k + 1)))) {a : Perms} {l : Leaf}
    (hw : walkFrom m (k + 1) g virt a = some l) : ∃ e, lastEntry m (k + 1) g virt = some e ∧
      l.user = (a.through e).user ∧ l.writable = (a.through e).writable ∧
      l.executable = (a.through e).executable := by
  induction k generalizing g with
  | zero =>
    rw [lastEntry]
    cases hp : isPresent (entryAt m g (tableIndex 0 virt)) with
    | false =>
      rw [walkFrom_absent m hp] at hw
      cases hw
    | true =>
      rw [walkFrom_step m hp (Or.inl rfl), walkFrom] at hw
      obtain rfl := Option.some.inj hw
      exact ⟨_, rfl, rfl, rfl, rfl⟩
  | succ k ih =>
    rw [lastEntry]
    rcases h.entry_cases hv hk hg with hp | ⟨hp, ho, hs⟩ | ⟨-, hk0, -⟩
    · rw [walkFrom_absent m hp] at hw
      cases hw
    · rw [walkFrom_step m hp (Or.inr (hs (by omega)).1), (hs (by omega)).2] at hw
      simp only [hp, Bool.not_true, Bool.false_eq_true, if_false, Nat.succ_ne_zero]
      exact ih (by omega) ho hw
    · cases hk0

/-- An upper-half address never grants user access. -/
theorem TablesOk.walk_upper (h : TablesOk own isRam m) {g : Nat}
    (hg : own g = some (.node t 4 0)) (hv : 0x800000000000 ≤ virt) {l : Leaf}
    (hlt : virt < 2 ^ 64) (hw : walk m g virt = some l) : l.user = false := by
  unfold walk at hw
  split at hw
  · rename_i hc
    have hi : 256 ≤ tableIndex 3 virt := by
      simp only [canonical, Bool.or_eq_true, decide_eq_true_eq] at hc
      simp only [tableIndex, span]
      omega
    cases h.tree g t 3 0 hg _ (tableIndex_lt 3 virt) with
    | absent hp => rw [walkFrom_absent m hp] at hw; cases hw
    | upper _ _ hu _ =>
      rw [walkFrom] at hw
      split at hw
      · cases hw
      · split at hw
        · split at hw
          · cases hw
          · rename_i hc3
            simp at hc3
        · exact walkFrom_user_false m (Perms.through_user _ hu) hw
    | table _ hi' => exact absurd (hi' rfl) (by omega)
    | page hk => cases hk
    | device hk => cases hk
  · cases hw

theorem TablesOk.lower_of_user (h : TablesOk own isRam m) {g : Nat}
    (hg : own g = some (.node t 4 0)) {l : Leaf} (hlt : virt < 2 ^ 64)
    (hw : walk m g virt = some l) (hu : l.user = true) : virt < 0x800000000000 := by
  apply Nat.lt_of_not_le
  intro hv
  rw [h.walk_upper hg hv hlt hw] at hu
  cases hu

/-- Only the entries on the path of an address matter to its walk. -/
theorem TablesOk.walkFrom_of_path (h : TablesOk own isRam m) (hv : virt < 0x800000000000)
    {m' : Memory} {k g : Nat} (hk : k ≤ 4) (hg : own g = some (.node t k (virt / span k)))
    (hsame : ∀ j f, j < k → own f = some (.node t (j + 1) (virt / span (j + 1))) →
      entryAt m' f (tableIndex j virt) = entryAt m f (tableIndex j virt)) (a : Perms) :
    walkFrom m' k g virt a = walkFrom m k g virt a := by
  induction k generalizing g a with
  | zero => rfl
  | succ k ih =>
    refine walkFrom_congr_entry a (hsame k g (by omega) hg) fun hp a => ?_
    rcases h.entry_cases hv (by omega) hg with hp' | ⟨-, ho, -⟩ | ⟨-, rfl, -⟩
    · rw [hp] at hp'
      cases hp'
    · exact ih (by omega) ho (fun j f hj => hsame j f (by omega)) a
    · rfl

/-- **Linking an empty table changes no translation.**  Entry `i` of the table `f` was
absent, and now leads to a table without entries. -/
theorem TablesOk.walkFrom_addTable (h : TablesOk own isRam m) (hv : virt < 0x800000000000)
    {m' : Memory} {f p i k₀ : Nat} (hk₀ : k₀ ≠ 0) (hf : own f = some (.node t (k₀ + 1) p))
    (hold : isPresent (entryAt m f i) = false)
    (hsame : ∀ g o, own g = some o → ∀ j, j < 512 → (g ≠ f ∨ j ≠ i) → entryAt m' g j = entryAt m g j)
    (hempty : ∀ j, j < 512 → isPresent (entryAt m' (physAddr (entryAt m' f i)) j) = false)
    (hps : hasFlag (entryAt m' f i) ptePageSize = false)
    {k g : Nat} (hk : k ≤ 4) (hg : own g = some (.node t k (virt / span k))) (a : Perms) :
    walkFrom m' k g virt a = walkFrom m k g virt a := by
  induction k generalizing g a with
  | zero => rfl
  | succ k ih =>
    by_cases hhit : g = f ∧ tableIndex k virt = i
    · -- the walk meets the new entry: nothing before, nothing behind it now
      obtain ⟨rfl, hi⟩ := hhit
      rw [walkFrom_absent m (by rw [hi]; exact hold)]
      cases hp : isPresent (entryAt m' g i) with
      | false => exact walkFrom_absent m' (by rw [hi]; exact hp)
      | true =>
        rw [walkFrom_step m' (by rw [hi]; exact hp) (Or.inr (by rw [hi]; exact hps)), hi]
        have hk1 : k = k₀ := by
          rw [hf] at hg
          cases hg
          rfl
        obtain ⟨k', rfl⟩ : ∃ k', k = k' + 1 := ⟨k - 1, by omega⟩
        exact walkFrom_absent m' (hempty _ (tableIndex_lt _ _))
    · have he : entryAt m' g (tableIndex k virt) = entryAt m g (tableIndex k virt) :=
        hsame g _ hg _ (tableIndex_lt _ _) (Decidable.not_and_iff_or_not.mp hhit)
      refine walkFrom_congr_entry a he fun hp a => ?_
      rcases h.entry_cases hv (by omega) hg with hp' | ⟨-, ho, -⟩ | ⟨-, rfl, -⟩
      · rw [hp] at hp'
        cases hp'
      · exact ih (by omega) ho a
      · rfl

/-! ## The tables of a tree -/

/-- Frame `f` is a table of level `k` that a walk from `root` can meet. -/
inductive TableFrame (m : Memory) (root : Nat) : Nat → Nat → Prop
  | root : TableFrame m root 4 root
  | entry {k f i : Nat} (table : TableFrame m root (k + 1) f) (hk : k ≠ 0) (hi : i < 512)
      (present : isPresent (entryAt m f i) = true)
      (small : hasFlag (entryAt m f i) ptePageSize = false) :
      TableFrame m root k (physAddr (entryAt m f i))

/-- A table that is met is a node of the tree, or shared. -/
theorem TablesOk.owner_of_tableFrame (h : TablesOk own isRam m) {root k f : Nat}
    (hroot : own root = some (.node t 4 0)) (hf : TableFrame m root k f) :
    (∃ p, own f = some (.node t k p)) ∨ own f = some (.shared k) := by
  induction hf with
  | root => exact Or.inl ⟨0, hroot⟩
  | @entry k f i _ hk hi present small ih =>
    rcases ih with ⟨p, hf⟩ | hf
    · cases h.tree f t k p hf i hi with
      | absent hp => rw [present] at hp; cases hp
      | upper hk' _ _ ho => exact Or.inr (hk' ▸ ho)
      | table _ _ _ _ _ _ ho => exact Or.inl ⟨_, ho⟩
      | page hk' => exact absurd hk' hk
      | device hk' => exact absurd hk' hk
    · exact Or.inr (h.shared f k hf hk i hi present small)

/-- Frame `f` is a table of level `k` of the half all trees share, as met from `root`. -/
inductive UpperTable (m : Memory) (root : Nat) : Nat → Nat → Prop
  | root {i : Nat} (hi : 256 ≤ i) (hlt : i < 512) (present : isPresent (entryAt m root i) = true) :
      UpperTable m root 3 (physAddr (entryAt m root i))
  | entry {k f i : Nat} (table : UpperTable m root (k + 1) f) (hk : k ≠ 0) (hi : i < 512)
      (present : isPresent (entryAt m f i) = true)
      (small : hasFlag (entryAt m f i) ptePageSize = false) :
      UpperTable m root k (physAddr (entryAt m f i))

theorem TablesOk.owner_of_upperTable (h : TablesOk own isRam m) {root k f : Nat}
    (hroot : own root = some (.node t 4 0)) (hf : UpperTable m root k f) : own f = some (.shared k) := by
  induction hf with
  | @root i hi hlt present =>
    cases h.tree root t 3 0 hroot i hlt with
    | absent hp => rw [present] at hp; cases hp
    | upper _ _ _ ho => exact ho
    | table _ hi' => exact absurd (hi' rfl) (by omega)
    | page hk => cases hk
    | device hk => cases hk
  | entry _ hk hi present small ih => exact h.shared _ _ ih hk _ hi present small

theorem TableFrame.level_ne {root k f : Nat} (h : TableFrame m root k f) : k ≠ 0 := by
  cases h with
  | root => exact Nat.succ_ne_zero 3
  | entry _ hk => exact hk

end Walk
end Paging
