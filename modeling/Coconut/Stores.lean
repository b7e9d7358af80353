import Coconut.PageForest

/-!
# Stores through page tables

What a program can do to memory when every store goes through the lower half of one
tree of a forest, or to a device: it changes bytes of devices and of its own writable
pages (`Touches`).  No table is among them, so no translation changes on the way, and a
sequence of stores can be judged by the translation at its start.

Within one tree the translation is one to one, so that what has been stored at distinct
addresses can be read back.
-/
namespace Paging

variable {ι : Type} {own : Owners ι} {isRam : Nat → Prop} {m m' m'' : Memory} {t : ι}
  {root virt : Nat}

/-- The bytes that changed from `m` to `m'` are those of devices, or of pages that
the lower half of `root` maps writable. -/
def Touches (isRam : Nat → Prop) (root : Nat) (m m' : Memory) : Prop :=
  ∀ a, m' a ≠ m a → ¬ isRam (Memory.frameOf a) ∨ ∃ virt leaf, virt < 0x800000000000 ∧
    walk m root virt = some leaf ∧ leaf.writable = true ∧ leaf.phys = a

theorem Touches.refl (isRam : Nat → Prop) (root : Nat) (m : Memory) : Touches isRam root m m :=
  fun _ h => absurd rfl h

theorem Touches.store {leaf : Leaf} (b : UInt8) (hv : virt < 0x800000000000)
    (hw : walk m root virt = some leaf) (hp : leaf.writable = true) :
    Touches isRam root m fun x => if x = leaf.phys then b else m x := by
  intro a ha
  by_cases h : a = leaf.phys
  · exact Or.inr ⟨virt, leaf, hv, hw, hp, h.symm⟩
  · exact absurd (if_neg h) ha

theorem Touches.device {a : Nat} (b : UInt8) (h : ¬ isRam (Memory.frameOf a)) :
    Touches isRam root m fun x => if x = a then b else m x := by
  intro x hx
  by_cases he : x = a
  · exact Or.inl (he ▸ h)
  · exact absurd (if_neg he) hx

/-! ## Translations after stores -/

/-- Addresses of one page have the same permissions. -/
theorem walk_page {virt' : Nat} {l : Leaf} (hv : virt < 0x800000000000)
    (hpage : virt' / 4096 = virt / 4096) (hw : walk m root virt = some l) : ∃ l',
    walk m root virt' = some l' ∧ l'.user = l.user ∧ l'.writable = l.writable := by
  rw [walk_lower hv] at hw
  rw [walk_lower (show virt' < 0x800000000000 by omega)]
  exact walkFrom_page m hpage hw

namespace TablesOk

/-- The leaf of a lower-half address is the page of that address in the same tree, or a
device page. -/
theorem walk_frame (h : TablesOk own isRam m) (hroot : own root = some (.node t 4 0))
    (hv : virt < 0x800000000000) {l : Leaf} (hw : walk m root virt = some l) :
    (own (Memory.frameOf l.phys) = some (.node t 0 (virt / 4096)) ∨
      ¬ isRam (Memory.frameOf l.phys)) ∧ l.phys % 4096 = virt % 4096 := by
  rw [walk_lower hv] at hw
  exact h.walkFrom_frame hv (by decide) (root_path hroot hv) hw

/-- A memory with the same tables of tree `t` translates as before. -/
theorem walk_congr (h : TablesOk own isRam m) (hroot : own root = some (.node t 4 0))
    (hs : ∀ f k p, own f = some (.node t (k + 1) p) → Memory.SameFrame m m' f)
    (hv : virt < 0x800000000000) : walk m' root virt = walk m root virt := by
  rw [walk_lower hv, walk_lower hv]
  refine h.walkFrom_of_path hv (by decide) (root_path hroot hv) (fun j f _ hf => ?_) _
  exact entryAt_congr (hs f _ _ hf) (h.ram f _ hf).2.1 (tableIndex_lt j virt)

/-- Stores do not reach tables or held frames. -/
theorem sameFrame_of_touches (h : TablesOk own isRam m) (hroot : own root = some (.node t 4 0))
    (ht : Touches isRam root m m') {f : Nat} {o : Owner ι} (hf : own f = some o)
    (ho : ∀ p, o ≠ .node t 0 p) : Memory.SameFrame m m' f := by
  rintro a rfl
  by_contra hne
  rcases ht a hne with hd | ⟨virt, leaf, hv, hw, -, rfl⟩
  · exact hd (h.ram _ _ hf).1
  · rcases (h.walk_frame hroot hv hw).1 with hown | hd
    · rw [hf] at hown
      exact ho _ (Option.some.inj hown)
    · exact hd (h.ram _ _ hf).1

theorem sameTable_of_touches (h : TablesOk own isRam m) (hroot : own root = some (.node t 4 0))
    (ht : Touches isRam root m m') {f : Nat} {o : Owner ι} (hf : own f = some o)
    (ho : o.isTable = true) : Memory.SameFrame m m' f :=
  h.sameFrame_of_touches hroot ht hf fun p he => by
    rw [he] at ho
    cases ho

/-- Stores do not reach read-only pages. -/
theorem sameFrame_of_readOnly (h : TablesOk own isRam m) (hroot : own root = some (.node t 4 0))
    (ht : Touches isRam root m m') {l : Leaf} (hv : virt < 0x800000000000)
    (hw : walk m root virt = some l) (hro : l.writable = false)
    (hram : isRam (Memory.frameOf l.phys)) : Memory.SameFrame m m' (Memory.frameOf l.phys) := by
  have hown := (h.walk_frame hroot hv hw).1.resolve_right fun hd => hd hram
  intro a ha
  by_contra hne
  rcases ht a hne with hd | ⟨virt', leaf, hv', hw', hp, rfl⟩
  · rw [ha] at hd
    exact hd hram
  · -- the page is writable where it was stored to, hence everywhere
    have hown' := (h.walk_frame hroot hv' hw').1
    rw [ha, hown] at hown'
    have hown' := hown'.resolve_right fun hd => hd hram
    have hpage := (Owner.node.inj (Option.some.inj hown')).2.2
    obtain ⟨l', hl', -, hl⟩ := walk_page hv hpage.symm hw
    rw [hw'] at hl'
    obtain rfl := Option.some.inj hl'
    rw [hp, hro] at hl
    cases hl

/-- Stores keep every table in agreement with the map. -/
theorem touch (h : TablesOk own isRam m) (hroot : own root = some (.node t 4 0))
    (ht : Touches isRam root m m') : TablesOk own isRam m' :=
  h.congr fun _ _ hf ho => h.sameTable_of_touches hroot ht hf ho

/-- Stores through one tree change the translation of none. -/
theorem walk_touch (h : TablesOk own isRam m) (hroot : own root = some (.node t 4 0))
    (ht : Touches isRam root m m') {t' : ι} {root' : Nat}
    (hroot' : own root' = some (.node t' 4 0)) (hv : virt < 0x800000000000) :
    walk m' root' virt = walk m root' virt :=
  h.walk_congr hroot' (fun _ _ _ hf => h.sameTable_of_touches hroot ht hf rfl) hv

theorem touches_trans (h : TablesOk own isRam m) (hroot : own root = some (.node t 4 0))
    (h₁ : Touches isRam root m m') (h₂ : Touches isRam root m' m'') : Touches isRam root m m'' := by
  intro a ha
  by_cases hne : m' a = m a
  · rcases h₂ a (by rw [hne]; exact ha) with hd | ⟨virt, leaf, hv, hw, hp, hl⟩
    · exact Or.inl hd
    · rw [h.walk_touch hroot h₁ hroot hv] at hw
      exact Or.inr ⟨virt, leaf, hv, hw, hp, hl⟩
  · exact h₁ a hne

/-- Addresses that share a byte of memory are equal. -/
theorem walk_inj (h : TablesOk own isRam m) (hroot : own root = some (.node t 4 0))
    {virt' : Nat} {l l' : Leaf} (hv : virt < 0x800000000000) (hv' : virt' < 0x800000000000)
    (hw : walk m root virt = some l) (hw' : walk m root virt' = some l')
    (hram : isRam (Memory.frameOf l.phys)) (he : l.phys = l'.phys) : virt = virt' := by
  obtain ⟨hf, ho⟩ := h.walk_frame hroot hv hw
  obtain ⟨hf', ho'⟩ := h.walk_frame hroot hv' hw'
  have hown := hf.resolve_right fun hd => hd hram
  have hown' := hf'.resolve_right fun hd => hd (he ▸ hram)
  rw [he, hown'] at hown
  obtain ⟨-, -, hpage⟩ := Owner.node.inj (Option.some.inj hown)
  rw [he] at ho
  omega

end TablesOk
end Paging
