import Coconut.Replay
import Coconut.Validation

/-!
# Permissions

Pages are mapped at six places: the segments of the image, the stack, the two config
pages, the BAR windows and `mmap`.  `Gains` says with which flags each of them does it,
and that nothing else is ever mapped or changed; so what holds of the leaves of these six
places holds of every leaf of every shard, at every point of a run.
-/
namespace Coconut
open Paging

variable {isRam : Nat → Prop} {own own' : Owners Nat} {s s' : Sys} {ops : List BootOp}

/-! ## Leaves -/

/-- What a leaf of a shard's lower half is like. -/
structure LeafOk (image : Slice) (va : Nat) (leaf : Leaf) : Prop where
  /-- Virtual page 0 is unmapped. -/
  page : 0x1000 ≤ va
  wx : leaf.writable = true → leaf.executable = false
  /-- Code is in the pages of an executable segment. -/
  segment : leaf.executable = true → ∃ elf seg, parse image = .ok elf ∧ seg ∈ elf.segments ∧
    seg.executable = true ∧ seg.vaddr ≤ va ∧ va < seg.vaddr + pageUp seg.memSize

/-- Data pages. -/
theorem LeafOk.of_noExecute {image : Slice} {va flags : Nat} {leaf : Leaf} (hva : 0x1000 ≤ va)
    (hf : LeafFlags flags leaf) (hx : hasFlag flags pteNoExecute = true) : LeafOk image va leaf := by
  have hno : leaf.executable = false := by rw [hf.2.2, hx, Bool.not_true]
  refine ⟨hva, fun _ => hno, fun hc => ?_⟩
  rw [hno] at hc
  cases hc

theorem Segment.hasFlag_flags (seg : Segment) :
    hasFlag seg.flags pteWritable = seg.writable ∧ hasFlag seg.flags pteNoExecute = !seg.executable := by
  unfold Segment.flags
  cases seg.writable <;> cases seg.executable <;> decide

/-- The pages of the image. -/
theorem LeafOk.of_segment {image : Slice} {elf : Image} {va : Nat} {leaf : Leaf}
    (hparse : parse image = .ok elf) (h : SegmentLeaf elf.segments va leaf) : LeafOk image va leaf := by
  obtain ⟨seg, hseg, hstart, hwx, h1, h2, -, hw, hx⟩ := h
  obtain ⟨hfw, hfx⟩ := seg.hasFlag_flags
  rw [hfw] at hw
  rw [hfx, Bool.not_not] at hx
  refine ⟨Nat.le_trans hstart h1, fun hc => ?_, fun hc => ?_⟩
  · rw [hx]
    exact hwx (hw ▸ hc)
  · exact ⟨elf, seg, hparse, hseg, hx ▸ hc, h1, h2⟩

/-! ## Boot -/

/-- The BAR window, if the call maps one, lies in `[ASLR_START, ASLR_END)`. -/
def BootOp.FitsAslr (s : Sys) : BootOp → Prop
  | .mapBar _ _ barSize virtBase cap => 0x800000 ≤ virtBase ∧
    virtBase + windowPages (min barSize cap) * 4096 ≤ 0x3F000000
  | .mapVram _ partition vramVaddr => 0x800000 ≤ vramVaddr ∧
    vramVaddr + windowPages (min (s.partition partition).vramSize maxVramMap) * 4096 ≤ 0x3F000000
  | _ => True

/-- The image of which the call creates a shard. -/
def BootOp.image? : BootOp → Option Slice
  | .create image _ => some image
  | _ => none

/-- The images of the shards, by id. -/
def images (ops : List BootOp) : List Slice := ops.filterMap BootOp.image?

/-- The config page the call maps: the shard and the address. -/
def BootOp.config? : BootOp → Option (Nat × Nat)
  | .gpuConfigPage shardId _ _ _ => some (shardId, gpuConfigVaddr)
  | .pipelineConfig shardId _ _ _ _ _ => some (shardId, pipelineConfigVaddr)
  | _ => none

/-- Whatever a call of boot maps is in order. -/
theorem BootOp.NewLeaf.ok {call : BootOp} {s₀ : Sys} {image : Slice} {va : Nat} {leaf : Leaf}
    (h : call.NewLeaf s va leaf) (hfit : call.FitsAslr s₀) (himage : ∀ i, call.image? = some i → i = image) :
    LeafOk image va leaf := by
  cases call with
  | create i =>
    obtain ⟨elf, hparse, hseg | ⟨h1, -, hf⟩⟩ := h
    · exact .of_segment (himage i rfl ▸ hparse) hseg
    · exact .of_noExecute (Nat.le_trans (by decide) h1) hf (by decide)
  | gpuConfigPage => exact .of_noExecute (Nat.le_trans (by decide) h.1) h.2.2 (by decide)
  | pipelineConfig => exact .of_noExecute (Nat.le_trans (by decide) h.1) h.2.2 (by decide)
  | mapBar => exact .of_noExecute (Nat.le_trans (Nat.le_trans (by decide) hfit.1) h.1) h.2.2 (by decide)
  | mapVram => exact .of_noExecute (Nat.le_trans (Nat.le_trans (by decide) hfit.1) h.1) h.2.2 (by decide)
  | setOwner => exact h.elim
  | channelInit => exact h.elim
  | grant => exact h.elim

/-- Only `create` changes the state of a slot. -/
theorem BootOp.run_state {call : BootOp} (h : call.run s = .ok s') (himage : call.image? = none)
    (i : Nat) : (s'.desc i).state = (s.desc i).state := by
  have hstep := call.run_control h
  change (s'.control.shard i).state = (s.control.shard i).state
  generalize s'.control = c at hstep ⊢
  cases hstep with
  | silent => rfl
  | create => cases himage
  | channelInit => rfl
  | @grant j =>
    by_cases hij : i = j
    · rw [hij, Control.setCap, Control.setShard_self]
    · rw [Control.setCap, Control.setShard_of_ne _ _ hij]

/-- What boot has mapped, after the calls `ops`. -/
structure BootPerms (ops : List BootOp) (s : Sys) : Prop where
  /-- The images fill the slots from the first on. -/
  slots : ∀ i, (s.desc i).state = .free ↔ (images ops).length ≤ i
  leaves : ∀ i image, (images ops)[i]? = some image → ∀ va leaf, va < 0x800000000000 →
    walk s.ram.mem (s.desc i).pml4Phys va = some leaf → LeafOk image va leaf
  config : ∀ call ∈ ops, ∀ i vaddr, call.config? = some (i, vaddr) →
    (s.desc i).state ≠ .free ∧ vaddr < 0x800000000000 ∧ ConfigMapped s i vaddr

theorem BootPerms.created {i : Nat} (h : BootPerms ops s) :
    (s.desc i).state ≠ .free ↔ i < (images ops).length := by
  rw [Ne, h.slots, Nat.not_le]

/-- A config page stays as it is. -/
theorem ConfigMapped.mono {i vaddr : Nat} (h : ConfigMapped s i vaddr) (hv : vaddr < 0x800000000000)
    (hroot : (s'.desc i).pml4Phys = (s.desc i).pml4Phys)
    (hk : KeepsPages (s.desc i).pml4Phys s.ram.mem s'.ram.mem) : ConfigMapped s' i vaddr := by
  intro va hpage
  obtain ⟨leaf, hw, hf⟩ := h va hpage
  rw [hroot]
  exact ⟨leaf, hk va leaf (by omega) hw, hf⟩

theorem images_concat (ops : List BootOp) (call : BootOp) :
    images (ops ++ [call]) = images ops ++ call.image?.toList := by
  unfold images
  rw [List.filterMap_append, List.filterMap_cons]
  cases call.image? <;> rfl

/-- `create` takes the slot after the last one in use. -/
theorem BootPerms.target_create {id : Nat} {image : Slice} {priority : Priority} (h : BootPerms ops s)
    (ok : CreateOk s image priority s' id) : id = (images ops).length := by
  obtain ⟨-, -, -, hbefore⟩ := firstFrom_eq_some.mp ok.first
  have hle := (h.slots id).mp ok.free
  refine Nat.le_antisymm (Nat.le_of_not_lt fun hlt => ?_) hle
  have hnot := hbefore _ (Nat.zero_le _) hlt
  rw [(h.slots _).mpr (Nat.le_refl _)] at hnot
  cases hnot

theorem BootPerms.slots_op {call : BootOp} (h : BootPerms ops s) (hrun : call.run s = .ok s') (i : Nat) :
    (s'.desc i).state = .free ↔ (images (ops ++ [call])).length ≤ i := by
  rw [images_concat, List.length_append]
  cases himage : call.image? with
  | none => rw [call.run_state hrun himage, h.slots, Option.toList_none, List.length_nil, Nat.add_zero]
  | some image =>
    cases call with
    | create image' priority =>
      obtain ⟨⟨s₁, id⟩, hc, rfl⟩ := Kernel.map_eq_ok hrun
      obtain ⟨ok⟩ := create_eq_ok hc
      have hid := h.target_create ok
      rw [Option.toList_some, List.length_singleton]
      by_cases hi : i = id
      · rw [hi, ok.desc_self]
        exact ⟨nofun, fun hc => absurd hc (by omega)⟩
      · rw [ok.desc_of_ne hi, h.slots]
        omega
    | _ => cases himage

/-- The image of the shard a call acts for. -/
theorem BootPerms.image_op {call : BootOp} {i : Nat} {image image' : Slice} (h : BootPerms ops s)
    (hrun : call.run s = .ok s') (htarget : call.target s = some i)
    (hi : (images (ops ++ [call]))[i]? = some image) (himage : call.image? = some image') :
    image' = image := by
  cases call with
  | create =>
    obtain rfl := Option.some.inj himage
    obtain ⟨⟨s₁, id⟩, hc, rfl⟩ := Kernel.map_eq_ok hrun
    obtain ⟨ok⟩ := create_eq_ok hc
    obtain rfl : id = i := Option.some.inj (ok.first.symm.trans htarget)
    rw [images_concat, h.target_create ok, List.getElem?_append_right (Nat.le_refl _), Nat.sub_self] at hi
    exact Option.some.inj hi
  | _ => cases himage

/-- What is mapped before the call concerns images that were there before. -/
theorem BootPerms.old_image {call : BootOp} {i : Nat} {image : Slice} (h : BootPerms ops s)
    (hold : (s.desc i).state ≠ .free) (hi : (images (ops ++ [call]))[i]? = some image) :
    (images ops)[i]? = some image := by
  rwa [images_concat, List.getElem?_append_left (h.created.mp hold)] at hi

/-- A call that maps a config page maps it as it should be. -/
theorem BootOk.config_mapped {call : BootOp} {i vaddr : Nat} (h : BootOk own isRam s)
    (hadm : call.Admissible isRam s) (hrun : call.run s = .ok s')
    (hc : call.config? = some (i, vaddr)) :
    (s.desc i).state ≠ .free ∧ vaddr < 0x800000000000 ∧ ConfigMapped s' i vaddr := by
  cases call with
  | gpuConfigPage id partition vramVaddr mmioVaddr =>
    obtain ⟨rfl, rfl⟩ := Prod.mk.inj (Option.some.inj hc)
    have hpage := h.configPage (.gpuConfigPage id partition vramVaddr mmioVaddr) hadm (by decide)
      (by decide) (gpuConfigFields_fit _ _ _) hrun rfl fun _ _ hl => hl
    exact ⟨hadm.2, by decide, hpage.1⟩
  | pipelineConfig id stage numStages channelId layersStart layersEnd =>
    obtain ⟨rfl, rfl⟩ := Prod.mk.inj (Option.some.inj hc)
    have hpage := h.configPage
      (.pipelineConfig id stage numStages channelId layersStart layersEnd) hadm (by decide)
      (by decide) (pipelineConfigFields_fit _ _ _ _ _) hrun rfl fun _ _ hl => hl
    exact ⟨hadm.2, by decide, hpage.1⟩
  | _ => cases hc

/-- **Every call of boot keeps the permissions in order.** -/
theorem BootPerms.op {call : BootOp} {s₀ : Sys} (h : BootPerms ops s) (hok : BootOk own isRam s)
    (hadm : call.Admissible isRam s) (hrun : call.run s = .ok s') (hfit : call.FitsAslr s₀) :
    BootPerms (ops ++ [call]) s' := by
  obtain ⟨own', -, gains⟩ := hok.run hadm hrun
  have hcreated : ∀ {i}, (s.desc i).state ≠ .free → (s'.desc i).state ≠ .free := fun {i} hi => by
    rw [Ne, h.slots_op hrun, images_concat, List.length_append]
    have := h.created.mp hi
    omega
  refine ⟨h.slots_op hrun, fun i image hi va leaf hv hw => ?_, fun c hc i vaddr hconfig => ?_⟩
  · have hfree : (s'.desc i).state ≠ .free := by
      rw [Ne, h.slots_op hrun, Nat.not_le]
      exact (List.getElem?_eq_some_iff.mp hi).1
    rcases gains.leaves i va leaf hfree hv hw with ⟨hold, hw⟩ | ⟨hacts, hnew⟩
    · exact h.leaves i image (h.old_image hold hi) va leaf hv hw
    · exact hnew.ok hfit fun image' himage => h.image_op hrun hacts hi himage
  · rcases List.mem_append.mp hc with hc | hc
    · obtain ⟨hold, hv, hmapped⟩ := h.config c hc i vaddr hconfig
      exact ⟨hcreated hold, hv, hmapped.mono hv (gains.root i hold) (gains.pages i hold)⟩
    · obtain rfl := List.mem_singleton.mp hc
      obtain ⟨hold, hv, hmapped⟩ := hok.config_mapped hadm hrun hconfig
      exact ⟨hcreated hold, hv, hmapped⟩

theorem Booted.perms {s₀ : Sys} (h : Booted isRam ops s) (hfit : ∀ call ∈ ops, call.FitsAslr s₀) :
    BootPerms ops s := by
  induction h with
  | initial h =>
    refine ⟨fun i => ?_, nofun, nofun⟩
    rw [h.desc_eq i]
    exact ⟨fun _ => Nat.zero_le i, fun _ => rfl⟩
  | op hb hadm hrun ih =>
    obtain ⟨own, hok⟩ := hb.bootOk
    exact (ih fun c hc => hfit c (List.mem_append_left _ hc)).op hok hadm hrun
      (hfit _ (List.mem_append_right _ (List.mem_singleton_self _)))

/-! ## Runs -/

namespace Run
variable (r : Run)

/-- **What is mapped stays mapped as it is**, until the shard is destroyed. -/
theorem keepsPages {n k i : Nat} (hs : (r.state (n + k)).HasSpace i) :
    ((r.state (n + k)).desc i).pml4Phys = ((r.state n).desc i).pml4Phys ∧
      KeepsPages ((r.state n).desc i).pml4Phys (r.state n).ram.mem (r.state (n + k)).ram.mem := by
  have hm := r.unhalted_of_hasSpace hs
  have hi := hs.1
  clear hs
  induction k with
  | zero => exact ⟨rfl, fun _ _ _ hw => hw⟩
  | succ k ih =>
    have hi' := r.created_of_next hi
    obtain ⟨hroot, hkeep⟩ := ih (r.unhalted hm) hi'
    obtain ⟨own, own', -, gains⟩ := r.gains hm
    refine ⟨(gains.root i hi').trans hroot, hkeep.trans ?_⟩
    rw [← hroot]
    exact gains.pages i hi'

/-- Every BAR window lies in the ASLR region. -/
def WindowsFit : Prop := ∀ call ∈ r.ops, call.FitsAslr (r.state 0)

/-- **Every leaf of every shard is in order**, in every state of a run. -/
theorem leafOk (hfit : r.WindowsFit) {i : Nat} {image : Slice} (hi : (images r.ops)[i]? = some image)
    {va : Nat} {leaf : Leaf} (hv : va < 0x800000000000) (n : Nat) (hs : (r.state n).HasSpace i)
    (hw : walk (r.state n).ram.mem ((r.state n).desc i).pml4Phys va = some leaf) : LeafOk image va leaf := by
  have hm := r.unhalted_of_hasSpace hs
  have hc := hs.1
  clear hs
  induction n with
  | zero => exact (r.booted.perms hfit).leaves i image hi va leaf hv hw
  | succ n ih =>
    have hm' := r.unhalted hm
    obtain ⟨own, own', -, gains⟩ := r.gains hm
    rcases gains.leaves i va leaf hc hv hw with ⟨hold, hw⟩ | ⟨-, h1, -, hf⟩
    · exact ih hw hm' hold
    · -- a page of `mmap`, above the image
      have hend : 0 < (r.state n).current.imageEnd := (r.descs n hm' (r.state n).currentShard).image
      refine .of_noExecute (Nat.le_trans ?_ h1) hf (by decide)
      unfold pageUp
      omega

/-- What the page tables of shard `i`, created from `image`, are like in state `n`. -/
structure PermissionsOk (n i : Nat) (image : Slice) : Prop where
  /-- No page is both writable and executable. -/
  wx : ∀ va leaf, va < 0x800000000000 →
    walk (r.state n).ram.mem ((r.state n).desc i).pml4Phys va = some leaf →
    ¬ (leaf.writable = true ∧ leaf.executable = true)
  /-- An executable page belongs to an executable `PT_LOAD` segment of the image. -/
  code : ∀ va leaf, va < 0x800000000000 →
    walk (r.state n).ram.mem ((r.state n).desc i).pml4Phys va = some leaf → leaf.executable = true →
    ∃ elf seg, parse image = .ok elf ∧ seg ∈ elf.segments ∧ seg.executable = true ∧
      seg.vaddr ≤ va ∧ va < seg.vaddr + pageUp seg.memSize
  /-- Virtual page 0 is unmapped. -/
  zero : ∀ va, va < 0x1000 → walk (r.state n).ram.mem ((r.state n).desc i).pml4Phys va = none
  /-- The config pages are mapped for user code, to read only. -/
  config : ∀ call ∈ r.ops, ∀ vaddr, call.config? = some (i, vaddr) → ∀ va, va / 4096 = vaddr / 4096 →
    ∃ leaf, walk (r.state n).ram.mem ((r.state n).desc i).pml4Phys va = some leaf ∧
      leaf.user = true ∧ leaf.writable = false ∧ leaf.executable = false
  /-- The permissions all four levels grant are those of the last entry. -/
  effective : ∀ va leaf, va < 0x800000000000 →
    walk (r.state n).ram.mem ((r.state n).desc i).pml4Phys va = some leaf →
    ∃ e, lastEntry (r.state n).ram.mem 4 ((r.state n).desc i).pml4Phys va = some e ∧
      leaf.user = hasFlag e pteUser ∧ leaf.writable = hasFlag e pteWritable ∧
      leaf.executable = !hasFlag e pteNoExecute
  /-- The frame and the permissions of a mapped page never change until the shard is
  destroyed. -/
  stable : ∀ k, (r.state (n + k)).HasSpace i → ∀ va leaf, va < 0x800000000000 →
    walk (r.state n).ram.mem ((r.state n).desc i).pml4Phys va = some leaf →
    walk (r.state (n + k)).ram.mem ((r.state (n + k)).desc i).pml4Phys va = some leaf

/-- **W^X and stable permissions**, in every state of every run, for every shard that has
an address space. -/
theorem permissions_ok (hfit : r.WindowsFit) (n i : Nat) (hs : (r.state n).HasSpace i) :
    ∃ image, (images r.ops)[i]? = some image ∧ r.PermissionsOk n i image := by
  have hboot := r.booted.perms hfit
  have hcreated : ((r.state 0).desc i).state ≠ .free :=
    r.created_add (n := 0) (k := n) (by rw [Nat.zero_add]; exact hs.1)
  have hlt := hboot.created.mp hcreated
  have hi := List.getElem?_eq_getElem hlt
  obtain ⟨own, hok⟩ := r.spaces n (r.unhalted_of_hasSpace hs)
  have hroot := (hok.shard i hs.1).root
  have hleaf : ∀ va leaf, va < 0x800000000000 →
      walk (r.state n).ram.mem ((r.state n).desc i).pml4Phys va = some leaf →
      LeafOk (images r.ops)[i] va leaf := fun va leaf hv hw => r.leafOk hfit hi hv n hs hw
  refine ⟨_, hi, ⟨fun va leaf hv hw ⟨hwr, hx⟩ => ?_, fun va leaf hv hw hx => (hleaf va leaf hv hw).segment hx,
    fun va hva => ?_, fun call hcall vaddr hc va hva => ?_, fun va leaf hv hw => ?_,
    fun k hs' va leaf hv hw => ?_⟩⟩
  · rw [(hleaf va leaf hv hw).wx hwr] at hx
    cases hx
  · cases hw : walk (r.state n).ram.mem ((r.state n).desc i).pml4Phys va with
    | none => rfl
    | some leaf =>
      have := (hleaf va leaf (by omega) hw).page
      omega
  · obtain ⟨-, hv, hmapped⟩ := hboot.config call hcall i vaddr hc
    have hs0 : (r.state (0 + n)).HasSpace i := by rwa [Nat.zero_add]
    obtain ⟨hroot0, hkeep⟩ := r.keepsPages hs0
    rw [Nat.zero_add] at hroot0 hkeep
    obtain ⟨leaf, hw, hu, hwr, hx⟩ := hmapped.mono hv hroot0 hkeep va hva
    exact ⟨leaf, hw, hu, hwr, hx⟩
  · rw [walk_lower hv] at hw
    obtain ⟨e, he, hu, hwr, hx⟩ :=
      hok.ram.tables.walkFrom_lastEntry hv (by decide) (root_path hroot hv) hw
    exact ⟨e, he, hu, hwr, hx⟩
  · obtain ⟨hroot', hkeep⟩ := r.keepsPages hs'
    rw [hroot']
    exact hkeep va leaf hv hw

end Run

/-- The state after a call that does not panic. -/
theorem Booted.op_get {call : BootOp} (h : Booted isRam ops s) (hadm : call.Admissible isRam s)
    (hrun : (call.run s).toOption.isSome = true) :
    Booted isRam (ops ++ [call]) ((call.run s).toOption.get hrun) := by
  refine h.op hadm ?_
  revert hrun
  cases call.run s with
  | ok s' => exact fun _ => rfl
  | error p => nofun

/-- The plain machine with one shard. -/
def oneShard : Sys := (bootAll plainSys [.create emptyImage .normal]).get oneShard_isSome

/-- A BAR window of one page. -/
def oneWindow : BootOp := .mapBar 0 0x100000000 0x1000 0x800000 0x1000

set_option maxRecDepth 100000 in
theorem oneWindow_isSome : (oneWindow.run oneShard).toOption.isSome = true := by
  decide +kernel

set_option maxRecDepth 100000 in
theorem oneWindow_admissible : oneWindow.Admissible lowRam oneShard := by
  refine ⟨⟨by decide, by decide +kernel⟩, by decide, by decide, fun i hi => ?_⟩
  obtain rfl : i = 0 := Nat.lt_one_iff.mp hi
  unfold lowRam
  decide

/-- The shard with the window is switched to. -/
def windowRun : Run :=
  Run.replay (((Booted.initial plainSys_initial).bootAll (Option.some_get oneShard_isSome).symm).op_get
    oneWindow_admissible oneWindow_isSome) [.schedule]

set_option maxRecDepth 100000 in
theorem windowRun_permissions : windowRun.WindowsFit ∧ (windowRun.state 1).HasSpace 0 ∧
    walk (windowRun.state 1).ram.mem ((windowRun.state 1).desc 0).pml4Phys 0x800000 ≠ none ∧
    ∃ image, (images windowRun.ops)[0]? = some image ∧ windowRun.PermissionsOk 1 0 image := by
  have hfit : windowRun.WindowsFit := by
    intro call hc
    obtain rfl | rfl : call = .create emptyImage .normal ∨ call = oneWindow := by
      simpa [windowRun, Run.replay] using hc
    · trivial
    · exact ⟨by decide, by decide⟩
  have hs : (windowRun.state 1).HasSpace 0 := ⟨by decide +kernel, by decide +kernel⟩
  exact ⟨hfit, hs, by decide +kernel, windowRun.permissions_ok hfit 1 0 hs⟩

end Coconut
