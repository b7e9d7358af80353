import Coconut.Blocking

/-!
# Where capabilities come from

Every capability a shard holds has a history: a call of `grant_to_shard` at boot, then
grants from shard to shard, and in between restrictions of the slot it stands in.
`Descends` is that history, with the check each grant made at its moment; it is finite
because it is inductive.  No step creates an entry in another way
(`capabilities_descend`), and rights only shrink along it.
-/
namespace Coconut

/-- `e'` is `e` with fewer rights. -/
structure CapEntry.Attenuates (e' e : CapEntry) : Prop where
  capType : e'.capType = e.capType
  resourceId : e'.resourceId = e.resourceId
  rights : e'.rights &&& e.rights = e'.rights

namespace CapEntry

theorem Attenuates.refl (e : CapEntry) : e.Attenuates e := ⟨rfl, rfl, BitVec.and_self⟩

theorem Attenuates.trans {a b c : CapEntry} (h : a.Attenuates b) (h' : b.Attenuates c) :
    a.Attenuates c where
  capType := h.capType.trans h'.capType
  resourceId := h.resourceId.trans h'.resourceId
  rights := by rw [← h.rights, BitVec.and_assoc, h'.rights]

theorem and_attenuates (v : Bool) (ty res : Nat) (rights mask : BitVec 16) :
    Attenuates ⟨v, ty, res, rights &&& mask⟩ ⟨v, ty, res, rights⟩ :=
  ⟨rfl, rfl, by rw [BitVec.and_assoc, BitVec.and_comm mask, ← BitVec.and_assoc, BitVec.and_self]⟩

/-- A right that a capability with fewer rights has was there before. -/
theorem Attenuates.and_ne_zero {a b : CapEntry} (h : a.Attenuates b) {right : BitVec 16}
    (hr : a.rights &&& right ≠ 0#16) : b.rights &&& right ≠ 0#16 := by
  intro hb
  apply hr
  rw [← h.rights, BitVec.and_assoc, hb, BitVec.and_zero]

end CapEntry

/-! ## Steps -/

namespace Control
variable {c c' : Control} {l : Label}

theorem cap_setCap (c : Control) (j slot : Nat) (f : CapEntry → CapEntry) (i handle : Nat) :
    (c.setCap j slot f).cap i handle =
      if i = j ∧ handle = slot ∧ slot < maxCapsPerShard then f (c.cap j slot) else c.cap i handle := by
  unfold setCap cap
  by_cases hij : i = j
  · subst hij
    rw [setShard_self, Table.getD_modify]
    simp only [true_and]
  · rw [setShard_of_ne c _ hij, if_neg fun h => hij h.1]

/-- The entry at `(i, handle)` after a step: it was there with at least these rights, or
the step is a grant that made it. -/
inductive CapStep (c : Control) (l : Label) (c' : Control) (i handle : Nat) : Prop
  | kept (valid : (c.cap i handle).valid = true)
      (attenuates : (c'.cap i handle).Attenuates (c.cap i handle))
  | granted {j source : Nat} {rights : BitVec 16} (label : l = .grant j source i handle rights)
      (valid : (c.cap j source).valid = true) (unused : (c.cap i handle).valid = false)
      (attenuates : (c'.cap i handle).Attenuates (c.cap j source))
      (grant : (c.cap j source).capType = capChannel →
        (c.cap j source).rights &&& rightChannelGrant ≠ 0#16)

theorem CapStep.same {i handle : Nat} (h : c'.cap i handle = c.cap i handle)
    (hv : (c'.cap i handle).valid = true) : CapStep c l c' i handle :=
  .kept (by rw [← h]; exact hv) (by rw [h]; exact .refl _)

theorem cap_of_caps {i : Nat} (h : (c'.shard i).caps = (c.shard i).caps) (handle : Nat) :
    c'.cap i handle = c.cap i handle := by
  unfold cap
  rw [h]

theorem setShard_caps (c : Control) {j : Nat} {x : ShardControl} (hx : x.caps = (c.shard j).caps)
    (i : Nat) : ((c.setShard j x).shard i).caps = (c.shard i).caps := by
  by_cases hij : i = j
  · rw [hij, setShard_self, hx]
  · rw [setShard_of_ne c x hij]

theorem Step.capStep (hs : Step c l c') {i handle : Nat} (hv : (c'.cap i handle).valid = true) :
    CapStep c l c' i handle := by
  have other : (∀ i, (c'.shard i).caps = (c.shard i).caps) → CapStep c l c' i handle :=
    fun h => .same (cap_of_caps (h i) handle) hv
  cases hs with
  | silent => exact .same rfl hv
  | pledge => exact other (setShard_caps c rfl)
  | @grant j source target slot rights _ _ _ slot_lt _ valid grant unused =>
    rw [cap_setCap] at hv
    by_cases hc : i = target ∧ handle = slot ∧ slot < maxCapsPerShard
    · obtain ⟨rfl, rfl, -⟩ := hc
      refine .granted rfl valid unused ?_ grant
      rw [cap_setCap, if_pos ⟨rfl, rfl, slot_lt⟩]
      exact ⟨rfl, rfl, (CapEntry.and_attenuates true 0 0 _ _).rights⟩
    · exact .same (by rw [cap_setCap, if_neg hc]) (by rw [cap_setCap]; exact hv)
  | @revoke j slot acts slot_lt =>
    by_cases hc : i = j ∧ handle = slot ∧ slot < maxCapsPerShard
    · rw [cap_setCap, if_pos hc] at hv
      cases hv
    · exact .same (by rw [cap_setCap, if_neg hc]) hv
  | @restrict j slot rights acts slot_lt =>
    by_cases hc : i = j ∧ handle = slot ∧ slot < maxCapsPerShard
    · have heq := cap_setCap c j slot (fun e => { e with rights := e.rights &&& rights }) i handle
      rw [if_pos hc] at heq
      obtain ⟨rfl, rfl, -⟩ := hc
      refine .kept ?_ ?_
      · rw [heq] at hv
        exact hv
      · rw [heq]
        exact CapEntry.and_attenuates _ _ _ _ _
    · exact .same (by rw [cap_setCap, if_neg hc]) hv
  | @send j ch ep bytes uses =>
    refine other fun k => ?_
    rcases wake_shard (c.setChannel ch ((c.channel ch).put bytes bytes.length (peerEp ep)))
      ((c.channel ch).shard (peerEp ep)) ch k with hw | ⟨-, -, -, hw⟩ <;> rw [hw] <;> rfl
  | take => exact .same rfl hv
  | block => exact other (setShard_caps c rfl)
  | yield => exact other (setShard_caps c rfl)
  | exit => exact other (setShard_caps c rfl)
  | select => exact other (setShard_caps c rfl)
  | selectTake => exact other (setShard_caps c rfl)
  | selectEmpty => exact other (setShard_caps c rfl)
  | halt =>
    by_cases hex : (c.shard i).state = .exited
    · have hnone : ((c.finish.shard i).caps.getD handle CapEntry.empty).valid = false := by
        rw [finish_of_exited hex]
        unfold ShardControl.destroy Table.getD
        split <;> rfl
      rw [show (c.finish.cap i handle).valid = false from hnone] at hv
      cases hv
    · exact .same (cap_of_caps (by rw [finish_of_ne hex]) handle) hv

/-- Boot inserts entries by `grant_to_shard` only. -/
theorem BootStep.cap {op : BootOp} (hs : BootStep c op c') {i handle : Nat}
    (hv : (c'.cap i handle).valid = true) : c'.cap i handle = c.cap i handle ∨
      ∃ capType resource rights, op = .grant i capType resource rights ∧
        c'.cap i handle = ⟨true, capType.toNat, resource.toNat, rights⟩ := by
  cases hs with
  | silent => exact Or.inl rfl
  | create =>
    refine Or.inl (cap_of_caps ?_ handle)
    exact setShard_caps c (by rfl) i
  | channelInit => exact Or.inl rfl
  | @grant j slot capType resource rights lt slot_lt =>
    rw [cap_setCap]
    split
    · rename_i hc
      exact Or.inr ⟨capType, resource, rights, by rw [hc.1], rfl⟩
    · exact Or.inl rfl

end Control

/-- An entry present when boot ends was inserted by one of its calls. -/
theorem Booted.cap {isRam : Nat → Prop} {ops : List BootOp} {s : Sys} (h : Booted isRam ops s)
    {i handle : Nat} (hv : (s.control.cap i handle).valid = true) :
    ∃ capType resource rights, BootOp.grant i capType resource rights ∈ ops ∧
      s.control.cap i handle = ⟨true, capType.toNat, resource.toNat, rights⟩ := by
  induction h with
  | @initial s hi =>
    have hnone : (s.shards.cap i handle).valid = false := by
      unfold Shards.cap Shards.caps Table.getD
      rw [hi.shards]
      split
      · split <;> rfl
      · rfl
    rw [show (s.control.cap i handle).valid = false from hnone] at hv
    cases hv
  | @op ops s s' op _ _ hrun ih =>
    rcases (BootOp.run_control hrun).cap hv with hsame | ⟨capType, resource, rights, rfl, he⟩
    · rw [hsame] at hv ⊢
      obtain ⟨capType, resource, rights, hmem, he⟩ := ih hv
      exact ⟨capType, resource, rights, List.mem_append_left _ hmem, he⟩
    · exact ⟨capType, resource, rights, List.mem_append_right _ (List.mem_singleton.mpr rfl), he⟩

/-! ## Runs -/

namespace Run
variable (r : Run)

/-- The entry at handle `handle` of shard `i` at time `t`. -/
def cap (t i handle : Nat) : CapEntry := (r.state t).shards.cap i handle

/-- The history of the entry at handle `handle` of shard `i` at time `t`. -/
inductive Descends : Nat → Nat → Nat → Prop
  /-- Inserted at boot by `grant_to_shard`. -/
  | boot {i handle : Nat} {capType : UInt8} {resource : UInt32} {rights : BitVec 16}
      (op : BootOp.grant i capType resource rights ∈ r.ops)
      (entry : r.cap 0 i handle = ⟨true, capType.toNat, resource.toNat, rights⟩) :
      Descends 0 i handle
  /-- Kept, perhaps with fewer rights. -/
  | kept {t i handle : Nat} (before : Descends t i handle)
      (valid : (r.cap t i handle).valid = true)
      (attenuates : (r.cap (t + 1) i handle).Attenuates (r.cap t i handle)) :
      Descends (t + 1) i handle
  /-- Granted by shard `j` from its handle `source`, which held the GRANT right if it is
  a channel capability. -/
  | granted {t i handle j source mask : Nat} (before : Descends t j source)
      (call : (r.event t).returned = some ⟨j, sysCapGrant, source, i, mask, handle⟩)
      (valid : (r.cap t j source).valid = true)
      (attenuates : (r.cap (t + 1) i handle).Attenuates (r.cap t j source))
      (grant : (r.cap t j source).capType = capChannel →
        (r.cap t j source).rights &&& rightChannelGrant ≠ 0#16) : Descends (t + 1) i handle

theorem descends_of_valid {t i handle : Nat} (hv : (r.cap t i handle).valid = true) :
    r.Descends t i handle := by
  induction t generalizing i handle with
  | zero =>
    obtain ⟨capType, resource, rights, hmem, he⟩ := r.booted.cap hv
    exact .boot hmem he
  | succ t ih =>
    obtain ⟨l, hl, hev⟩ := r.control_step t
    cases hl.capStep hv with
    | kept valid attenuates => exact .kept (ih valid) valid attenuates
    | granted label valid unused attenuates grant =>
      subst label
      obtain ⟨mask, -, hev⟩ := hev
      exact .granted (ih valid) (congrArg Event.returned hev) valid attenuates grant

/-- While a slot stays in use its entry changes by restriction only. -/
theorem slot_attenuates {t i handle : Nat} (hv : (r.cap t i handle).valid = true)
    (hv' : (r.cap (t + 1) i handle).valid = true) :
    (r.cap (t + 1) i handle).Attenuates (r.cap t i handle) := by
  obtain ⟨l, hl, -⟩ := r.control_step t
  cases hl.capStep hv' with
  | kept _ attenuates => exact attenuates
  | granted _ _ unused =>
    rw [show (r.cap t i handle).valid = false from unused] at hv
    cases hv

/-- The shard holds a capability for channel `ch`. -/
def HoldsChannel (t i ch : Nat) : Prop :=
  ∃ handle, (r.cap t i handle).valid = true ∧ (r.cap t i handle).capType = capChannel ∧
    (r.cap t i handle).resourceId = ch

/-- If boot gave no GRANT right for channel `ch`, an entry for it stands in a shard that
held one at boot, and carries no GRANT right. -/
theorem Descends.ungrantable {r : Run} {ch : Nat}
    (hboot : ∀ i capType resource rights, BootOp.grant i capType resource rights ∈ r.ops →
      capType.toNat = capChannel → resource.toNat = ch → rights &&& rightChannelGrant = 0#16)
    {t i handle : Nat} (h : r.Descends t i handle)
    (hty : (r.cap t i handle).capType = capChannel) (hres : (r.cap t i handle).resourceId = ch) :
    r.HoldsChannel 0 i ch ∧ (r.cap t i handle).rights &&& rightChannelGrant = 0#16 := by
  induction h with
  | @boot i handle capType resource rights op entry =>
    refine ⟨⟨handle, by rw [entry], hty, hres⟩, ?_⟩
    rw [entry] at hty hres ⊢
    exact hboot i capType resource rights op hty hres
  | kept before valid attenuates ih =>
    obtain ⟨h0, hg⟩ := ih (attenuates.capType.symm.trans hty) (attenuates.resourceId.symm.trans hres)
    refine ⟨h0, ?_⟩
    by_contra hne
    exact attenuates.and_ne_zero hne hg
  | granted before call valid attenuates grant ih =>
    have hty' := attenuates.capType.symm.trans hty
    obtain ⟨-, hg⟩ := ih hty' (attenuates.resourceId.symm.trans hres)
    exact absurd hg (grant hty')

/-- The boot entry a history starts from. -/
theorem Descends.root {r : Run} {t i handle : Nat} (h : r.Descends t i handle) :
    ∃ j capType resource rights, BootOp.grant j capType resource rights ∈ r.ops ∧
      (r.cap t i handle).Attenuates ⟨true, capType.toNat, resource.toNat, rights⟩ := by
  induction h with
  | @boot i handle capType resource rights op entry =>
    exact ⟨i, capType, resource, rights, op, by rw [entry]; exact .refl _⟩
  | kept _ _ attenuates ih =>
    obtain ⟨j, capType, resource, rights, op, h⟩ := ih
    exact ⟨j, capType, resource, rights, op, attenuates.trans h⟩
  | granted _ _ _ attenuates _ ih =>
    obtain ⟨j, capType, resource, rights, op, h⟩ := ih
    exact ⟨j, capType, resource, rights, op, attenuates.trans h⟩

/-- **Capabilities cannot be forged or amplified.**  Every valid entry has a history
that starts at boot and along which type and resource stay and rights only shrink; the
rights of a slot in use only shrink; and a channel for which boot gave no GRANT right is
never spread beyond the shards that held it at boot. -/
theorem capabilities_descend :
    (∀ t i handle, (r.cap t i handle).valid = true → r.Descends t i handle ∧
      ∃ j capType resource rights, BootOp.grant j capType resource rights ∈ r.ops ∧
        (r.cap t i handle).Attenuates ⟨true, capType.toNat, resource.toNat, rights⟩) ∧
    (∀ t i handle, (r.cap t i handle).valid = true → (r.cap (t + 1) i handle).valid = true →
      (r.cap (t + 1) i handle).Attenuates (r.cap t i handle)) ∧
    (∀ ch, (∀ i capType resource rights, BootOp.grant i capType resource rights ∈ r.ops →
        capType.toNat = capChannel → resource.toNat = ch → rights &&& rightChannelGrant = 0#16) →
      ∀ i, ¬ r.HoldsChannel 0 i ch → ∀ t, ¬ r.HoldsChannel t i ch) := by
  refine ⟨fun t i handle hv => ?_, fun t i handle => r.slot_attenuates, ?_⟩
  · have h := r.descends_of_valid hv
    exact ⟨h, h.root⟩
  · rintro ch hboot i hnone t ⟨handle, hv, hty, hres⟩
    exact hnone ((r.descends_of_valid hv).ungrantable hboot hty hres).1

end Run
end Coconut
