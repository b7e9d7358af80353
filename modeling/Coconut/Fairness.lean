import Coconut.Replay
import Coconut.Scheduling

/-!
# Round-robin within a priority level

The scheduler always takes a ready shard of the highest priority that has one.  Within
a level it rotates, but the rotation has one cursor for all levels: `LAST_SCHEDULED`
moves when a shard of another level runs, and a scan that starts there may pass over
shards of this level that come after the one selected last.  `skipRun` is a run in which
a shard is passed over for ever by another of its level, because a third of a higher
level keeps moving the cursor back.

As long as no scan passes over a ready shard in this way (`Run.CursorKept`), the rotation
is fair.
-/
namespace Coconut

/-- Levels in the order `pick_next_ready` tries them. -/
def Priority.rank : Priority → Nat
  | .critical => 0
  | .high => 1
  | .normal => 2
  | .low => 3

theorem findSome_priorities {f : Priority → Option Nat} {i : Nat}
    (h : [Priority.critical, .high, .normal, .low].findSome? f = some i) :
    ∃ prio, f prio = some i ∧ ∀ q, q.rank < prio.rank → f q = none := by
  simp only [List.findSome?_cons, List.findSome?_nil] at h
  cases hc : f .critical with
  | some j =>
    rw [hc] at h
    exact ⟨.critical, hc.trans h, fun q hq => absurd hq (Nat.not_lt_zero _)⟩
  | none =>
    cases hh : f .high with
    | some j =>
      rw [hc, hh] at h
      refine ⟨.high, hh.trans h, fun q hq => ?_⟩
      cases q <;> first | exact hc | exact absurd hq (by decide)
    | none =>
      cases hn : f .normal with
      | some j =>
        rw [hc, hh, hn] at h
        refine ⟨.normal, hn.trans h, fun q hq => ?_⟩
        cases q <;> first | exact hc | exact hh | exact absurd hq (by decide)
      | none =>
        cases hl : f .low with
        | none => rw [hc, hh, hn, hl] at h; cases h
        | some j =>
          rw [hc, hh, hn, hl] at h
          refine ⟨.low, hl.trans h, fun q hq => ?_⟩
          cases q <;> first | exact hc | exact hh | exact hn | exact absurd hq (by decide)

namespace Control
variable {c c' : Control} {l : Label} {i : Nat}

/-- The shard picked is the first ready one of its level after the cursor, and no shard
of a higher level is ready. -/
theorem pick_eq_some (hlast : c.lastScheduled < maxShards) (h : c.pick = some i) :
    nextCyclic (c.readyAt (c.shard i).priority) maxShards c.lastScheduled = some i ∧
      ∀ j, j < maxShards → (c.shard j).state = .ready →
        (c.shard i).priority.rank ≤ (c.shard j).priority.rank := by
  obtain ⟨prio, hp, hhigher⟩ := findSome_priorities h
  obtain ⟨-, hat, -⟩ := nextCyclic_eq_some hlast hp
  rw [(readyAt_eq_true.mp hat).2]
  refine ⟨hp, fun j hj hready => ?_⟩
  by_contra hlt
  have := (nextCyclic_eq_none hlast).mp (hhigher _ (Nat.lt_of_not_le hlt)) j hj
  rw [readyAt_eq_true.mpr ⟨hready, rfl⟩] at this
  cases this

theorem setShard_priority (c : Control) {j : Nat} {x : ShardControl}
    (hx : x.priority = (c.shard j).priority) (i : Nat) :
    ((c.setShard j x).shard i).priority = (c.shard i).priority := by
  by_cases hij : i = j
  · rw [hij, setShard_self, hx]
  · rw [setShard_of_ne c x hij]

/-- Priorities are fixed at boot. -/
theorem Step.priority (hs : Step c l c') (i : Nat) : (c'.shard i).priority = (c.shard i).priority := by
  cases hs with
  | silent => rfl
  | pledge => exact setShard_priority c (by rfl) i
  | grant => exact setShard_priority c (by rfl) i
  | revoke => exact setShard_priority c (by rfl) i
  | restrict => exact setShard_priority c (by rfl) i
  | @send j ch ep bytes =>
    rcases wake_shard (c.setChannel ch ((c.channel ch).put bytes bytes.length (peerEp ep)))
      ((c.channel ch).shard (peerEp ep)) ch i with hw | ⟨-, -, -, hw⟩ <;> rw [hw] <;> rfl
  | take => rfl
  | block => exact setShard_priority c (by rfl) i
  | yield => exact setShard_priority c (by rfl) i
  | exit => exact setShard_priority c (by rfl) i
  | select => exact setShard_priority c (by rfl) i
  | selectTake => exact setShard_priority c (by rfl) i
  | selectEmpty => exact setShard_priority c (by rfl) i
  | halt =>
    by_cases hex : (c.shard i).state = .exited
    · rw [finish_of_exited hex]
      rfl
    · rw [finish_of_ne hex]

end Control

namespace Run
variable (r : Run)

/-- The priority of a shard, the same at all times. -/
def priority (i : Nat) : Priority := ((r.state 0).desc i).priority

theorem priority_eq (t i : Nat) : ((r.state t).desc i).priority = r.priority i := by
  induction t with
  | zero => rfl
  | succ t ih =>
    obtain ⟨l, hl, -⟩ := r.control_step t
    exact (hl.priority i).trans ih

/-- A shard of level `prio` is selected at time `t`. -/
def SelectsAt (t : Nat) (prio : Priority) (i : Nat) : Prop :=
  (r.event t).selected = some i ∧ r.priority i = prio

/-- Shard `x` is the one of level `prio` selected last before time `t`. -/
def LastOf (t : Nat) (prio : Priority) (x : Nat) : Prop :=
  ∃ u, u < t ∧ r.SelectsAt u prio x ∧ ∀ v, u < v → v < t → ∀ y, ¬ r.SelectsAt v prio y

/-- A selection at time `t` passes over no ready shard of its level: none lies, in the
order of the rotation, after the shard of the level selected last and up to
`LAST_SCHEDULED`. -/
def CursorKept (t : Nat) : Prop :=
  ∀ prio j x, r.SelectsAt t prio j → r.LastOf t prio x →
    NoneSkipped maxShards x (r.state t).lastScheduled (readyAt (r.state t).shards prio)

theorem selectsAt_pick {t j : Nat} {prio : Priority} (h : r.SelectsAt t prio j) :
    nextCyclic (readyAt (r.state t).shards prio) maxShards (r.state t).lastScheduled = some j := by
  have hp := (Control.pick_eq_some (r.control_inv t).last_lt (r.selected_pick h.1)).1
  rw [show ((r.state t).control.shard j).priority = prio from (r.priority_eq t j).trans h.2] at hp
  exact hp

/-- The rotation since a selection of `a` has not passed `b`: the shard of the level
selected last is still `a`, or lies between the two. -/
def ShortOf (t a b : Nat) : Prop :=
  ∃ x, x < maxShards ∧ r.LastOf t (r.priority a) x ∧
    (x = a ∨ ahead maxShards a x < ahead maxShards a b)

/-- A selection of the level at time `t` keeps the rotation short of `b`, unless it
selects `b`, and does not select `a`. -/
theorem ShortOf.select {r : Run} {t a b j : Nat} (h : r.ShortOf t a b) (hk : r.CursorKept t)
    (ha : a < maxShards) (hb : b < maxShards) (hprio : r.priority b = r.priority a)
    (hready : ((r.state t).desc b).state = .ready) (hsel : r.SelectsAt t (r.priority a) j)
    (hne : j ≠ b) : j ≠ a ∧ j < maxShards ∧ ahead maxShards a j < ahead maxShards a b := by
  obtain ⟨x, hx, hlast, hshort⟩ := h
  have hpick := r.selectsAt_pick hsel
  have hc := (r.control_inv t).last_lt
  have hpb : readyAt (r.state t).shards (r.priority a) b = true :=
    (Control.readyAt_eq_true (c := (r.state t).control)).mpr ⟨hready, (r.priority_eq t b).trans hprio⟩
  obtain ⟨h1, h2⟩ := ahead_lt_of_pick ha hb hx hc hpb hpick (hk _ j x hsel hlast) hshort hne
  exact ⟨h1, (nextCyclic_eq_some hc hpick).1, h2⟩

/-- From a selection of `a` on, the rotation stays short of `b` until `b` is selected. -/
theorem shortOf_until {t₁ a b : Nat} (hk : ∀ t, r.CursorKept t) (ha : a < maxShards)
    (hb : b < maxShards) (hprio : r.priority b = r.priority a)
    (hsel : (r.event t₁).selected = some a) (k : Nat)
    (hready : ∀ t, t₁ < t → t ≤ t₁ + k → (r.event t).selected ≠ none →
      ((r.state t).desc b).state = .ready)
    (hnot : ∀ t, t₁ < t → t ≤ t₁ + k → (r.event t).selected ≠ some b) :
    r.ShortOf (t₁ + k + 1) a b := by
  induction k with
  | zero =>
    exact ⟨a, ha, ⟨t₁, by omega, ⟨hsel, rfl⟩, fun v h1 h2 => by omega⟩, Or.inl rfl⟩
  | succ k ih =>
    have ih := ih (fun t h1 h2 => hready t h1 (by omega)) (fun t h1 h2 => hnot t h1 (by omega))
    by_cases hlevel : ∃ j, r.SelectsAt (t₁ + k + 1) (r.priority a) j
    · -- a selection of the level: it becomes the last one
      obtain ⟨j, hj⟩ := hlevel
      have hb' := hready (t₁ + k + 1) (by omega) (by omega) (by rw [hj.1]; nofun)
      have hne : j ≠ b := fun he => hnot (t₁ + k + 1) (by omega) (by omega) (by rw [hj.1, he])
      obtain ⟨-, hlt, hshort⟩ := ih.select (hk _) ha hb hprio hb' hj hne
      exact ⟨j, hlt, ⟨t₁ + k + 1, by omega, hj, fun v h1 h2 => by omega⟩, Or.inr hshort⟩
    · -- none: the last one stays
      obtain ⟨x, hx, ⟨u, hu, hux, hnone⟩, hshort⟩ := ih
      refine ⟨x, hx, ⟨u, by omega, hux, fun v h1 h2 y hy => ?_⟩, hshort⟩
      by_cases hv : v = t₁ + k + 1
      · exact hlevel ⟨y, hv ▸ hy⟩
      · exact hnone v h1 (by omega) y hy

theorem selected_lt {t i : Nat} (h : (r.event t).selected = some i) : i < maxShards := by
  by_contra hi
  have := r.selected_ready h
  rw [Sys.desc_of_ge (by omega)] at this
  cases this

/-- **Round-robin within a priority level.**  In every run a selected shard is ready, and no
ready shard has a higher priority.  And in a run in which no scan passes over a ready shard
of its level, between two consecutive selections of `a` every other shard of `a`'s level that
was ready at each selection in between has been selected. -/
theorem round_robin :
    (∀ t i, (r.event t).selected = some i → ((r.state t).desc i).state = .ready ∧
      ∀ j, ((r.state t).desc j).state = .ready →
        ((r.state t).desc i).priority.rank ≤ ((r.state t).desc j).priority.rank) ∧
    ((∀ t, r.CursorKept t) →
      ∀ t₁ t₂ a b, t₁ < t₂ → (r.event t₁).selected = some a → (r.event t₂).selected = some a →
      (∀ t, t₁ < t → t < t₂ → (r.event t).selected ≠ some a) → b ≠ a →
      r.priority b = r.priority a →
      (∀ t, t₁ < t → t ≤ t₂ → (r.event t).selected ≠ none → ((r.state t).desc b).state = .ready) →
      ∃ t, t₁ < t ∧ t < t₂ ∧ (r.event t).selected = some b) := by
  refine ⟨fun t i hsel => ⟨r.selected_ready hsel, fun j hj => ?_⟩, ?_⟩
  · by_cases hlt : j < maxShards
    · exact (Control.pick_eq_some (r.control_inv t).last_lt (r.selected_pick hsel)).2 j hlt hj
    · rw [Sys.desc_of_ge (by omega)] at hj
      cases hj
  · intro hk t₁ t₂ a b hlt hsel₁ hsel₂ _ hne hprio hready
    by_contra hnot
    have hnot : ∀ t, t₁ < t → t ≤ t₁ + (t₂ - t₁ - 1) → (r.event t).selected ≠ some b :=
      fun t h1 h2 hb => hnot ⟨t, h1, by omega, hb⟩
    have ha := r.selected_lt hsel₁
    have hb₂ := hready t₂ hlt (Nat.le_refl _) (by rw [hsel₂]; nofun)
    have hb : b < maxShards := by
      by_contra hc
      rw [Sys.desc_of_ge (by omega)] at hb₂
      cases hb₂
    have hshort := r.shortOf_until hk ha hb hprio hsel₁ (t₂ - t₁ - 1)
      (fun t h1 h2 => hready t h1 (by omega)) hnot
    rw [show t₁ + (t₂ - t₁ - 1) + 1 = t₂ by omega] at hshort
    exact (hshort.select (hk _) ha hb hprio hb₂ ⟨hsel₂, rfl⟩ (Ne.symm hne)).1 rfl

end Run

/-! ## A shard passed over -/

/-- Shard 0 has high priority, shards 1 and 2 normal; 0 and 1 share a channel. -/
def skipOps : List BootOp :=
  [.create emptyImage .high, .create emptyImage .normal, .create emptyImage .normal,
    .channelInit 0 0 1, .grant 0 1 0 3#16, .grant 1 1 0 3#16]

set_option maxRecDepth 100000 in
theorem skipOps_ok : (bootAll plainSys skipOps).isSome = true := by decide +kernel

/-- Shard 0 receives, shard 1 sends to it and is preempted, shard 0 receives again; both
times shard 0 gives up the processor, the scan starts after slot 0. -/
def skipRun : Run := plainRun skipOps skipOps_ok
  [.schedule, .syscall 22 0 0x7FF000 1 0, .schedule, .syscall 21 0 0x7FF000 1 0, .timer,
    .schedule, .syscall 22 0 0x7FF000 1 0, .schedule]

set_option maxRecDepth 100000 in
/-- Shard 1 is selected twice in a row, past shard 2 of its level, which is ready all the
time. -/
theorem skipRun_passes_over :
    (skipRun.event 2).selected = some 1 ∧ (skipRun.event 7).selected = some 1 ∧
      skipRun.priority 2 = skipRun.priority 1 ∧
      (∀ t, t < 8 → 2 ≤ t → ((skipRun.state t).desc 2).state = .ready) ∧
      ∀ t, t < 7 → 2 < t →
        (skipRun.event t).selected ≠ some 1 ∧ (skipRun.event t).selected ≠ some 2 := by
  decide +kernel

/-! ## One level -/

namespace Control
variable {c c' : Control} {l : Label} {i : Nat}

theorem Step.lastScheduled {ev : Event} (hs : Step c l c') (hev : l.Shows c ev) :
    c'.lastScheduled = ev.selected.getD c.lastScheduled := by
  have no : ∀ {x : Nat}, ev.selected = none ∧ ev.Quiet → x = ev.selected.getD x := fun hn => by
    rw [hn.1]
    rfl
  cases hs with
  | grant => obtain ⟨a2, -, rfl⟩ := hev; rfl
  | send =>
    obtain ⟨buf, rfl⟩ := hev
    unfold wake
    split <;> rfl
  | take => obtain ⟨buf, rfl⟩ := hev; rfl
  | select => rw [hev.1]; rfl
  | selectTake => cases hev; rfl
  | selectEmpty => rw [hev.1]; rfl
  | silent => exact no hev
  | pledge => exact no hev
  | revoke => exact no hev
  | restrict => exact no hev
  | block => exact no hev
  | yield => exact no hev
  | exit => exact no hev
  | halt => exact no hev

end Control

namespace Run
variable (r : Run)

/-- After a selection the cursor stays until the next one. -/
theorem lastScheduled_eq {u x : Nat} (hsel : (r.event u).selected = some x) (k : Nat)
    (hnone : ∀ v, u < v → v < u + k + 1 → (r.event v).selected = none) :
    (r.state (u + k + 1)).lastScheduled = x := by
  induction k with
  | zero =>
    obtain ⟨l, hl, hev⟩ := r.control_step u
    have := hl.lastScheduled hev
    rwa [hsel] at this
  | succ k ih =>
    obtain ⟨l, hl, hev⟩ := r.control_step (u + k + 1)
    have := hl.lastScheduled hev
    rw [hnone (u + k + 1) (by omega) (by omega)] at this
    exact this.trans (ih fun v h1 h2 => hnone v h1 (by omega))

/-- With a single level the cursor is always at the shard selected last. -/
theorem cursorKept_of_level {prio : Priority} (h : ∀ i, r.priority i = prio) (t : Nat) :
    r.CursorKept t := by
  rintro prio' j x hj ⟨u, hu, hx, hnone⟩
  obtain ⟨k, rfl⟩ := Nat.exists_eq_add_of_lt hu
  refine Or.inl (r.lastScheduled_eq hx.1 k fun v h1 h2 => ?_)
  cases hv : (r.event v).selected with
  | none => rfl
  | some y => exact absurd ⟨hv, (h y).trans ((h j).symm.trans hj.2)⟩ (hnone v h1 h2 y)

end Run

/-- Two shards of normal priority. -/
def turnOps : List BootOp := [.create emptyImage .normal, .create emptyImage .normal]

set_option maxRecDepth 100000 in
theorem turnOps_ok : (bootAll plainSys turnOps).isSome = true := by decide +kernel

/-- Two shards that are preempted in turn. -/
def turnRun : Run := plainRun turnOps turnOps_ok [.schedule, .timer, .schedule, .timer, .schedule]

set_option maxRecDepth 100000 in
theorem turnRun_level (i : Nat) : turnRun.priority i = .normal := by
  by_cases hi : i < maxShards
  · have : ∀ i : Fin 8, turnRun.priority i = .normal := by decide +kernel
    exact this ⟨i, hi⟩
  · unfold Run.priority
    rw [Sys.desc_of_ge (by omega)]
    rfl

set_option maxRecDepth 100000 in
/-- Between two selections of shard 1, shard 0 has had its turn. -/
theorem turnRun_round_robin : (∀ t, turnRun.CursorKept t) ∧
    (turnRun.event 0).selected = some 1 ∧ (turnRun.event 4).selected = some 1 ∧
    ∃ t, 0 < t ∧ t < 4 ∧ (turnRun.event t).selected = some 0 := by
  have hk := turnRun.cursorKept_of_level turnRun_level
  refine ⟨hk, by decide +kernel, by decide +kernel, ?_⟩
  refine turnRun.round_robin.2 hk 0 4 1 0 (by decide) (by decide +kernel) (by decide +kernel) ?_
    (by decide) (by rw [turnRun_level, turnRun_level]) ?_
  · have : ∀ t, t < 4 → 0 < t → (turnRun.event t).selected ≠ some 1 := by decide +kernel
    exact fun t h1 h2 => this t h2 h1
  · have : ∀ t, t < 5 → 0 < t → (turnRun.event t).selected ≠ none →
        ((turnRun.state t).desc 0).state = .ready := by decide +kernel
    exact fun t h1 h2 => this t (by omega) h1

end Coconut
