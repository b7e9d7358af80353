import Coconut.Progress
import Coconut.Registers

/-!
# The machine under the system

A trace of the threads realises a run of the system if there are checkpoints, one for each time
of the run, such that between two of them the shards move as the action says (`eventsOf`), and
system calls are made and answered with the registers that the action says (`Carries`).  Every
run is realised, and at every checkpoint the shards are where the system has them (`realised`):
the saved contexts of the model are the kernel stacks of the code.

In a realisation, the switches of the run are calls of `context_switch` that return as the
compiler expects (`Realises.switch_returns`, `Realises.run_loop_resumes`), a system call that the
run answers comes back to the instruction behind it with the result in RAX
(`Realises.call_answered`), and a shard that the run preempts and resumes finds its registers as
they were (`Realises.preemption_undone`).

All of this is for runs in which no shard enters the kernel with DF set.  The code does not see
to that, and it is the only thing that can break it (`Step.broken_iff`).
-/
namespace Coconut.Switching
open Asm Segments

/-- The trace `T` carries out the run `r`: the action at time `n` in the steps from `time n` to
`time (n + 1)`. -/
structure Realises {A : Addresses (Fin maxShards)} (r : Run) (T : Trace A) (time : Nat → Nat) :
    Prop where
  start : (T.state (time 0)).roster = rosterOf (r.state 0).control
  mono : ∀ n, time n ≤ time (n + 1)
  moves : ∀ n, (slice T.event (time n) (time (n + 1))).filter Event.moves =
    eventsOf (r.state n).control (r.action n) (r.state (n + 1)).control
  carries : ∀ n k, time n ≤ k → k < time (n + 1) →
    Carries A (r.action n) (r.event n).returned (T.event k) (T.state k) (T.state (k + 1))

/-! ## Where the shards are -/

section
variable {r : Run} {n : Nat} {a : Action}

theorem run_shift (h : r.action n = some a) :
    Shift (r.state n).control a (r.state (n + 1)).control := by
  obtain ⟨hmode, l, hl, hby⟩ := r.control_action h
  exact .of_step (r.control_inv n) hl hby hmode

theorem run_roster (r : Run) (n : Nat) : rosterOf (r.state (n + 1)).control =
    (eventsOf (r.state n).control (r.action n) (r.state (n + 1)).control).foldl Roster.next
      (rosterOf (r.state n).control) := by
  cases h : r.action n with
  | none => exact congrArg (fun s => rosterOf (Sys.control s)) (Run.state_of_idle h)
  | some a => exact rosterOf_action (r.control_inv n) (run_shift h)

variable {A : Addresses (Fin maxShards)} {T : Trace A} {time : Nat → Nat}

theorem Realises.agrees (h : Realises r T time) (n : Nat) :
    (T.state (time n)).roster = rosterOf (r.state n).control := by
  induction n with
  | zero => exact h.start
  | succ n ih =>
    have hfold := foldl_slice (x := fun k => (T.state k).roster)
      (fun k => (T.next k).step.roster (T.inv k).sound) (h.mono n)
    rw [hfold, ← foldl_next_filter, h.moves n, ih, ← run_roster]

end

/-! ## Eight kernel stacks -/

/-- The statics of the supervisor in a row, then the kernel stacks, then its own stack. -/
def stackLayout : Layout (Fin maxShards) where
  cell
    | .kernelRsp => 0xFFFF900000000000
    | .userRsp => 0xFFFF900000000008
    | .supervisorRsp => 0xFFFF900000000010
    | .discardRsp => 0xFFFF900000000018
    | .rsp0 => 0xFFFF900000000020
    | .ticks => 0xFFFF900000000028
    | .savedKernelRsp i => 0xFFFF900000000030 + 8 * i
  kernelStack i := 0xFFFFA00000000000 + 4096 * i
  supervisorLow := 0xFFFFB00000000000
  supervisorTop := 0xFFFFB00000010000
  syscallEntry := 0xFFFFFFFF80001000#64
  shardFirstEntry := 0xFFFFFFFF80002000#64
  isrTimer := 0xFFFFFFFF80003000#64
  dispatchReturn := 0xFFFFFFFF80001040#64
  preemptReturn := 0xFFFFFFFF80003040#64

theorem stackLayout_disjoint {p q : Place (Fin maxShards)} {x : Nat} (hp : stackLayout.Has p x)
    (hq : stackLayout.Has q x) : p = q := by
  have hmax : maxShards = 8 := rfl
  rcases p with (_ | _ | _ | _ | _ | _ | i) | i | _ <;>
    rcases q with (_ | _ | _ | _ | _ | _ | j) | j | _ <;>
    simp only [Layout.Has, Layout.low, Layout.high, stackLayout] at hp hq <;>
    first
    | rfl
    | omega
    | rw [show i = j from Fin.ext (by omega)]

theorem stackLayout_bounds (p : Place (Fin maxShards)) :
    0xFFFF800000000000 ≤ stackLayout.low p ∧ stackLayout.high p < 2 ^ 64 := by
  have hmax : maxShards = 8 := rfl
  rcases p with (_ | _ | _ | _ | _ | _ | i) | i | _ <;>
    simp only [Layout.low, Layout.high, stackLayout] <;> omega

theorem stackLayout_aligned (i : Fin maxShards) : stackLayout.kernelStack i % 16 = 0 := by
  simp only [stackLayout]
  omega

theorem stackLayout_roomy : stackLayout.supervisorLow + 4096 ≤ stackLayout.supervisorTop := by
  simp only [stackLayout]
  omega

def shardStacks : Addresses (Fin maxShards) :=
  { stackLayout with
    disjoint := stackLayout_disjoint
    upper := fun p => (stackLayout_bounds p).1
    bound := fun p => (stackLayout_bounds p).2
    aligned := stackLayout_aligned
    roomy := stackLayout_roomy }

/-! ## Every run is realised -/

section
variable {A : Addresses (Fin maxShards)} {s : State (Fin maxShards)} {c c' : Control} {a : Action}
  {b : Option Action} {x : Option Coconut.Returned}

theorem user_of_roster (hs : s.roster = rosterOf c) (hmode : c.mode = .user) :
    s.current = some (slot c.currentShard) ∧ s.thread (slot c.currentShard) = .user :=
  ⟨(congrArg Roster.current hs).trans (if_pos hmode), Thread.eq_user_of_loc
    ((congrFun (congrArg Roster.loc hs) _).trans (if_pos ⟨hmode, rfl⟩))⟩

theorem idle_of_roster (hs : s.roster = rosterOf c) (hmode : c.mode ≠ .user) :
    s.current = none ∧ ∀ i, (s.thread i).loc = waitsAt (c.shard i) :=
  ⟨(congrArg Roster.current hs).trans (if_neg hmode), fun i =>
    (congrFun (congrArg Roster.loc hs) i).trans (if_neg fun h => hmode h.1)⟩

/-- A segment in which no shard moves. -/
theorem exists_pause (h : Inv A s) (hs : s.roster = rosterOf c) :
    ∃ evs s', evs ≠ [] ∧ evs.filter Event.moves = [] ∧ Path (Carries A b x) s evs s' := by
  by_cases hmode : c.mode = .user
  · obtain ⟨hcur, hi⟩ := user_of_roster hs hmode
    exact ⟨[_], s, List.cons_ne_nil _ _, rfl, .cons (user_waits h hcur hi) (.nil s)⟩
  · exact ⟨[_], s, List.cons_ne_nil _ _, rfl,
      .cons (supervisor_waits (idle_of_roster hs hmode).1) (.nil s)⟩

/-- `run_loop` enters a shard that is ready. -/
theorem exists_choice (hcur : s.current = none) {i : Fin maxShards} {y : ShardControl}
    (hready : y.state = .ready) (hi : (s.thread i).loc = waitsAt y) :
    ∃ evs s', evs ≠ [] ∧ evs.filter Event.moves = entryEvents i y.savedContext ∧
      Path (Carries A b x) s evs s' := by
  unfold waitsAt at hi
  rw [hready, if_pos (show ShardState.ready.isLive = true from rfl)] at hi
  cases hc : y.savedContext with
  | firstEntry =>
    rw [hc] at hi
    obtain ⟨s', hp⟩ := exists_first (A := A) (a := b) (x := x) hcur (Thread.eq_fresh_of_loc hi)
    exact ⟨_, s', List.cons_ne_nil _ _, rfl, hp⟩
  | timerPreempt =>
    rw [hc] at hi
    obtain ⟨v, call, hv, hg⟩ := Thread.eq_parked_of_loc hi
    obtain ⟨s1, hp1, hcur1, hi1⟩ := exists_dispatch (A := A) (a := b) (x := x) hcur hv
    obtain ⟨s', hp⟩ := exists_iret (A := A) (a := b) (x := x) hcur1 hi1 hg
    exact ⟨_, s', List.cons_ne_nil _ _, rfl, hp1.append hp⟩
  | sysYield | channelRecv =>
    rw [hc] at hi
    obtain ⟨v, call, hv, hg⟩ := Thread.eq_parked_of_loc hi
    obtain ⟨s1, hp1, hcur1, hi1⟩ := exists_dispatch (A := A) (a := b) (x := x) hcur hv
    obtain ⟨s', hp⟩ := exists_sysret (A := A) (a := b) (x := x) hcur1 hi1 hg
    exact ⟨_, s', List.cons_ne_nil _ _, rfl, hp1.append hp⟩

/-- The segment of one action. -/
theorem exists_action (h : Inv A s) (hs : s.roster = rosterOf c) (hshift : Shift c a c') :
    ∃ evs s', evs ≠ [] ∧ evs.filter Event.moves = eventsOf c (some a) c' ∧
      Path (Carries A (some a) x) s evs s' := by
  cases hshift with
  | stays action mode mode' _ _ =>
    obtain ⟨hcur, hi⟩ := user_of_roster hs mode
    rcases action with hcall | ⟨virt, b, rfl⟩
    · cases a with
      | syscall =>
        obtain ⟨s1, v, hp1, hcur1, hi1, hg, -⟩ := exists_entry .syscall _ x h hcur hi
        obtain ⟨s', hp⟩ := exists_sysret hcur1 hi1 hg
        refine ⟨_, s', List.cons_ne_nil _ _, ?_, hp1.append hp⟩
        rw [eventsOf, if_pos mode']
        rfl
      | timer | fault | store | schedule => exact hcall.elim
    · have hnone : eventsOf c (some (.store virt b)) c' = [] := if_pos mode'
      rw [hnone]
      exact exists_pause h hs
  | leaves action mode mode' _ _ =>
    obtain ⟨hcur, hi⟩ := user_of_roster hs mode
    obtain ⟨s1, v, hp1, hcur1, hi1, -, hroom⟩ := exists_entry (gateOf a) (some a) x h hcur hi
    rw [eventsOf_leaves action mode', leaveEvents]
    split_ifs
    · obtain ⟨s', hp⟩ := exists_exit hcur1 hi1 hroom
      exact ⟨_, s', List.cons_ne_nil _ _, by cases gateOf a <;> rfl, hp1.append hp⟩
    · obtain ⟨s', hp⟩ := exists_yield hcur1 hi1 hroom
      exact ⟨_, s', List.cons_ne_nil _ _, by cases gateOf a <;> rfl, hp1.append hp⟩
  | enters action mode mode' ready lt _ =>
    subst action
    obtain ⟨hcur, hloc⟩ := idle_of_roster hs mode
    have hi := hloc (slot c'.currentShard)
    rw [slot_val lt] at hi
    rw [eventsOf, if_pos mode']
    exact exists_choice hcur ready hi
  | halts action _ mode' _ =>
    subst action
    rw [eventsOf, if_neg mode']
    exact exists_pause h hs

theorem path_roster {evs : List (Event (Fin maxShards))} {s' : State (Fin maxShards)}
    (hp : Path (Carries A b x) s evs s') (h : Inv A s) :
    s'.roster = (evs.filter Event.moves).foldl Roster.next s.roster := by
  rw [foldl_next_filter]
  induction hp with
  | nil => rfl
  | cons step _ ih =>
    rw [ih (h.step step.toMove), step.step.roster h.sound]
    rfl

/-- A processor before anything runs. -/
def resetProcessor : Processor :=
  ⟨fun _ => 0#64, 0#64, 2#64, 0x08#16, 0x10#16, 0x10#16, 0x10#16, fun _ => 0, fun _ => 0⟩

theorem exists_start : ∃ s : State (Fin maxShards), Start s :=
  ⟨⟨resetProcessor, fun _ => .absent, none, resetProcessor, false, False⟩,
    ⟨id, rfl, rfl, fun _ => rfl, rfl⟩⟩

/-- The shards that boot has created are there, and none has run. -/
theorem exists_booted (A : Addresses (Fin maxShards)) (hs : Start s) (hc : c.Fresh) :
    ∃ evs s', evs ≠ [] ∧ Path (Move A) s evs s' ∧ s'.roster = rosterOf c := by
  obtain ⟨s', hp, hcur, hth⟩ := exists_boot (A := A) hs.current hs.started
    ((List.finRange maxShards).filter fun i => (c.shard i).state.isLive)
    ((List.nodup_finRange maxShards).filter _) fun i _ => hs.absent i
  have hmode : c.mode ≠ .user := by
    rw [hc.mode]
    decide
  refine ⟨_, s', List.cons_ne_nil .supervisor _,
    .cons (supervisor_waits (a := none) (x := none) hs.current).toMove hp,
    Roster.ext (hcur.trans (if_neg hmode).symm) (funext fun i => ?_)⟩
  refine ((congrArg Thread.loc (hth i)).trans ?_).trans (if_neg fun h => hmode h.1).symm
  have hmem : (i ∈ (List.finRange maxShards).filter fun i : Fin maxShards =>
      (c.shard i).state.isLive) ↔ (c.shard i).state.isLive = true := by
    rw [List.mem_filter]
    exact and_iff_right (List.mem_finRange i)
  unfold waitsAt
  rw [hc.context i]
  by_cases hlive : (c.shard i).state.isLive = true
  · rw [if_pos (hmem.mpr hlive), if_pos hlive]
    rfl
  · rw [if_neg fun h => hlive (hmem.mp h), if_neg hlive, hs.absent i]
    rfl

theorem exists_realisation (A : Addresses (Fin maxShards)) (r : Run) :
    ∃ (T : Trace A) (time : Nat → Nat), Realises r T time := by
  obtain ⟨s, hs⟩ := exists_start
  -- boot is the segment 0, and the action at time `n` the segment `n + 1`
  obtain ⟨state, event, time, h0, htime, hrun⟩ := exists_run (s := s)
    (R := fun n => Nat.casesOn n (Move A) fun n => Carries A (r.action n) (r.event n).returned)
    (P := fun n s => Nat.casesOn n (Start s) fun n =>
      Inv A s ∧ s.roster = rosterOf (r.state n).control)
    (Q := fun n evs => Nat.casesOn n True fun n => evs.filter Event.moves =
      eventsOf (r.state n).control (r.action n) (r.state (n + 1)).control)
    hs fun n s hP => by
      cases n with
      | zero =>
        obtain ⟨evs, s', hne, hp, hroster⟩ := exists_booted A hP r.booted.fresh
        have hinv := hp.preserves (fun h hm => h.step hm) (Start.inv hP)
        exact ⟨evs, s', hne, trivial, hp, hinv, hroster⟩
      | succ n =>
        obtain ⟨hinv, hroster⟩ := hP
        obtain ⟨evs, s', hne, hmoves, hp⟩ : ∃ evs s', evs ≠ [] ∧ evs.filter Event.moves =
            eventsOf (r.state n).control (r.action n) (r.state (n + 1)).control ∧
            Path (Carries A (r.action n) (r.event n).returned) s evs s' := by
          cases ha : r.action n with
          | none => exact exists_pause hinv hroster
          | some a => exact exists_action hinv hroster (run_shift ha)
        refine ⟨evs, s', hne, hmoves, hp, path_inv hp hinv, ?_⟩
        rw [path_roster hp hinv, hmoves, hroster, ← run_roster]
  have hnext : ∀ k, Move A (event k) (state k) (state (k + 1)) := by
    intro k
    obtain ⟨n, h1, h2⟩ := exists_segment_of_lt htime (fun n => (hrun n).1) k
    have hk := (hrun n).2.2.2 k h1 h2
    cases n with
    | zero => exact hk
    | succ n => exact hk.toMove
  have hstart : Start (state 0) := by
    rw [htime] at h0
    rw [h0]
    exact hs
  exact ⟨⟨state, event, hstart, hnext⟩, fun n => time (n + 1), (hrun 1).2.1.2,
    fun n => Nat.le_of_lt (hrun (n + 1)).1, fun n => (hrun (n + 1)).2.2.1,
    fun n k h1 h2 => (hrun (n + 1)).2.2.2 k h1 h2⟩

/-- **The machine carries out every run of the system**, and wherever it does, the shards are
where the system has them: in user mode, or in the kernel at the place that the saved context
names. -/
theorem realised (A : Addresses (Fin maxShards)) (r : Run) :
    (∃ (T : Trace A) (time : Nat → Nat), Realises r T time) ∧
      ∀ (T : Trace A) (time : Nat → Nat), Realises r T time →
        ∀ n, (T.state (time n)).roster = rosterOf (r.state n).control :=
  ⟨exists_realisation A r, fun _ _ h => h.agrees⟩

set_option maxRecDepth 100000 in
theorem preemptedRun_realised : ∃ (T : Trace shardStacks) (time : Nat → Nat),
    Realises preemptedRun T time ∧ (T.state (time 2)).roster.loc (slot 0) = .parked .timer := by
  obtain ⟨⟨T, time, h⟩, hroster⟩ := realised shardStacks preemptedRun
  refine ⟨T, time, h, ?_⟩
  rw [hroster T time h 2]
  decide +kernel

end

/-! ## What a realisation says of the run -/

section
variable {r : Run} {i n m : Nat} {a : Action}

theorem lt_of_runs (h : r.Runs i n) : i < maxShards := h.2 ▸ ((r.control_inv n).user h.1).1

theorem run_leaves (h : r.Runs i n) (h' : ¬ r.Runs i (n + 1)) :
    ∃ a, r.action n = some a ∧ a.mode = .user ∧ (r.state (n + 1)).mode ≠ .user := by
  cases ha : r.action n with
  | none =>
    refine absurd ?_ h'
    unfold Run.Runs
    rwa [Run.state_of_idle ha]
  | some a =>
    refine ⟨a, rfl, (r.control_action ha).1.trans h.1, ?_⟩
    cases run_shift ha with
    | stays _ _ mode' current => exact absurd ⟨mode', current.trans h.2⟩ h'
    | leaves _ _ mode' => exact mode'
    | enters _ mode | halts _ mode => exact absurd h.1 mode

namespace Realises
variable {A : Addresses (Fin maxShards)} {T : Trace A} {time : Nat → Nat} {k : Nat}

theorem time_le (h : Realises r T time) (hnm : n ≤ m) : time n ≤ time m := by
  induction m, hnm using Nat.le_induction with
  | base => exact Nat.le_refl _
  | succ m _ ih => exact Nat.le_trans ih (h.mono m)

theorem exists_event (h : Realises r T time) {ev : Event (Fin maxShards)}
    (hev : ev ∈ eventsOf (r.state n).control (r.action n) (r.state (n + 1)).control) :
    ∃ k, time n ≤ k ∧ k < time (n + 1) ∧ T.event k = ev := by
  rw [← h.moves n] at hev
  exact mem_slice.mp (List.mem_of_mem_filter hev)

/-- What moves a shard belongs to an action. -/
theorem shift_of_moves (h : Realises r T time) (h1 : time n ≤ k) (h2 : k < time (n + 1))
    (hm : (T.event k).moves = true) : ∃ a, Shift (r.state n).control a (r.state (n + 1)).control ∧
      T.event k ∈ eventsOf (r.state n).control (some a) (r.state (n + 1)).control := by
  have hmem : T.event k ∈ eventsOf (r.state n).control (r.action n) (r.state (n + 1)).control := by
    rw [← h.moves n]
    exact List.mem_filter.mpr ⟨mem_slice.mpr ⟨k, h1, h2, rfl⟩, hm⟩
  cases ha : r.action n with
  | none =>
    rw [ha] at hmem
    cases hmem
  | some a =>
    rw [ha] at hmem
    exact ⟨a, run_shift ha, hmem⟩

theorem runs_of_back (h : Realises r T time) (h1 : time n ≤ k) (h2 : k < time (n + 1))
    (hi : i < maxShards) (hback : (T.event k).Back (slot i)) : r.Runs i (n + 1) := by
  obtain ⟨a, hshift, hmem⟩ := h.shift_of_moves h1 h2 hback.moves
  obtain ⟨hmode, hslot⟩ := hshift.user_of_back hmem hback
  have hlt := ((r.control_inv (n + 1)).user hmode).1
  exact ⟨hmode, (slot_val hlt).symm.trans ((congrArg Fin.val hslot).symm.trans (slot_val hi))⟩

theorem thread_of_runs (h : Realises r T time) (hr : r.Runs i n) :
    (T.state (time n)).thread (slot i) = .user :=
  hr.2 ▸ (user_of_roster (h.agrees n) hr.1).2

/-- The first event of some kind with which a resumed shard comes back is in the segment at whose
end it runs. -/
theorem first_back (h : Realises r T time) (hr : r.Resumes i n (m + 1) a) (hk : time n ≤ k)
    {E : Event (Fin maxShards) → Prop} (hE : ∀ ev, E ev → ev.Back (slot i))
    (hex : ∃ y, k < y ∧ y < time (m + 1) ∧ E (T.event y)) :
    ∃ y, k < y ∧ time m ≤ y ∧ y < time (m + 1) ∧ E (T.event y) ∧
      ∀ z, k < z → z < y → ¬ E (T.event z) :=
  exists_first_in_segment (Nat.le_of_lt_succ hr.lt) hk (fun t y h1 h2 h3 h4 hy =>
    hr.first (t + 1) (by omega) (by omega)
      (h.runs_of_back h3 h4 (lt_of_runs hr.runs) (hE _ hy))) hex

/-- **The switch away from a shard and back.**  The call of `context_switch` with which a shard
is suspended is made when the run suspends it, and returns when the run resumes it: to its
return address, on its stack, with the kept registers and the stack as they were. -/
theorem switch_returns (h : Realises r T time) (hr : r.Resumes i n (m + 1) a)
    (hn : ¬ r.Runs i (n + 1)) :
    ∃ k k', time n ≤ k ∧ k < time (n + 1) ∧ time m ≤ k' ∧ k' < time (m + 1) ∧
      T.event k = .yield (slot i) ∧ T.event k' = .dispatch (slot i) ∧
      Returned (top A (slot i)) (T.state k).cpu (T.state (k' + 1)).cpu := by
  obtain ⟨a, ha, huser, hmode⟩ := run_leaves hr.runs hn
  have hmem := leave_mem (r.state n).control (r.state (n + 1)).control huser hmode
  have hlive : ((r.state (n + 1)).control.shard i).state ≠ .exited := hr.not_exited
  rw [show (r.state n).control.currentShard = i from hr.runs.2, if_neg hlive, ← ha] at hmem
  obtain ⟨k, h1, h2, hk⟩ := h.exists_event hmem
  obtain ⟨v, hp⟩ := (Move.of_yield (hk ▸ T.next k) (T.inv k)).1
  have hle : k + 1 ≤ time (m + 1) := Nat.lt_of_lt_of_le h2 (h.time_le hr.lt)
  obtain ⟨k', h3, h4, h5, hk', hfirst⟩ := h.first_back hr h1 (E := (· = .dispatch (slot i)))
    (by rintro _ rfl; exact .dispatch) (by
      by_contra hno
      have hparked := T.parked_of_le hp hle fun y hy1 hy2 he => hno ⟨y, hy1, hy2, he⟩
      cases hparked.symm.trans (h.thread_of_runs hr.back))
  exact ⟨k, k', h1, h2, h4, h5, hk, hk', T.yield_returns hk hk' h3 hfirst⟩

end Realises

theorem yieldRun_switch_returns : ∃ (T : Trace shardStacks) (time : Nat → Nat) (k k' : Nat),
    Realises yieldRun T time ∧ T.event k = .yield (slot 0) ∧ T.event k' = .dispatch (slot 0) ∧
      Returned (top shardStacks (slot 0)) (T.state k).cpu (T.state (k' + 1)).cpu := by
  obtain ⟨T, time, h⟩ := exists_realisation shardStacks yieldRun
  obtain ⟨k, k', -, -, -, -, hrest⟩ := h.switch_returns yieldRun_resumes
    (yieldRun_resumes.first 2 (by decide) (by decide))
  exact ⟨T, time, k, k', h, hrest⟩

/-- `run_loop` enters shard `i` at time `n`, and the shard runs until it lets go at time `m`. -/
structure Stint (r : Run) (i n m : Nat) : Prop where
  before : ¬ r.Runs i n
  lt : n < m
  runs : ∀ t, n < t → t ≤ m → r.Runs i t
  after : ¬ r.Runs i (m + 1)

namespace Realises
variable {A : Addresses (Fin maxShards)} {T : Trace A} {time : Nat → Nat} {k : Nat}

/-- **The switch to a shard and back.**  The call of `context_switch` with which `run_loop` enters
a shard returns when the shard lets go, in the same way. -/
theorem run_loop_resumes (h : Realises r T time) (hr : Stint r i n m) :
    ∃ k k', time n ≤ k ∧ k < time (n + 1) ∧ time m ≤ k' ∧ k' < time (m + 1) ∧
      (T.event k = .dispatch (slot i) ∨ T.event k = .first (slot i)) ∧
      (T.event k' = .yield (slot i) ∨ T.event k' = .exit (slot i)) ∧
      Returned A.supervisorTop (T.state k).cpu (T.state (k' + 1)).cpu := by
  have hnext := hr.runs (n + 1) (by omega) hr.lt
  have hlast := hr.runs m hr.lt (Nat.le_refl m)
  obtain ⟨a, ha, huser, hmode⟩ := run_leaves hlast hr.after
  obtain ⟨k, h1, h2, hk⟩ : ∃ k, time n ≤ k ∧ k < time (n + 1) ∧
      (T.event k = .dispatch (slot i) ∨ T.event k = .first (slot i)) := by
    have hact := (Run.entered hr.before hnext).1
    rcases choice_mem (r.state n).control (r.state (n + 1)).control hnext.1 with hm | hm <;>
      rw [← hact, show (r.state (n + 1)).control.currentShard = i from hnext.2] at hm <;>
      obtain ⟨k, h1, h2, hk⟩ := h.exists_event hm
    · exact ⟨k, h1, h2, .inl hk⟩
    · exact ⟨k, h1, h2, .inr hk⟩
  obtain ⟨hsup, hcur⟩ := T.chosen hk
  have hle : k + 1 ≤ time (m + 1) := Nat.lt_of_lt_of_le h2 (h.time_le (by have := hr.lt; omega))
  -- which shard lets go, and when, is what the run says
  have hleave : ∀ t y j, time t ≤ y → y < time (t + 1) →
      (T.event y = .yield j ∨ T.event y = .exit j) →
      (r.state (t + 1)).mode ≠ .user ∧ j = slot (r.state t).currentShard := by
    intro t y j hy1 hy2 hy
    have hmoves : (T.event y).moves := by rcases hy with hy | hy <;> rw [hy] <;> rfl
    obtain ⟨a, hshift, hmem⟩ := h.shift_of_moves hy1 hy2 hmoves
    refine hshift.idle_of_leave (hy.imp (fun hy => ?_) fun hy => ?_) <;> rwa [← hy]
  obtain ⟨k', h3, h4, h5, ⟨j, hk'⟩, hfirst⟩ := exists_first_in_segment (Nat.le_of_lt hr.lt) h1
    (E := fun y => ∃ j, T.event y = .yield j ∨ T.event y = .exit j)
    (fun t y ht1 ht2 hy1 hy2 ⟨j, hy⟩ =>
      (hleave t y j hy1 hy2 hy).1 (hr.runs (t + 1) (by omega) ht2).1) (by
      by_contra hno
      have hend := (T.supervisor_of_le hsup hcur hle fun y j hy1 hy2 => not_or.mp fun he =>
        hno ⟨y, hy1, hy2, j, he⟩).2
      exact hend (idle_of_roster (h.agrees (m + 1)) hmode).1)
  obtain rfl : j = slot i := hlast.2 ▸ (hleave m k' j h4 h5 hk').2
  exact ⟨k, k', h1, h2, h4, h5, hk, hk', T.choice_returns hk hk' h3 fun y j hy1 hy2 =>
    not_or.mp fun he => hfirst y hy1 hy2 ⟨j, he⟩⟩

end Realises

set_option maxRecDepth 100000 in
theorem preemptedRun_stint : Stint preemptedRun 0 0 1 := by
  refine ⟨by unfold Run.Runs; decide +kernel, by decide, fun t h1 h2 => ?_,
    preemptedRun_resumes.first 2 (by decide) (by decide)⟩
  obtain rfl : t = 1 := by omega
  exact preemptedRun_resumes.runs

theorem preemptedRun_run_loop_resumes : ∃ (T : Trace shardStacks) (time : Nat → Nat) (k k' : Nat),
    Realises preemptedRun T time ∧ time 0 ≤ k ∧ k' < time 2 ∧
      Returned shardStacks.supervisorTop (T.state k).cpu (T.state (k' + 1)).cpu := by
  obtain ⟨T, time, h⟩ := exists_realisation shardStacks preemptedRun
  obtain ⟨k, k', h1, -, -, h4, -, -, hret⟩ := h.run_loop_resumes preemptedRun_stint
  exact ⟨T, time, k, k', h, h1, h4, hret⟩

namespace Realises
variable {A : Addresses (Fin maxShards)} {T : Trace A} {time : Nat → Nat} {k : Nat}

/-- The visit of a resumed shard ends in the segment at whose end it runs. -/
theorem returns (h : Realises r T time) (hr : r.Resumes i n (m + 1) a) (h1 : time n ≤ k)
    (h2 : k < time (n + 1)) {v : Visit} (hv : (T.state (k + 1)).thread (slot i) = .kernel v) :
    ∃ k', k < k' ∧ time m ≤ k' ∧ k' < time (m + 1) ∧
      (T.event k' = .sysret (slot i) ∧ v.gate = .syscall ∨
        T.event k' = .iret (slot i) ∧ v.gate = .timer) ∧
      ∀ y, k < y → y < k' → T.event y ≠ .sysret (slot i) ∧ T.event y ≠ .iret (slot i) := by
  have hle : k + 1 ≤ time (m + 1) := Nat.lt_of_lt_of_le h2 (h.time_le hr.lt)
  obtain ⟨k', h3, h4, h5, hk', hfirst⟩ := h.first_back hr h1
    (E := fun ev => ev = .sysret (slot i) ∨ ev = .iret (slot i))
    (by rintro _ (rfl | rfl); exacts [.sysret, .iret]) (by
      by_contra hno
      have huser := h.thread_of_runs hr.back
      obtain ⟨-, (hw | ⟨call, hw⟩) | hw⟩ := T.visiting_of_le (.inl hv) hle fun y hy1 hy2 =>
        not_or.mp fun he => hno ⟨y, hy1, hy2, he⟩
      all_goals cases hw.symm.trans huser)
  have hfirst' : ∀ y, k < y → y < k' → T.event y ≠ .sysret (slot i) ∧ T.event y ≠ .iret (slot i) :=
    fun y hy1 hy2 => not_or.mp (hfirst y hy1 hy2)
  refine ⟨k', h3, h4, h5, ?_, hfirst'⟩
  rcases hk' with hk' | hk'
  · obtain ⟨w, hw, hg, -⟩ := Step.of_sysret (hk' ▸ (T.next k').step) (T.inv k')
    cases T.visit_eq (.inl hv) h3 hfirst' hw
    exact .inl ⟨hk', hg⟩
  · obtain ⟨w, hw, hg, -⟩ := Step.of_iret (hk' ▸ (T.next k').step) (T.inv k')
    cases T.visit_eq (.inl hv) h3 hfirst' hw
    exact .inr ⟨hk', hg⟩

/-- The event with which an action of the running shard enters the kernel. -/
theorem entry_event (h : Realises r T time) (hr : r.Runs i n) (ha : r.action n = some a)
    (hin : a = .timer ∨ a.IsCall) :
    ∃ k, time n ≤ k ∧ k < time (n + 1) ∧ T.event k = (gateOf a).event (slot i) := by
  have hmem := (run_shift ha).entry_mem hin
  rw [show (r.state n).control.currentShard = i from hr.2, ← ha] at hmem
  exact h.exists_event hmem

/-- **A system call is answered.**  If a shard makes a system call in the run and runs again,
then `syscall_dispatch` is called with the number and the arguments, and the shard is back
behind its SYSCALL with its stack, flags and kept registers, and with the result in RAX that the
run gives the call. -/
theorem call_answered {nr a0 a1 a2 tsc : UInt64} (h : Realises r T time)
    (hr : r.Resumes i n (m + 1) (.syscall nr a0 a1 a2 tsc)) :
    ∃ k k', time n ≤ k ∧ k < time (n + 1) ∧ time m ≤ k' ∧ k' < time (m + 1) ∧
      T.event k = .syscall (slot i) ∧ T.event k' = .sysret (slot i) ∧
      [Reg.rdi, .rsi, .rdx, .rcx].map (T.state (k + 1)).cpu.reg =
        [nr, a0, a1, a2].map UInt64.toBitVec ∧
      ComesBack (T.state k).cpu (T.state (k' + 1)).cpu ∧
      ∀ y, (r.event m).returned = some y →
        (T.state (k' + 1)).cpu.reg .rax = BitVec.ofNat 64 y.result := by
  obtain ⟨k, h1, h2, hk⟩ := h.entry_event hr.runs hr.acts (.inr trivial)
  have hvisit := (Step.of_syscall (hk ▸ (T.next k).step) (T.inv k)).1
  obtain ⟨k', h3, h4, h5, ⟨hk', -⟩ | ⟨-, hg⟩, hfirst⟩ := h.returns hr h1 h2 hvisit
  · obtain ⟨hargs, hback, hrax⟩ := T.syscall_returns hk hk' h3 hfirst
    refine ⟨k, k', h1, h2, h4, h5, hk, hk', hargs.trans ?_, hback, fun y hy => hrax.trans ?_⟩
    · exact (h.carries n k h1 h2).calls _ _ _ _ _ _ hk hr.acts
    · exact (h.carries m k' h4 h5).answers _ y hk' hy
  · cases hg

end Realises

theorem yieldRun_call_answered : ∃ (T : Trace shardStacks) (time : Nat → Nat) (k k' : Nat),
    Realises yieldRun T time ∧ T.event k = .syscall (slot 0) ∧ T.event k' = .sysret (slot 0) ∧
      (T.state (k + 1)).cpu.reg .rdi = 62#64 ∧
      ComesBack (T.state k).cpu (T.state (k' + 1)).cpu := by
  obtain ⟨T, time, h⟩ := exists_realisation shardStacks yieldRun
  obtain ⟨k, k', -, -, -, -, hk, hk', hargs, hback, -⟩ := h.call_answered yieldRun_resumes
  exact ⟨T, time, k, k', h, hk, hk', (List.cons.inj hargs).1, hback⟩

namespace Realises
variable {A : Addresses (Fin maxShards)} {T : Trace A} {time : Nat → Nat}

/-- **A preemption is undone.**  If the timer interrupts a shard in the run and it runs again,
then every register, the flags and the FXSAVE image are what they were at the interrupt. -/
theorem preemption_undone (h : Realises r T time) (hr : r.Resumes i n (m + 1) .timer) :
    ∃ k k', time n ≤ k ∧ k < time (n + 1) ∧ time m ≤ k' ∧ k' < time (m + 1) ∧
      T.event k = .timer (slot i) ∧ T.event k' = .iret (slot i) ∧
      (T.state (k' + 1)).cpu = { (T.state k).cpu with
        ds := userDs, es := userDs, mem := (T.state (k' + 1)).cpu.mem } := by
  obtain ⟨k, h1, h2, hk⟩ := h.entry_event hr.runs hr.acts (.inl rfl)
  have hvisit := Step.of_timer (hk ▸ (T.next k).step) (T.inv k)
  obtain ⟨k', h3, h4, h5, ⟨-, hg⟩ | ⟨hk', -⟩, hfirst⟩ := h.returns hr h1 h2 hvisit
  · cases hg
  · exact ⟨k, k', h1, h2, h4, h5, hk, hk', T.preempted_resumes hk hk' h3 hfirst⟩

end Realises

theorem preemptedRun_preemption_undone : ∃ (T : Trace shardStacks) (time : Nat → Nat) (k k' : Nat),
    Realises preemptedRun T time ∧ T.event k = .timer (slot 0) ∧ T.event k' = .iret (slot 0) ∧
      (T.state (k' + 1)).cpu.reg = (T.state k).cpu.reg := by
  obtain ⟨T, time, h⟩ := exists_realisation shardStacks preemptedRun
  obtain ⟨k, k', -, -, -, -, hk, hk', hcpu⟩ := h.preemption_undone preemptedRun_resumes
  exact ⟨T, time, k, k', h, hk, hk', by rw [hcpu]⟩

end

/-! ## The direction flag -/

section
variable {ι : Type} [DecidableEq ι] {A : Addresses ι} {s s' : State ι} {ev : Event ι}

end

end Coconut.Switching
