import Coconut.Files
import Coconut.Replay

/-!
# Exceptions in user mode

The interrupt descriptor table as `idt::init` fills it, with the handlers it points to.
#GP and #PF look at the privilege level of the interrupted code and kill the shard if it
was user code; every other exception goes to the common handler, which halts.

The result is the exact condition under which a fault is contained
(`fault_contained_iff`): it is a #GP or a #PF, and a remaining shard is ready or none is
left.  If all the others wait in a receive, the run loop panics on its next round.
-/
namespace Coconut

/-! ## The interrupt descriptor table -/

/-- The handlers of `IDT`. -/
inductive Isr where
  | stub0 | stub8 | gpf | stub14 | timer | stubDefault

/-- `IDT[vector]` after `init`. -/
def idtEntry (vector : Nat) : Isr :=
  if vector = 0 then .stub0
  else if vector = 8 then .stub8
  else if vector = 13 then .gpf
  else if vector = 14 then .stub14
  else if vector = 32 then .timer
  else .stubDefault

/-- `fault_common`: report and halt. -/
def faultCommon (vector : Nat) : Kernel Sys :=
  .error (if vector = 14 then .kernelPageFault else .unhandledException)

/-- A handler, entered from code with the segment selector `cs`. -/
def Isr.run (s : Sys) (cs : Nat) : Isr → Kernel Sys
  | .stub0 => faultCommon 0
  | .stub8 => faultCommon 8
  | .gpf => if cs % 4 ≠ 0 then handleSysExit s u64Max else faultCommon 13
  | .stub14 => if cs % 4 ≠ 0 then handleSysExit s u64Max else faultCommon 14
  | .timer => if cs % 4 ≠ 0 then timerPreempt s else .ok s
  | .stubDefault => faultCommon 255

/-- `USER_CS`. -/
@[simp] def userCs : Nat := 0x23

/-- A fault in user mode is what the table makes of it. -/
theorem userFault_eq_idt (s : Sys) {vector : Nat} (h : vector < 32) :
    userFault s vector = (idtEntry vector).run s userCs := by
  unfold userFault idtEntry
  split_ifs with h1 h2 h3 h4 h5 <;> first | rfl | omega

/-! ## The next round of the run loop -/

theorem destroyAll_total {n : Nat} : ∀ {i : Nat} (s : Sys), i + n ≤ maxShards →
    ∃ s', destroyAll n i s = .ok s' := by
  induction n with
  | zero => exact fun s _ => ⟨s, rfl⟩
  | succ n ih =>
    intro i s hle
    have hi : i < maxShards := by omega
    unfold destroyAll
    rw [Sys.shard_of_lt hi, Kernel.ok_bind]
    by_cases hexited : (s.shards.getD i ShardDescriptor.initial).state = .exited
    · obtain ⟨s', hs'⟩ := ih (i := i + 1) (destroyed s i) (by omega)
      refine ⟨s', ?_⟩
      rw [if_pos (beq_iff_eq.mpr hexited), destroy_of_exited hi hexited]
      exact hs'
    · obtain ⟨s', hs'⟩ := ih (i := i + 1) s (by omega)
      refine ⟨s', ?_⟩
      rw [if_neg fun hc => hexited (beq_iff_eq.mp hc)]
      exact hs'

theorem allDone_of_not_live {s : Sys} (h : ∀ i, (s.desc i).state.isLive = false) :
    allDone s.shards = true :=
  Option.isNone_iff_eq_none.mpr (firstFrom_eq_none.mpr fun i _ _ => h i)

namespace Run
variable (r : Run) {t : Nat}

/-- The shard that is picked is switched to. -/
theorem schedule_of_picked {i : Nat} (hm : (r.state t).mode = .choosing)
    (hpick : pickNextReady (r.state t).shards (r.state t).lastScheduled = some i) :
    ∃ s' ev, step (r.state t) .schedule = .ok (s', ev) := by
  have hready : ((r.state t).desc i).state = .ready :=
    Control.pick_ready (r.control_inv t).last_lt hpick
  have hi : i < maxShards := by
    apply Nat.lt_of_not_le
    intro hge
    rw [Sys.desc_of_ge hge] at hready
    cases hready
  cases hctx : ((r.state t).desc i).savedContext with
  | channelRecv ch ep buf maxLen =>
    obtain ⟨s', n, hstep, -⟩ := r.resumes hpick hm hctx
    exact ⟨s', _, hstep⟩
  | firstEntry | timerPreempt | sysYield =>
    change ∃ s' ev, schedule (r.state t) = .ok (s', ev)
    unfold schedule
    rw [hpick]
    simp only
    rw [Sys.shard_of_lt hi, Kernel.ok_bind]
    change ∃ s' ev, resume (switched (r.state t) i) i ((r.state t).desc i).savedContext = .ok (s', ev)
    rw [hctx]
    exact ⟨_, _, rfl⟩

/-- The run loop goes on exactly when a shard is ready, or no shard is left. -/
theorem schedule_iff (hm : (r.state t).mode = .choosing) :
    (∃ s' ev, step (r.state t) .schedule = .ok (s', ev)) ↔
      (∃ i, ((r.state t).desc i).state = .ready) ∨ ∀ i, ((r.state t).desc i).state.isLive = false := by
  cases hpick : pickNextReady (r.state t).shards (r.state t).lastScheduled with
  | some i =>
    exact iff_of_true (r.schedule_of_picked hm hpick)
      (Or.inl ⟨i, Control.pick_ready (r.control_inv t).last_lt hpick⟩)
  | none =>
    have hnone := (r.control_inv t).schedulingOk.complete hpick
    rw [or_iff_right fun ⟨i, hi⟩ => hnone i hi]
    change (∃ s' ev, schedule (r.state t) = .ok (s', ev)) ↔ _
    constructor
    · rintro ⟨s', ev, hstep⟩ i
      cases schedule_effect hstep with
      | halt _ done => exact allDone_eq_true done i
      | select picked | selectRecv picked | selectRecvEmpty picked =>
        rw [hpick] at picked
        cases picked
      | kill _ user => cases user
    · intro hdead
      obtain ⟨s', hs'⟩ := destroyAll_total (n := maxShards) (i := 0) (r.state t) (Nat.le_refl _)
      refine ⟨{ s' with mode := .halted }, Event.none, ?_⟩
      unfold schedule
      rw [hpick]
      simp only
      rw [if_pos (allDone_of_not_live hdead), hs']
      rfl

end Run

/-! ## Containment -/

/-- Shard `A` has been killed in `s`, and nothing else has happened. -/
structure Killed (s s' : Sys) (A : Nat) : Prop where
  exited : (s'.desc A).state = .exited
  released : ∀ fd, ¬ s'.Owns A fd
  descriptors : ∀ i, i ≠ A → s'.desc i = s.desc i
  ram : s'.ram = s.ram
  files : ∀ fd, ¬ s.Owns A fd → s'.file fd = s.file fd
  channels : s'.channels = s.channels
  choosing : s'.mode = .choosing

theorem killed_exited {s : Sys} (hi : s.currentShard < maxShards) (exitCode : Nat) :
    Killed s (exited s exitCode) s.currentShard := by
  have hdesc : ∀ i, (exited s exitCode).desc i =
      if i = s.currentShard then { s.current with exitCode, state := .exited } else s.desc i :=
    Sys.desc_modifyShard s hi fun d => { d with exitCode, state := .exited }
  refine ⟨?_, fun fd howns => ?_, fun i hne => ?_, rfl, fun fd hne => ?_, rfl, rfl⟩
  · rw [hdesc, if_pos rfl]
  · unfold Sys.Owns at howns
    rw [file_exited] at howns
    split at howns
    · cases howns.1
    · rename_i hnot
      exact hnot howns
  · rw [hdesc, if_neg hne]
  · rw [file_exited, if_neg hne]

/-- A fault is contained: the faulting shard is killed, and the run loop goes on.  That it goes
on means its next round: it picks a ready shard, or it finds all shards ended and halts.  A
deadlock of the remaining shards in a later round, after another of them has ended, is not
counted. -/
def FaultContained (s : Sys) (vector : Nat) : Prop :=
  ∃ s', step s (.fault vector) = .ok (s', Event.none) ∧ Killed s s' s.currentShard ∧
    ∃ s'' ev, step s' .schedule = .ok (s'', ev)

/-- Some other shard is ready, or no other shard is left. -/
def RemainderRuns (s : Sys) : Prop :=
  (∃ i, i ≠ s.currentShard ∧ (s.desc i).state = .ready) ∨
    ∀ i, i ≠ s.currentShard → (s.desc i).state.isLive = false

theorem Killed.remainderRuns {s s' : Sys} (h : Killed s s' s.currentShard) :
    ((∃ i, (s'.desc i).state = .ready) ∨ ∀ i, (s'.desc i).state.isLive = false) ↔ RemainderRuns s := by
  constructor
  · rintro (⟨i, hready⟩ | hdead)
    · have hne : i ≠ s.currentShard := by
        rintro rfl
        rw [h.exited] at hready
        cases hready
      rw [h.descriptors i hne] at hready
      exact Or.inl ⟨i, hne, hready⟩
    · refine Or.inr fun i hne => ?_
      rw [← h.descriptors i hne]
      exact hdead i
  · rintro (⟨i, hne, hready⟩ | hdead)
    · rw [← h.descriptors i hne] at hready
      exact Or.inl ⟨i, hready⟩
    · refine Or.inr fun i => ?_
      by_cases hi : i = s.currentShard
      · rw [hi, h.exited]
        rfl
      · rw [h.descriptors i hi]
        exact hdead i hi

theorem step_fault {s : Sys} {vector : Nat} (hi : s.currentShard < maxShards)
    (hv : vector = 13 ∨ vector = 14) :
    step s (.fault vector) = .ok (exited s u64Max, Event.none) := by
  change (userFault s vector).map _ = _
  unfold userFault handleSysExit
  rw [if_pos hv]
  simp only
  rw [show Sys.shard _ s.currentShard = _ from Sys.shard_of_lt hi]
  rfl

/-- The other exceptions halt the supervisor. -/
theorem step_fault_error {s : Sys} {vector : Nat} (hv : ¬ (vector = 13 ∨ vector = 14)) :
    step s (.fault vector) = .error .unhandledException := by
  change (userFault s vector).map _ = _
  unfold userFault
  rw [if_neg hv]
  rfl

/-- **Fault containment** holds for #GP and #PF, as long as the remaining shards do not
all wait. -/
theorem Run.fault_contained_iff (r : Run) (n : Nat) (hm : (r.state n).mode = .user) (vector : Nat) :
    FaultContained (r.state n) vector ↔
      (vector = 13 ∨ vector = 14) ∧ RemainderRuns (r.state n) := by
  by_cases hv : vector = 13 ∨ vector = 14
  · have hi := ((r.control_inv n).user hm).1
    have hstep := step_fault hi hv
    have hkilled := killed_exited hi u64Max
    -- the round after the fault is one of the run that takes the fault at time `n`
    let b := r.branch n (a := .fault vector) ⟨hm.symm, hstep⟩
    have hstate : b.state (n + 1) = exited (r.state n) u64Max := r.branch_state n _
    have hnext := b.schedule_iff (t := n + 1) (by rw [hstate]; rfl)
    rw [hstate, hkilled.remainderRuns] at hnext
    rw [and_iff_right hv, ← hnext]
    constructor
    · rintro ⟨s', hs', -, hgoes⟩
      obtain ⟨rfl, -⟩ := Prod.mk.inj (Except.ok.inj (hstep.symm.trans hs'))
      exact hgoes
    · exact fun hgoes => ⟨_, hstep, hkilled, hgoes⟩
  · refine iff_of_false ?_ fun h => hv h.1
    rintro ⟨s', hs', -⟩
    rw [step_fault_error hv] at hs'
    cases hs'

/-! ## A shard alone, one beside another, and one that another waits for -/

/-- The only shard runs in user mode. -/
def aloneRun : Run := plainRun [.create emptyImage .normal] oneShard_isSome [.schedule]

set_option maxRecDepth 100000 in
theorem aloneRun_mode : (aloneRun.state 1).mode = .user := by decide +kernel

set_option maxRecDepth 100000 in
theorem twoShards_isSome :
    (bootAll plainSys [.create emptyImage .normal, .create emptyImage .normal]).isSome = true := by
  decide +kernel

/-- One of two shards runs in user mode. -/
def besideRun : Run :=
  plainRun [.create emptyImage .normal, .create emptyImage .normal] twoShards_isSome [.schedule]

set_option maxRecDepth 100000 in
/-- While the other shard is ready, a page fault of the running one is contained. -/
theorem besideRun_contained : (besideRun.state 1).mode = .user ∧
    (besideRun.state 1).currentShard = 1 ∧ ((besideRun.state 1).desc 0).state = .ready ∧
    FaultContained (besideRun.state 1) 14 := by
  have hmode : (besideRun.state 1).mode = .user := by decide +kernel
  have hcurrent : (besideRun.state 1).currentShard = 1 := by decide +kernel
  have hready : ((besideRun.state 1).desc 0).state = .ready := by decide +kernel
  have hother : RemainderRuns (besideRun.state 1) := Or.inl ⟨0, by rw [hcurrent]; decide, hready⟩
  exact ⟨hmode, hcurrent, hready,
    (besideRun.fault_contained_iff 1 hmode 14).mpr ⟨Or.inr rfl, hother⟩⟩

set_option maxRecDepth 100000 in
/-- Shard 1 waits for a message of shard 0, which runs in user mode. -/
def awaitedRun : Run :=
  plainRun [.create emptyImage .normal, .create emptyImage .normal, .channelInit 0 0 1,
      .grant 1 1 0 rightChannelRecv] (by decide +kernel)
    [.schedule, .syscall 22 0 0x7FF000 1 0, .schedule]

set_option maxRecDepth 100000 in
theorem awaitedRun_deadlock :
    step (exited (awaitedRun.state 3) u64Max) .schedule = .error .deadlock := by
  apply Kernel.eq_error_of_panic
  decide +kernel

set_option maxRecDepth 100000 in
/-- **A division by zero halts the supervisor, and so does a page fault of a shard that the
others wait for**: the next round of the run loop panics. -/
theorem faults_escape :
    (aloneRun.state 1).mode = .user ∧ (awaitedRun.state 3).mode = .user ∧
    step (aloneRun.state 1) (.fault 0) = .error .unhandledException ∧
    (∃ s', step (awaitedRun.state 3) (.fault 14) = .ok (s', Event.none) ∧
      step s' .schedule = .error .deadlock) ∧
    ¬ FaultContained (aloneRun.state 1) 0 ∧ ¬ FaultContained (awaitedRun.state 3) 14 := by
  have halt : step (aloneRun.state 1) (.fault 0) = .error .unhandledException :=
    step_fault_error (by decide)
  have kill := @step_fault (awaitedRun.state 3) 14 (by decide +kernel) (Or.inr rfl)
  refine ⟨aloneRun_mode, by decide +kernel, halt, ⟨_, kill, awaitedRun_deadlock⟩, ?_, ?_⟩
  · rintro ⟨s', hs', -⟩
    rw [halt] at hs'
    cases hs'
  · rintro ⟨s', hs', -, s'', ev, hgoes⟩
    obtain ⟨rfl, -⟩ := Prod.mk.inj (Except.ok.inj (kill.symm.trans hs'))
    rw [awaitedRun_deadlock] at hgoes
    cases hgoes

end Coconut
