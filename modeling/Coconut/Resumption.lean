import Coconut.Threads

/-!
# What a shard finds when it is back in user mode

Runs of the threads of `Threads`, in any order and with any interrupts, in which no shard
enters the kernel with DF set.  However long a shard stays in the kernel, and whatever other
shards do meanwhile with the processor, with KERNEL_RSP and with USER_RSP:

* its call of `context_switch` returns as the compiler expects of a call, and so does the one of
  `run_loop` that chose it (`Trace.yield_returns`, `Trace.choice_returns`);
* a system call comes back with the user's stack pointer, instruction pointer, flags and kept
  registers (`Trace.syscall_returns`);
* a shard that the timer preempted comes back with all registers and its FXSAVE image
  (`Trace.preempted_resumes`).

That these runs carry out the runs of the system, and what they say about a shard there, is in
the module on the realisation.
-/
namespace Coconut.Switching
open Asm

section
variable {ι : Type}

/-- Before any shard is created. -/
structure Start (s : State ι) : Prop where
  sound : ¬ s.broken
  current : s.current = none
  started : s.started = false
  absent : ∀ j, s.thread j = .absent
  forward : s.cpu.backward = false

theorem Start.inv {A : Addresses ι} {s : State ι} (h : Start s) : Inv A s where
  sound := h.sound
  idle j _ := by
    rw [h.absent j]
    exact id
  tops j hj := absurd (h.current.symm.trans hj) (by simp)
  threads j := by
    rw [h.absent j]
    trivial
  supervisor hn := absurd h.current hn
  unstarted _ j := .inl (h.absent j)
  masked hst := absurd (h.started.symm.trans hst) (by simp)
  forward _ := h.forward

/-! ## What a step does to one thread -/

/-- The ways in which a step moves shard `i`; in all others it leaves it where it is. -/
inductive Turn (i : ι) (s s' : State ι) : Event ι → Prop
  | stay {ev : Event ι} (h : s'.thread i = s.thread i) : Turn i s s' ev
  | create (hst : s.started = false) (h' : s'.thread i = .fresh) : Turn i s s' (.create i)
  | first (h : s.thread i = .fresh) (h' : s'.thread i = .entering) : Turn i s s' (.first i)
  | enter (h : s.thread i = .entering) (h' : s'.thread i = .user) : Turn i s s' (.enter i)
  | syscall (h : s.thread i = .user) (h' : s'.thread i = .kernel ⟨.syscall, s.cpu, s'.cpu⟩) :
      Turn i s s' (.syscall i)
  | timer (h : s.thread i = .user) (h' : s'.thread i = .kernel ⟨.timer, s.cpu, s'.cpu⟩) :
      Turn i s s' (.timer i)
  | fault (h : s.thread i = .user) (h' : s'.thread i = .kernel ⟨.fault, s.cpu, s'.cpu⟩) :
      Turn i s s' (.fault i)
  | yield {v : Visit} (h : s.thread i = .kernel v) (h' : s'.thread i = .parked v s.cpu) :
      Turn i s s' (.yield i)
  | dispatch {v : Visit} {call : Processor} (h : s.thread i = .parked v call)
      (h' : s'.thread i = .kernel v) : Turn i s s' (.dispatch i)
  | exit {v : Visit} (h : s.thread i = .kernel v) (h' : s'.thread i = .absent) :
      Turn i s s' (.exit i)
  | sysret {v : Visit} (h : s.thread i = .kernel v) (hg : v.gate = .syscall)
      (h' : s'.thread i = .user) : Turn i s s' (.sysret i)
  | iret {v : Visit} (h : s.thread i = .kernel v) (hg : v.gate = .timer)
      (h' : s'.thread i = .user) : Turn i s s' (.iret i)

variable [DecidableEq ι] {A : Addresses ι} {s s' : State ι} {ev : Event ι}

/-- A step that sets the thread `j` moves no other. -/
theorem Turn.setThread {i j : ι} {r : State ι} {t : Thread} (hr : r.thread = s.thread)
    (h : (r.setThread j t).thread j = t → i = j → Turn i s (r.setThread j t) ev) :
    Turn i s (r.setThread j t) ev := by
  by_cases hij : i = j
  · exact h (State.setThread_self _ _ _) hij
  · exact .stay ((State.setThread_of_ne _ hij _).trans (congrFun hr i))

theorem Step.turn (hs : Step A ev s s') (hb : ¬ s.broken) (i : ι) : Turn i s s' ev := by
  cases hs with
  | sti | supervisor | entering | user | kernel => exact .stay rfl
  | create _ hst _ => exact .setThread rfl (by rintro h' rfl; exact .create hst h')
  | dispatch _ hi => exact .setThread rfl (by rintro h' rfl; exact .dispatch hi h')
  | first _ hi => exact .setThread rfl (by rintro h' rfl; exact .first hi h')
  | enter _ hi => exact .setThread rfl (by rintro h' rfl; exact .enter hi h')
  | syscall _ hi => exact .setThread rfl (by rintro h' rfl; exact .syscall hi h')
  | timer _ hi => exact .setThread rfl (by rintro h' rfl; exact .timer hi h')
  | fault _ hi => exact .setThread rfl (by rintro h' rfl; exact .fault hi h')
  | yield _ hi => exact .setThread rfl (by rintro h' rfl; exact .yield hi h')
  | exit _ hi => exact .setThread rfl (by rintro h' rfl; exact .exit hi h')
  | sysret _ hi hg => exact .setThread rfl (by rintro h' rfl; exact .sysret hi hg h')
  | iret _ hi hg => exact .setThread rfl (by rintro h' rfl; exact .iret hi hg h')
  | wild h => exact absurd h hb

theorem Step.started (hs : Step A ev s s') (hb : ¬ s.broken) (h : s.started = true) :
    s'.started = true := by
  cases hs with
  | dispatch | first => rfl
  | create | sti | supervisor | entering | enter | user | syscall | timer | fault | kernel | yield
  | exit | sysret | iret => exact h
  | wild hw => exact absurd hw hb

/-- Which call of the supervisor is waiting to return. -/
theorem Step.waiting (hs : Step A ev s s') (hb : ¬ s.broken) :
    s'.supervisor = s.supervisor ∨ s.current = none := by
  cases hs with
  | dispatch hcur | first hcur => exact .inr hcur
  | create | sti | supervisor | entering | enter | user | syscall | timer | fault | kernel | yield
  | exit | sysret | iret => exact .inl rfl
  | wild hw => exact absurd hw hb

/-- A shard has the processor until it lets go. -/
theorem Step.lets_go (hs : Step A ev s s') (hb : ¬ s.broken) (hcur : s.current ≠ none) :
    s'.current ≠ none ∨ ∃ i, ev = .yield i ∨ ev = .exit i := by
  cases hs with
  | dispatch | first => exact .inl (by simp [State.setThread])
  | @yield _ i => exact .inr ⟨i, .inl rfl⟩
  | @exit _ i => exact .inr ⟨i, .inr rfl⟩
  | create | sti | supervisor | entering | enter | user | syscall | timer | fault | kernel
  | sysret | iret => exact .inl hcur
  | wild hw => exact absurd hw hb

/-! ## What the steps between user, kernel and supervisor do -/

/-- `d` is the user state behind a system call that was made in the state `c`. -/
structure ComesBack (c d : Processor) : Prop where
  rip : d.rip = c.rip
  rflags : d.rflags = c.rflags
  cs : d.cs = c.cs
  ss : d.ss = c.ss
  kept : ∀ r ∈ .rsp :: calleeSaved, d.reg r = c.reg r

section Ends
variable {i : ι}

theorem Move.of_yield (hm : Move A (.yield i) s s') (h : Inv A s) :
    (∃ v, s'.thread i = .parked v s.cpu) ∧ Returned A.supervisorTop s.supervisor s'.cpu := by
  have hb := (h.step hm).sound
  cases hm.step with
  | yield => exact ⟨⟨_, State.setThread_self _ _ _⟩, not_not.mp hb⟩
  | wild hw => exact absurd hw h.sound

theorem Move.of_exit (hm : Move A (.exit i) s s') (h : Inv A s) :
    Returned A.supervisorTop s.supervisor s'.cpu := by
  have hb := (h.step hm).sound
  cases hm.step with
  | exit => exact not_not.mp hb
  | wild hw => exact absurd hw h.sound

theorem Move.of_dispatch (hm : Move A (.dispatch i) s s') (h : Inv A s) :
    s'.supervisor = s.cpu ∧ s'.current = some i ∧
      ∃ v call, s.thread i = .parked v call ∧ Returned (top A i) call s'.cpu := by
  have hb := (h.step hm).sound
  cases hm.step with
  | dispatch _ hi => exact ⟨rfl, rfl, _, _, hi, not_not.mp hb⟩
  | wild hw => exact absurd hw h.sound

theorem Step.of_first (hs : Step A (.first i) s s') (h : Inv A s) :
    s'.supervisor = s.cpu ∧ s'.current = some i := by
  cases hs with
  | first => exact ⟨rfl, rfl⟩
  | wild hw => exact absurd hw h.sound

theorem Step.of_syscall (hs : Step A (.syscall i) s s') (h : Inv A s) :
    s'.thread i = .kernel ⟨.syscall, s.cpu, s'.cpu⟩ ∧
      [Reg.rdi, .rsi, .rdx, .rcx].map s'.cpu.reg = [Reg.rax, .rdi, .rsi, .rdx].map s.cpu.reg := by
  cases hs with
  | syscall hcur _ hrun =>
    have hexec := hrun.eq_exec irq_interruptible (syscall_interruptible _ _)
    obtain ⟨e, he, -, -, -, hargs, -⟩ := syscall_entry (h.tops i hcur).1
    refine ⟨State.setThread_self _ _ _, ?_⟩
    rw [← hargs, ← he, ← hexec]
    rfl
  | wild hw => exact absurd hw h.sound

theorem Step.of_timer (hs : Step A (.timer i) s s') (h : Inv A s) :
    s'.thread i = .kernel ⟨.timer, s.cpu, s'.cpu⟩ := by
  cases hs with
  | timer => exact State.setThread_self _ _ _
  | wild hw => exact absurd hw h.sound

theorem Step.of_sysret (hs : Step A (.sysret i) s s') (h : Inv A s) :
    ∃ v, s.thread i = .kernel v ∧ v.gate = .syscall ∧ ComesBack v.user s'.cpu ∧
      s'.cpu.reg .rax = s.cpu.reg .rax := by
  cases hs with
  | sysret hcur hi hgate hrsp hrun =>
    have hok := h.threads i
    rw [hi] at hok
    obtain ⟨hv, hif, -⟩ := hok
    obtain ⟨-, hrip, hflags, hrsp', hkept, hrax, -⟩ := sysret_user hv hif hgate hrsp hrun
    refine ⟨_, hi, hgate, ⟨hrip, hflags, (sysretq_cs _).trans hv.cs.symm,
      (sysretq_ss _).trans hv.ss.symm, ?_⟩, hrax⟩
    rintro r (_ | ⟨_, hr⟩)
    · exact hrsp'
    · exact hkept r hr
  | wild hw => exact absurd hw h.sound

theorem Step.of_iret (hs : Step A (.iret i) s s') (h : Inv A s) :
    ∃ v, s.thread i = .kernel v ∧ v.gate = .timer ∧
      s'.cpu = { v.user with ds := userDs, es := userDs, mem := s'.cpu.mem } := by
  cases hs with
  | @iret _ _ v d hcur hi hgate hrsp hkept hrun =>
    have hok := h.threads i
    rw [hi] at hok
    obtain ⟨-, huser⟩ := iret_user hok.1 hok.2.1 hgate hrsp hkept hrun
    refine ⟨v, hi, hgate, ?_⟩
    change d.iretq = { v.user with ds := userDs, es := userDs, mem := d.iretq.mem }
    rw [huser]
  | wild hw => exact absurd hw h.sound

end Ends

/-! ## Runs -/

structure Trace (A : Addresses ι) where
  state : Nat → State ι
  event : Nat → Event ι
  start : Start (state 0)
  next : ∀ n, Move A (event n) (state n) (state (n + 1))

namespace Trace
variable (T : Trace A) {n m : Nat} {i : ι}

theorem inv (n : Nat) : Inv A (T.state n) := by
  induction n with
  | zero => exact T.start.inv
  | succ n ih => exact ih.step (T.next n)

theorem turn (n : Nat) (i : ι) : Turn i (T.state n) (T.state (n + 1)) (T.event n) :=
  (T.next n).step.turn (T.inv n).sound i

/-- A shard that is not absent or fresh has been chosen, and so `run_loop` has begun. -/
theorem started_of (h1 : (T.state n).thread i ≠ .absent) (h2 : (T.state n).thread i ≠ .fresh) :
    (T.state n).started = true := by
  by_contra hst
  exact ((T.inv n).unstarted (Bool.eq_false_iff.mpr hst) i).elim h1 h2

/-- Shard `i` is in the kernel, on the visit `v`. -/
def Visiting (n : Nat) (i : ι) (v : Visit) : Prop :=
  (T.state n).thread i = .kernel v ∨ ∃ call, (T.state n).thread i = .parked v call

/-- A visit lasts until the return that belongs to it, unless the shard is ended. -/
theorem visiting_of_le {v : Visit} (hv : T.Visiting n i v) (hnm : n ≤ m)
    (hno : ∀ k, n ≤ k → k < m → T.event k ≠ .sysret i ∧ T.event k ≠ .iret i) :
    (T.state m).started = true ∧ (T.Visiting m i v ∨ (T.state m).thread i = .absent) := by
  induction m, hnm using Nat.le_induction with
  | base =>
    refine ⟨T.started_of (i := i) (fun h => ?_) fun h => ?_, .inl hv⟩ <;>
      obtain hv | ⟨call, hv⟩ := hv <;> cases hv.symm.trans h
  | succ m hm ih =>
    obtain ⟨hst, ih⟩ := ih fun k h1 h2 => hno k h1 (by omega)
    obtain ⟨hno1, hno2⟩ := hno m hm (by omega)
    refine ⟨(T.next m).step.started (T.inv m).sound hst, ?_⟩
    have ht := T.turn m i
    generalize T.event m = ev at ht hno1 hno2
    cases ht with
    | stay h => exact ih.imp (fun hv => by unfold Visiting at hv ⊢; rwa [h]) fun ha => h.trans ha
    | create hst' _ => exact absurd (hst.symm.trans hst') (by simp)
    | exit _ h' => exact .inr h'
    | sysret _ _ _ => exact absurd rfl hno1
    | iret _ _ _ => exact absurd rfl hno2
    | yield h h' =>
      rcases ih with (hv | ⟨call, hv⟩) | ha
      · cases hv.symm.trans h
        exact .inl (.inr ⟨_, h'⟩)
      · cases hv.symm.trans h
      · cases ha.symm.trans h
    | dispatch h h' =>
      rcases ih with (hv | ⟨call, hv⟩) | ha
      · cases hv.symm.trans h
      · cases hv.symm.trans h
        exact .inl (.inl h')
      · cases ha.symm.trans h
    | first h _ | enter h _ | syscall h _ | timer h _ | fault h _ =>
      rcases ih with (hv | ⟨call, hv⟩) | ha
      · cases hv.symm.trans h
      · cases hv.symm.trans h
      · cases ha.symm.trans h

/-- The next return to user mode of a shard in the kernel belongs to the visit it is on. -/
theorem visit_eq {v w : Visit} (hv : T.Visiting n i v) (hnm : n ≤ m)
    (hno : ∀ k, n ≤ k → k < m → T.event k ≠ .sysret i ∧ T.event k ≠ .iret i)
    (hw : (T.state m).thread i = .kernel w) : w = v := by
  obtain ⟨-, (h | ⟨call, h⟩) | h⟩ := T.visiting_of_le hv hnm hno
  · cases h.symm.trans hw
    rfl
  · cases h.symm.trans hw
  · cases h.symm.trans hw

/-- A call of `context_switch` stays pending until its shard is chosen again. -/
theorem parked_of_le {v : Visit} {call : Processor} (hp : (T.state n).thread i = .parked v call)
    (hnm : n ≤ m) (hno : ∀ k, n ≤ k → k < m → T.event k ≠ .dispatch i) :
    (T.state m).thread i = .parked v call := by
  induction m, hnm using Nat.le_induction with
  | base => exact hp
  | succ m hm ih =>
    have ih := ih fun k h1 h2 => hno k h1 (by omega)
    have hne := hno m hm (by omega)
    have ht := T.turn m i
    generalize T.event m = ev at ht hne
    cases ht with
    | stay h => exact h.trans ih
    | dispatch _ _ => exact absurd rfl hne
    | create hst' _ =>
      have hst := T.started_of (n := m) (i := i) (by simp [ih]) (by simp [ih])
      exact absurd (hst.symm.trans hst') (by simp)
    | first h _ | enter h _ | syscall h _ | timer h _ | fault h _ | yield h _ | exit h _
    | sysret h _ _ | iret h _ _ => cases ih.symm.trans h

/-- So does the supervisor's, until a shard lets go. -/
theorem supervisor_of_le {c : Processor} (hs : (T.state n).supervisor = c)
    (hcur : (T.state n).current ≠ none) (hnm : n ≤ m)
    (hno : ∀ k j, n ≤ k → k < m → T.event k ≠ .yield j ∧ T.event k ≠ .exit j) :
    (T.state m).supervisor = c ∧ (T.state m).current ≠ none := by
  induction m, hnm using Nat.le_induction with
  | base => exact ⟨hs, hcur⟩
  | succ m hm ih =>
    obtain ⟨hsup, hcur⟩ := ih fun k j h1 h2 => hno k j h1 (by omega)
    have hb := (T.inv m).sound
    constructor
    · exact ((T.next m).step.waiting hb).elim (fun h => h.trans hsup) fun h => absurd h hcur
    · rcases (T.next m).step.lets_go hb hcur with h | ⟨j, h⟩
      · exact h
      · obtain ⟨h1, h2⟩ := hno m j hm (by omega)
        exact (h.elim h1 h2).elim

/-- The call of `context_switch` with which a shard lets go returns to it as the compiler expects
of a call, when the shard is chosen again. -/
theorem yield_returns (hn : T.event n = .yield i) (hm : T.event m = .dispatch i) (hnm : n < m)
    (hfirst : ∀ k, n < k → k < m → T.event k ≠ .dispatch i) :
    Returned (top A i) (T.state n).cpu (T.state (m + 1)).cpu := by
  obtain ⟨v, hp⟩ := (Move.of_yield (hn ▸ T.next n) (T.inv n)).1
  obtain ⟨-, -, w, call, hw, hret⟩ := Move.of_dispatch (hm ▸ T.next m) (T.inv m)
  cases (T.parked_of_le hp hnm fun k h1 h2 => hfirst k h1 h2).symm.trans hw
  exact hret

theorem chosen (hn : T.event n = .dispatch i ∨ T.event n = .first i) :
    (T.state (n + 1)).supervisor = (T.state n).cpu ∧ (T.state (n + 1)).current ≠ none := by
  have h : (T.state (n + 1)).supervisor = (T.state n).cpu ∧ (T.state (n + 1)).current = some i := by
    rcases hn with hn | hn
    · obtain ⟨h1, h2, -⟩ := Move.of_dispatch (hn ▸ T.next n) (T.inv n)
      exact ⟨h1, h2⟩
    · exact Step.of_first (hn ▸ (T.next n).step) (T.inv n)
  exact ⟨h.1, by rw [h.2]; exact Option.some_ne_none i⟩

/-- The call with which `run_loop` chooses a shard returns to it likewise, when that shard lets
go. -/
theorem choice_returns {j : ι} (hn : T.event n = .dispatch i ∨ T.event n = .first i)
    (hm : T.event m = .yield j ∨ T.event m = .exit j) (hnm : n < m)
    (hfirst : ∀ k j, n < k → k < m → T.event k ≠ .yield j ∧ T.event k ≠ .exit j) :
    Returned A.supervisorTop (T.state n).cpu (T.state (m + 1)).cpu := by
  obtain ⟨hsup, hcur⟩ := T.chosen hn
  have hsup := (T.supervisor_of_le hsup hcur hnm fun k j h1 h2 => hfirst k j h1 h2).1
  rw [← hsup]
  rcases hm with hm | hm
  · exact (Move.of_yield (hm ▸ T.next m) (T.inv m)).2
  · exact Move.of_exit (hm ▸ T.next m) (T.inv m)

/-- A system call is answered: whatever ran in between, the user is back behind its SYSCALL, on
its stack, with its flags and the registers a function keeps, and RAX is what
`syscall_dispatch` returned, which was called with the number and the arguments. -/
theorem syscall_returns (hn : T.event n = .syscall i) (hm : T.event m = .sysret i) (hnm : n < m)
    (hfirst : ∀ k, n < k → k < m → T.event k ≠ .sysret i ∧ T.event k ≠ .iret i) :
    [Reg.rdi, .rsi, .rdx, .rcx].map (T.state (n + 1)).cpu.reg =
        [Reg.rax, .rdi, .rsi, .rdx].map (T.state n).cpu.reg ∧
      ComesBack (T.state n).cpu (T.state (m + 1)).cpu ∧
      (T.state (m + 1)).cpu.reg .rax = (T.state m).cpu.reg .rax := by
  obtain ⟨hvisit, hargs⟩ := Step.of_syscall (hn ▸ (T.next n).step) (T.inv n)
  obtain ⟨v, hv, -, hback⟩ := Step.of_sysret (hm ▸ (T.next m).step) (T.inv m)
  cases T.visit_eq (.inl hvisit) hnm (fun k h1 h2 => hfirst k h1 h2) hv
  exact ⟨hargs, hback⟩

/-- A shard that the timer interrupted goes on as if nothing had happened: every register, its
flags and its FXSAVE image are what they were, and DS and ES are the user's. -/
theorem preempted_resumes (hn : T.event n = .timer i) (hm : T.event m = .iret i) (hnm : n < m)
    (hfirst : ∀ k, n < k → k < m → T.event k ≠ .sysret i ∧ T.event k ≠ .iret i) :
    (T.state (m + 1)).cpu = { (T.state n).cpu with
      ds := userDs, es := userDs, mem := (T.state (m + 1)).cpu.mem } := by
  have hvisit := Step.of_timer (hn ▸ (T.next n).step) (T.inv n)
  obtain ⟨v, hv, -, hback⟩ := Step.of_iret (hm ▸ (T.next m).step) (T.inv m)
  cases T.visit_eq (.inl hvisit) hnm (fun k h1 h2 => hfirst k h1 h2) hv
  exact hback

end Trace
end
end Coconut.Switching
