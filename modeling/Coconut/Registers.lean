import Coconut.Fairness
import Coconut.Files

/-!
# Floating-point, SSE and debug registers

The supervisor is built without SSE and never computes with these registers.  It writes
them at two places only: `run_loop` clears them before every switch, and the timer
interrupt saves the x87 and SSE image of the shard it preempts and loads it again when
that shard goes on.  A shard that is entered for the first time, or that waited inside a
syscall, gets what `clear_sensitive_cpu_state` has left.

`RegState` is the register file with the saved images, and runs beside the system: what
the supervisor does to it is decided by the system's state and action, what user code
leaves in it is arbitrary.
-/
namespace Coconut

/-- What FXSAVE stores and FXRSTOR loads. -/
structure FxImage where
  control : BitVec 16
  status : BitVec 16
  tag : BitVec 16
  /-- The physical data registers R0–R7, whose low 64 bits are the MMX registers.  ST(i) is
  counted from the top of the stack, so a change of TOP renames them and FNINIT, which
  resets it, moves none of them. -/
  st : Fin 8 → BitVec 80
  mxcsr : BitVec 32
  xmm : Fin 16 → BitVec 128

/-- The SSE part of an image. -/
def FxImage.sse (x : FxImage) : (Fin 16 → BitVec 128) × BitVec 32 := (x.xmm, x.mxcsr)

/-- The registers that `clear_sensitive_cpu_state` is about. -/
structure Cpu where
  fx : FxImage
  /-- DR0–DR3. -/
  dr : Fin 4 → BitVec 64
  dr7 : BitVec 64

/-- FNINIT resets the three words and leaves the data registers. -/
def fninit (x : FxImage) : FxImage :=
  { x with control := 0x37F#16, status := 0#16, tag := 0xFFFF#16 }

/-- XMM0–XMM15 and MXCSR after `clear_sensitive_cpu_state`. -/
def clearedSse : (Fin 16 → BitVec 128) × BitVec 32 := (fun _ => 0#128, 0x1F80#32)

/-- FNINIT, zeros in all XMM registers, the default MXCSR, no breakpoints. -/
def clearSensitiveCpuState (cpu : Cpu) : Cpu where
  fx := { fninit cpu.fx with xmm := clearedSse.1, mxcsr := clearedSse.2 }
  dr := fun _ => 0#64
  dr7 := 0x400#64

/-- The data registers are all that survives the clearing. -/
theorem clearSensitiveCpuState_congr {cpu cpu' : Cpu} :
    clearSensitiveCpuState cpu = clearSensitiveCpuState cpu' ↔ cpu.fx.st = cpu'.fx.st := by
  constructor
  · intro h
    have hst := congrArg (fun c : Cpu => c.fx.st) h
    exact hst
  · intro h
    unfold clearSensitiveCpuState fninit
    rw [h]

structure RegState where
  cpu : Cpu
  /-- The FXSAVE areas on the kernel stacks. -/
  saved : Nat → FxImage

/-- FXSAVE in the timer interrupt, onto the kernel stack of shard `id`. -/
def RegState.fxsave (x : RegState) (id : Nat) : RegState :=
  { x with saved := fun i => if i = id then x.cpu.fx else x.saved i }

/-- What `run_loop` and the code after its switch do: clear, and FXRSTOR if shard `id`
continues in the timer interrupt. -/
def RegState.enter (x : RegState) (id : Nat) (context : SavedContext) : RegState :=
  match context with
  | .timerPreempt => { x with cpu := { clearSensitiveCpuState x.cpu with fx := x.saved id } }
  | .firstEntry | .sysYield | .channelRecv .. => { x with cpu := clearSensitiveCpuState x.cpu }

theorem RegState.enter_of_ne {x : RegState} {id : Nat} {context : SavedContext}
    (h : context ≠ .timerPreempt) :
    x.enter id context = { x with cpu := clearSensitiveCpuState x.cpu } := by
  cases context with
  | timerPreempt => exact absurd rfl h
  | _ => rfl

/-- The registers after an action in state `s`; before an action of user code they hold
what it has left there. -/
def RegState.step (s : Sys) (a : Option Action) (left : Cpu) (x : RegState) : RegState :=
  match a with
  | none => x
  | some .schedule =>
    match pickNextReady s.shards s.lastScheduled with
    | some id => x.enter id (s.contextOf id)
    | none => x
  | some .timer => RegState.fxsave { x with cpu := left } s.currentShard
  | some _ => { x with cpu := left }

/-- The registers along a run that starts with `boot`, where the user code that acts at
time `t` leaves `left t`. -/
def Run.registers (r : Run) (boot : RegState) (left : Nat → Cpu) : Nat → RegState
  | 0 => boot
  | t + 1 => (r.registers boot left t).step (r.state t) (r.action t) (left t)

/-! ## Where a step leads -/

/-- The syscall waits in the run loop: SYS_YIELD, or a receive without a message. -/
def Waits (s : Sys) : Action → Prop
  | .syscall nr a0 a1 a2 _ => nr.toNat = sysYield ∨
    (nr.toNat = sysChannelRecv ∧ pledgeAllows s.current.gpuPledge nr.toNat = true ∧
      ∃ ep, RecvOk s a0.toNat a1.toNat a2.toNat ep ∧ ¬ (s.channel a0.toNat).Pending ep)
  | _ => False

/-- Where control is after an action, and what that did to the saved contexts. -/
inductive Passage (s : Sys) (a : Action) (s' : Sys) : Prop
  | stays (timer : a ≠ .timer) (schedule : a ≠ .schedule) (mode : s'.mode = s.mode)
      (current : s'.currentShard = s.currentShard) (context : ∀ i, s'.contextOf i = s.contextOf i)
  | preempts (timer : a = .timer) (mode : s'.mode = .choosing)
      (context : s'.contextOf s.currentShard = .timerPreempt)
      (other : ∀ i, i ≠ s.currentShard → s'.contextOf i = s.contextOf i)
  | waits (timer : a ≠ .timer) (schedule : a ≠ .schedule) (waits : Waits s a)
      (mode : s'.mode = .choosing) (context : s'.contextOf s.currentShard ≠ .timerPreempt)
      (other : ∀ i, i ≠ s.currentShard → s'.contextOf i = s.contextOf i)
  | exits (timer : a ≠ .timer) (schedule : a ≠ .schedule) (mode : s'.mode = .choosing)
      (exited : (s'.desc s.currentShard).state = .exited)
      (context : ∀ i, s'.contextOf i = s.contextOf i)
  | enters {id : Nat} (schedule : a = .schedule)
      (picked : pickNextReady s.shards s.lastScheduled = some id) (mode : s'.mode = .user)
      (current : s'.currentShard = id) (context : ∀ i, s'.contextOf i = s.contextOf i)
  | halts (schedule : a = .schedule) (none_ready : pickNextReady s.shards s.lastScheduled = none)
      (mode : s'.mode = .halted)
      (context : ∀ i, s'.contextOf i = s.contextOf i)

section Steps
variable {s s' : Sys}

theorem contextOf_modifyShard (s : Sys) (j : Nat) {f : ShardDescriptor → ShardDescriptor}
    (hf : ∀ d, (f d).savedContext = d.savedContext) (i : Nat) :
    (s.modifyShard j f).contextOf i = s.contextOf i :=
  s.modifyShard_rel (P := fun d d' => d'.savedContext = d.savedContext) j f (fun _ => rfl) hf i

theorem contextOf_setReady (s : Sys) (i : Nat) : (setReady s).contextOf i = s.contextOf i := by
  unfold setReady
  split
  · refine contextOf_modifyShard s _ (fun d => ?_) i
    split <;> rfl
  · rfl

theorem contextOf_suspended_self (hi : s.currentShard < maxShards) (context : SavedContext) :
    (suspended s context).contextOf s.currentShard = context := by
  change ((s.modifyShard s.currentShard fun d => { d with savedContext := context }).desc _).savedContext = _
  rw [Sys.desc_modifyShard s hi, if_pos rfl]

theorem contextOf_suspended_of_ne (hi : s.currentShard < maxShards) (context : SavedContext) {i : Nat}
    (h : i ≠ s.currentShard) : (suspended s context).contextOf i = s.contextOf i := by
  change ((s.modifyShard s.currentShard fun d => { d with savedContext := context }).desc _).savedContext = _
  rw [Sys.desc_modifyShard s hi, if_neg h]
  rfl

/-- The current shard gives up the processor, whatever it is marked with. -/
theorem contextOf_suspended {t : Sys} (hi : s.currentShard < maxShards)
    (hcur : t.currentShard = s.currentShard) (ht : ∀ i, t.contextOf i = s.contextOf i)
    (context : SavedContext) : (suspended t context).contextOf s.currentShard = context ∧
      ∀ i, i ≠ s.currentShard → (suspended t context).contextOf i = s.contextOf i := by
  rw [← hcur] at hi ⊢
  refine ⟨contextOf_suspended_self hi context, fun i hne => ?_⟩
  rw [contextOf_suspended_of_ne hi context hne]
  exact ht i

theorem contextOf_destroyAll (h : destroyAll maxShards 0 s = .ok s') (i : Nat) :
    s'.contextOf i = s.contextOf i := by
  have hc := congrArg (fun c : Control => (c.shard i).savedContext) (destroyAll_control h)
  refine hc.trans ?_
  simp only
  split <;> rfl

theorem passage_exited {a : Action} {exitCode : Nat} (hi : s.currentShard < maxShards)
    (timer : a ≠ .timer) (schedule : a ≠ .schedule) : Passage s a (exited s exitCode) := by
  refine .exits timer schedule rfl ?_ fun i => ?_
  · change ((Sys.modifyShard _ s.currentShard fun d => { d with exitCode, state := .exited }).desc _).state = _
    rw [Sys.desc_modifyShard _ hi, if_pos rfl]
  · exact contextOf_modifyShard _ s.currentShard
      (f := fun d => { d with exitCode, state := .exited }) (fun _ => rfl) i

theorem Effect.passage {nr a0 a1 a2 tsc : UInt64} {result : Option Nat} (hi : s.currentShard < maxShards)
    (pledge : pledgeAllows s.current.gpuPledge nr.toNat = true)
    (h : Effect s nr.toNat a0.toNat a1.toNat a2.toNat s' result) :
    Passage s (.syscall nr a0 a1 a2 tsc) s' := by
  have stays : s'.mode = s.mode → s'.currentShard = s.currentShard →
      (∀ i, s'.contextOf i = s.contextOf i) → Passage s (.syscall nr a0 a1 a2 tsc) s' := .stays nofun nofun
  cases h with
  | exit => exact passage_exited hi nofun nofun
  | yield hnr =>
    obtain ⟨hself, hother⟩ :=
      contextOf_suspended hi (setReady_currentShard s) (contextOf_setReady s) .sysYield
    exact .waits nofun nofun (Or.inl hnr) rfl (by rw [hself]; nofun) hother
  | @block ep hnr ok empty =>
    obtain ⟨hself, hother⟩ := contextOf_suspended (t := Coconut.block s s.currentShard a0.toNat) hi rfl
      (contextOf_modifyShard s _ fun _ => rfl) (.channelRecv a0.toNat ep a1.toNat a2.toNat)
    exact .waits nofun nofun (Or.inr ⟨hnr, pledge, ep, ok, empty⟩) rfl (by rw [hself]; nofun) hother
  | unchanged | recv | dma | fsOpen | fsRead | fsClose => exact stays rfl rfl fun _ => rfl
  | send =>
    refine stays rfl rfl fun i => ?_
    refine contextOf_modifyShard _ _ (fun d => ?_) i
    split <;> rfl
  | grant | revoke | restrict | pledge | unveil =>
    exact stays rfl rfl (contextOf_modifyShard s _ fun _ => rfl)
  | mmap =>
    refine stays ?_ ?_ (mmapped_rel (P := fun d d' => d'.savedContext = d.savedContext)
      (fun _ => rfl) fun _ _ _ => rfl)
    · rw [mmapped_eq]
      rfl
    · rw [mmapped_eq]
      rfl

theorem timerPreempt_passage (h : timerPreempt s = .ok s') : Passage s .timer s' := by
  obtain ⟨hi, rfl⟩ := scheduleYield_eq_ok h
  rw [setReady_currentShard] at hi
  obtain ⟨hself, hother⟩ :=
    contextOf_suspended hi (setReady_currentShard s) (contextOf_setReady s) .timerPreempt
  exact .preempts rfl rfl hself hother

/-- **Where a step leads.** -/
theorem step_passage {a : Action} {ev : Event} (h : step s a = .ok (s', ev)) : Passage s a s' := by
  have hswitch : ∀ id i, (switched s id).contextOf i = s.contextOf i := fun id =>
    contextOf_modifyShard s id (f := fun d => { d with state := .running }) fun _ => rfl
  by_cases htimer : a = .timer
  · subst htimer
    obtain ⟨s₁, hs₁, h⟩ := Kernel.map_eq_ok h
    obtain ⟨rfl, -⟩ := Prod.mk.inj h
    exact timerPreempt_passage hs₁
  cases step_effect h with
  | refused => exact .stays nofun nofun rfl rfl fun _ => rfl
  | syscall hi pledge effect => exact effect.passage hi pledge
  | timer => exact absurd rfl htimer
  | kill hi user => exact passage_exited hi htimer (by rintro rfl; cases user)
  | store => exact .stays nofun nofun rfl rfl fun _ => rfl
  | select picked => exact .enters rfl picked rfl rfl (hswitch _)
  | selectRecv picked => exact .enters rfl picked rfl rfl (hswitch _)
  | selectRecvEmpty picked => exact .enters rfl picked rfl rfl (hswitch _)
  | halt none_ready _ destroyed =>
    have hkept := contextOf_destroyAll destroyed
    exact .halts rfl none_ready rfl hkept

/-- A receive that passes its checks and finds no message blocks. -/
theorem handleChannelRecv_waits {ch buf maxLen : Nat} {ep : Fin 2} (hi : s.currentShard < maxShards)
    (ok : RecvOk s ch buf maxLen ep) (empty : ¬ (s.channel ch).Pending ep) :
    handleChannelRecv s ch buf maxLen = .ok (suspended (block s s.currentShard ch)
      (.channelRecv ch ep buf maxLen), none) := by
  have hvalid : validateUserWriteBuf s buf maxLen = .ok true :=
    validateUserWriteBuf_of_region hi (Sys.current_eq hi ▸ ok.valid)
  have hnone : takeMessage s ch ep buf maxLen = .ok none := by
    unfold takeMessage
    refine if_neg fun hc => empty ?_
    simp only [Bool.and_eq_true, decide_eq_true_eq, beq_iff_eq] at hc
    exact hc
  have hpos := ok.pos
  have hlt := ok.lt
  have hle := ok.le
  unfold handleChannelRecv
  simp only [ok.cap, Bool.not_true, Bool.false_eq_true, if_false]
  rw [if_neg (by omega), if_neg (by simp only [Bool.or_eq_true, beq_iff_eq, decide_eq_true_eq]; omega),
    hvalid]
  change recv s ch s.currentShard buf maxLen = _
  unfold recv
  simp only [ok.active, ok.endpoint]
  rw [if_neg (by omega)]
  simp only [Bool.not_true, Bool.false_eq_true, if_false]
  rw [hnone]
  change (do let _ ← s.shard s.currentShard
             let s ← scheduleYield (block s s.currentShard ch) (.channelRecv ch ep buf maxLen)
             return (s, none)) = _
  rw [Sys.shard_of_lt hi]
  change (do let s ← scheduleYield (block s s.currentShard ch) (.channelRecv ch ep buf maxLen)
             return (s, none)) = _
  unfold scheduleYield
  rw [Sys.shard_of_lt (show (block s s.currentShard ch).currentShard < maxShards from hi)]
  rfl

theorem Waits.mode {a : Action} {ev : Event} (hw : Waits s a) (h : step s a = .ok (s', ev)) :
    s'.mode = .choosing := by
  cases a with
  | syscall nr a0 a1 a2 tsc =>
    obtain ⟨⟨s₁, result⟩, hd, h⟩ := Kernel.map_eq_ok h
    obtain ⟨rfl, -⟩ := Prod.mk.inj h
    obtain ⟨d, hshard, hd⟩ := Kernel.bind_eq_ok hd
    obtain ⟨hi, rfl⟩ := Sys.shard_eq_ok hshard
    have pledge : pledgeAllows s.current.gpuPledge nr.toNat = true := by
      rcases hw with hnr | ⟨-, pledge, -⟩
      · rw [hnr]
        unfold pledgeAllows
        split <;> rfl
      · exact pledge
    have hd := (guard_eq_ok hd).resolve_left fun hc => by
      have hrefused : (!pledgeAllows s.current.gpuPledge nr.toNat) = true := hc.1
      rw [pledge] at hrefused
      cases hrefused
    rcases hw with hnr | ⟨hnr, -, ep, ok, empty⟩
    · rw [hnr] at hd
      obtain ⟨s₂, hs₂, hd⟩ := Kernel.map_eq_ok hd.2
      obtain ⟨rfl, -⟩ := Prod.mk.inj hd
      obtain ⟨-, rfl⟩ := scheduleYield_eq_ok hs₂
      rfl
    · rw [hnr] at hd
      have hrecv := (handleChannelRecv_waits hi ok empty).symm.trans hd.2
      obtain ⟨rfl, -⟩ := Prod.mk.inj (Except.ok.inj hrecv)
      rfl
  | _ => exact hw.elim

end Steps

/-! ## Registers along a run -/

namespace Run
variable {r : Run} {boot : RegState} {left left' : Nat → Cpu} {i b n m : Nat} {a : Action}

/-- Shard `i` is in user mode. -/
def Runs (r : Run) (i n : Nat) : Prop := (r.state n).mode = .user ∧ (r.state n).currentShard = i

theorem passage (h : r.action n = some a) :
    a.mode = (r.state n).mode ∧ Passage (r.state n) a (r.state (n + 1)) ∧
      ∃ ev, step (r.state n) a = .ok (r.state (n + 1), ev) := by
  have hnext := r.next n
  rw [h] at hnext
  exact ⟨hnext.1, step_passage hnext.2, _, hnext.2⟩

theorem state_of_idle (h : r.action n = none) : r.state (n + 1) = r.state n := by
  have hnext := r.next n
  rw [h] at hnext
  exact hnext.1

theorem registers_succ (h : r.action n = some a) : r.registers boot left (n + 1) =
    (r.registers boot left n).step (r.state n) (some a) (left n) := by
  rw [← h]
  rfl

/-- User code has acted. -/
theorem registers_cpu (h : r.action n = some a) (hs : a ≠ .schedule) :
    (r.registers boot left (n + 1)).cpu = left n := by
  rw [registers_succ h]
  cases a with
  | schedule => exact absurd rfl hs
  | _ => rfl

theorem registers_saved (h : r.action n = some a) (ht : a ≠ .timer) :
    (r.registers boot left (n + 1)).saved = (r.registers boot left n).saved := by
  rw [registers_succ h]
  cases a with
  | schedule =>
    unfold RegState.step
    simp only
    split
    · unfold RegState.enter
      split <;> rfl
    · rfl
  | timer => exact absurd rfl ht
  | _ => rfl

theorem registers_preempted (h : r.action n = some .timer) (hi : (r.state n).currentShard = i) :
    (r.registers boot left (n + 1)).saved i = (left n).fx := by
  rw [registers_succ h]
  exact if_pos hi.symm

theorem registers_of_idle (h : r.action n = none) :
    r.registers boot left (n + 1) = r.registers boot left n := by
  change RegState.step (r.state n) (r.action n) (left n) (r.registers boot left n) = _
  rw [h]
  rfl

/-- While shard `i` does not run, its context and its saved image stay. -/
theorem kept_step (boot : RegState) (left : Nat → Cpu) (h : ¬ r.Runs i n) :
    (r.state (n + 1)).contextOf i = (r.state n).contextOf i ∧
    (r.registers boot left (n + 1)).saved i = (r.registers boot left n).saved i := by
  cases ha : r.action n with
  | none => rw [state_of_idle ha, registers_of_idle ha]; exact ⟨rfl, rfl⟩
  | some a =>
    obtain ⟨hmode, hpass, -⟩ := passage ha
    have other : a ≠ .schedule → i ≠ (r.state n).currentShard := by
      rintro hne rfl
      refine h ⟨?_, rfl⟩
      rw [← hmode]
      cases a with
      | schedule => exact absurd rfl hne
      | _ => rfl
    refine ⟨?_, ?_⟩
    · cases hpass with
      | stays _ _ _ _ context | exits _ _ _ _ context => exact context i
      | enters _ _ _ _ context | halts _ _ _ context => exact context i
      | preempts timer _ _ kept => exact kept i (other (by rw [timer]; nofun))
      | waits _ hs _ _ _ kept => exact kept i (other hs)
    · by_cases ht : a = .timer
      · subst ht
        rw [registers_succ ha]
        exact if_neg (other nofun)
      · rw [registers_saved ha ht]

/-- As long as it does not run. -/
theorem kept (boot : RegState) (left : Nat → Cpu) {d : Nat} (h : ∀ k, n ≤ k → k < n + d → ¬ r.Runs i k) :
    (r.state (n + d)).contextOf i = (r.state n).contextOf i ∧
      (r.registers boot left (n + d)).saved i = (r.registers boot left n).saved i := by
  induction d with
  | zero => exact ⟨rfl, rfl⟩
  | succ d ih =>
    obtain ⟨hc, hs⟩ := ih fun k h1 h2 => h k h1 (by omega)
    obtain ⟨hc', hs'⟩ := kept_step boot left (h (n + d) (by omega) (by omega))
    exact ⟨hc'.trans hc, hs'.trans hs⟩

/-- A shard that did not run before is entered by the run loop. -/
theorem entered (h : ¬ r.Runs i n) (h' : r.Runs i (n + 1)) : r.action n = some .schedule ∧
    pickNextReady (r.state n).shards (r.state n).lastScheduled = some i := by
  cases ha : r.action n with
  | none =>
    rw [Runs, state_of_idle ha] at h'
    exact absurd h' h
  | some a =>
    obtain ⟨-, hpass, -⟩ := passage ha
    cases hpass with
    | stays _ _ mode current => exact absurd ⟨mode ▸ h'.1, current ▸ h'.2⟩ h
    | enters schedule picked _ current =>
      rw [schedule, picked, ← h'.2, current]
      exact ⟨rfl, rfl⟩
    | preempts _ mode | waits _ _ _ mode | exits _ _ mode => exact absurd (mode.symm.trans h'.1) nofun
    | halts _ _ mode => exact absurd (mode.symm.trans h'.1) nofun

theorem registers_enter (ha : r.action n = some .schedule)
    (hpick : pickNextReady (r.state n).shards (r.state n).lastScheduled = some i) :
    r.registers boot left (n + 1) = (r.registers boot left n).enter i ((r.state n).contextOf i) := by
  rw [registers_succ ha]
  unfold RegState.step
  simp only [hpick]

/-! ## SSE state across a suspension -/

/-- Shard `i` does `a` at time `n`, and runs next at time `m`. -/
structure Resumes (r : Run) (i n m : Nat) (a : Action) : Prop where
  runs : r.Runs i n
  acts : r.action n = some a
  lt : n < m
  back : r.Runs i m
  first : ∀ k, n < k → k < m → ¬ r.Runs i k

/-- The run loop has entered the shard, in the context it left, with the image it left. -/
theorem Resumes.registers (boot : RegState) (left : Nat → Cpu) (h : r.Resumes i n m a)
    (hn : ¬ r.Runs i (n + 1)) :
    ∃ k, (r.registers boot left m).cpu =
        ((r.registers boot left k).enter i ((r.state (n + 1)).contextOf i)).cpu ∧
      (r.registers boot left k).saved i = (r.registers boot left (n + 1)).saved i := by
  have hne : m ≠ n + 1 := by
    rintro rfl
    exact hn h.back
  obtain ⟨d, rfl⟩ : ∃ d, m = n + 1 + d + 1 := ⟨m - (n + 2), by have := h.lt; omega⟩
  have away : ∀ k, n + 1 ≤ k → k < n + 1 + d + 1 → ¬ r.Runs i k := fun k h1 h2 => h.first k (by omega) h2
  obtain ⟨hcontext, hsaved⟩ := kept boot left (d := d) fun k h1 h2 => away k h1 (by omega)
  obtain ⟨hact, hpick⟩ := entered (away (n + 1 + d) (by omega) (by omega)) h.back
  refine ⟨n + 1 + d, ?_, hsaved⟩
  rw [registers_enter hact hpick, hcontext]

/-- A shard that comes back has not exited. -/
theorem Resumes.not_exited (h : r.Resumes i n m a) : ((r.state (n + 1)).desc i).state ≠ .exited := by
  intro hex
  obtain ⟨d, rfl⟩ := Nat.exists_eq_add_of_le (show n + 1 ≤ m from h.lt)
  have hended := r.ended_forever (Or.inl hex) d
  have hrun := ((r.control_inv (n + 1 + d)).current h.back.1 h.back.2).1
  rcases hended with hc | hc
  · exact absurd (hc.symm.trans hrun) nofun
  · exact absurd (hc.symm.trans hrun) nofun

/-- **Which suspensions keep the SSE state.**  When a shard runs again after an action,
XMM0–XMM15 and MXCSR are as it left them if and only if the action was not a syscall that
waited in the run loop, or they held the cleared values already. -/
theorem sse_kept_iff (boot : RegState) (left : Nat → Cpu) (h : r.Resumes i n m a) :
    (r.registers boot left m).cpu.fx.sse = (left n).fx.sse ↔
      ¬ Waits (r.state n) a ∨ (left n).fx.sse = clearedSse := by
  obtain ⟨hmode, hpass, ev, hstep⟩ := passage h.acts
  cases hpass with
  | stays _ hs mode current =>
    have hruns : r.Runs i (n + 1) := ⟨mode.trans h.runs.1, current.trans h.runs.2⟩
    obtain rfl : m = n + 1 := by
      by_contra hne
      exact h.first (n + 1) (by omega) (by have := h.lt; omega) hruns
    have hwaits : ¬ Waits (r.state n) a := fun hw =>
      absurd ((hw.mode hstep).symm.trans hruns.1) nofun
    rw [registers_cpu h.acts hs]
    exact ⟨fun _ => Or.inl hwaits, fun _ => rfl⟩
  | preempts timer mode context =>
    subst timer
    obtain ⟨k, hcpu, hsaved⟩ := h.registers boot left fun hc =>
      absurd (mode.symm.trans hc.1) nofun
    rw [h.runs.2] at context
    rw [hcpu, context]
    refine ⟨fun _ => Or.inl id, fun _ => ?_⟩
    change ((r.registers boot left k).saved i).sse = _
    rw [hsaved, registers_preempted h.acts h.runs.2]
  | waits _ _ waits mode context =>
    obtain ⟨k, hcpu, -⟩ := h.registers boot left fun hc =>
      absurd (mode.symm.trans hc.1) nofun
    rw [h.runs.2] at context
    have hcleared : (r.registers boot left m).cpu.fx.sse = clearedSse := by
      rw [hcpu, RegState.enter_of_ne context]
      rfl
    rw [hcleared]
    exact ⟨fun he => Or.inr he.symm, fun ho => (ho.resolve_left fun hn => hn waits).symm⟩
  | exits _ _ _ exited => exact absurd (h.runs.2 ▸ exited) h.not_exited
  | enters schedule | halts schedule =>
    rw [schedule, h.runs.1] at hmode
    cases hmode

end Run

/-- Registers with `xmm` in XMM0 and `st` in ST0, and zeros elsewhere. -/
def someCpu (xmm : BitVec 128) (st : BitVec 80) : Cpu where
  fx := ⟨0x37F#16, 0#16, 0xFFFF#16, fun i => if i.val = 0 then st else 0#80, 0x1F80#32,
    fun i => if i.val = 0 then xmm else 0#128⟩
  dr := fun _ => 0#64
  dr7 := 0x400#64

def bootRegs : RegState := ⟨someCpu 0#128 0#80, fun _ => (someCpu 0#128 0#80).fx⟩

/-- A shard is preempted and goes on. -/
def preemptedRun : Run :=
  plainRun [.create emptyImage .normal] oneShard_isSome [.schedule, .timer, .schedule]

set_option maxRecDepth 100000 in
theorem preemptedRun_resumes : preemptedRun.Resumes 0 1 3 .timer := by
  refine ⟨by unfold Run.Runs; decide +kernel, rfl, by decide, by unfold Run.Runs; decide +kernel, ?_⟩
  intro k h1 h2
  obtain rfl : k = 2 := by omega
  unfold Run.Runs
  decide +kernel

theorem preemptedRun_keeps_sse : preemptedRun.Resumes 0 1 3 .timer ∧
    (preemptedRun.registers bootRegs (fun _ => someCpu 1#128 0#80) 3).cpu.fx.sse =
      (someCpu 1#128 0#80).fx.sse :=
  ⟨preemptedRun_resumes, (Run.sse_kept_iff bootRegs (fun _ => someCpu 1#128 0#80)
    preemptedRun_resumes).mpr (Or.inl id)⟩

/-- A shard yields and goes on. -/
def yieldRun : Run :=
  plainRun [.create emptyImage .normal] oneShard_isSome
    [.schedule, .syscall 62 0 0 0 0, .schedule]

set_option maxRecDepth 100000 in
theorem yieldRun_resumes : yieldRun.Resumes 0 1 3 (.syscall 62 0 0 0 0) := by
  refine ⟨by unfold Run.Runs; decide +kernel, rfl, by decide, by unfold Run.Runs; decide +kernel, ?_⟩
  intro k h1 h2
  obtain rfl : k = 2 := by omega
  unfold Run.Runs
  decide +kernel

set_option maxRecDepth 100000 in
theorem yieldRun_loses_sse : yieldRun.Resumes 0 1 3 (.syscall 62 0 0 0 0) ∧
    (yieldRun.registers bootRegs (fun _ => someCpu 1#128 0#80) 3).cpu.fx.sse ≠
      (someCpu 1#128 0#80).fx.sse := by
  refine ⟨yieldRun_resumes, fun hc => ?_⟩
  have hxmm := congrFun (congrArg Prod.fst hc) ⟨0, by decide⟩
  revert hxmm
  decide +kernel

/-! ## What a shard sees of the others -/

namespace Run
variable {r : Run} {boot : RegState} {left left' : Nat → Cpu} {b n : Nat}

/-- Shard `b` behaves identically in two runs: as long as it has seen the same registers,
it leaves the same. -/
def BehavesAlike (r : Run) (boot : RegState) (b : Nat) (left left' : Nat → Cpu) : Prop :=
  ∀ n, r.Runs b n →
    (∀ k, k ≤ n → r.Runs b k → (r.registers boot left k).cpu = (r.registers boot left' k).cpu) →
    left n = left' n

/-- The run loop enters shard `b` other than in the timer interrupt: for the first time, or
after a syscall that waited. -/
structure EntersCleared (r : Run) (b n : Nat) : Prop where
  acts : r.action n = some .schedule
  picked : pickNextReady (r.state n).shards (r.state n).lastScheduled = some b
  context : (r.state n).contextOf b ≠ .timerPreempt

theorem EntersCleared.runs (h : r.EntersCleared b n) : r.Runs b (n + 1) := by
  obtain ⟨-, hpass, -⟩ := passage h.acts
  cases hpass with
  | enters _ picked mode current =>
    exact ⟨mode, current.trans (Option.some.inj (picked.symm.trans h.picked))⟩
  | halts _ none_ready => cases h.picked.symm.trans none_ready
  | stays _ schedule | waits _ schedule | exits _ schedule => exact absurd rfl schedule
  | preempts timer => cases timer

/-- What the argument carries: shard `b` sees the same, and an image it will get back is
the same. -/
structure Alike (r : Run) (boot : RegState) (b : Nat) (left left' : Nat → Cpu) (n : Nat) : Prop where
  cpu : r.Runs b n → (r.registers boot left n).cpu = (r.registers boot left' n).cpu
  saved : (r.state n).contextOf b = .timerPreempt →
    (r.registers boot left n).saved b = (r.registers boot left' n).saved b

/-- The run loop enters a shard. -/
theorem Alike.enter (h : r.Alike boot b left left' n) (hn : ¬ r.Runs b n)
    (hst : r.EntersCleared b n →
      (r.registers boot left n).cpu.fx.st = (r.registers boot left' n).cpu.fx.st)
    (hb : r.Runs b (n + 1)) :
    (r.registers boot left (n + 1)).cpu = (r.registers boot left' (n + 1)).cpu := by
  obtain ⟨hact, hpick⟩ := entered hn hb
  rw [registers_enter hact hpick, registers_enter hact hpick]
  by_cases hcontext : (r.state n).contextOf b = .timerPreempt
  · rw [hcontext]
    unfold RegState.enter
    simp only
    rw [h.saved hcontext]
    rfl
  · rw [RegState.enter_of_ne hcontext, RegState.enter_of_ne hcontext]
    exact clearSensitiveCpuState_congr.mpr (hst ⟨hact, hpick, hcontext⟩)

/-- A step of shard `b` itself, which leaves the same registers in both runs. -/
theorem alike_of_left (hb : r.Runs b n) (h : r.Alike boot b left left' n) (hleft : left n = left' n) :
    r.Alike boot b left left' (n + 1) := by
  cases ha : r.action n with
  | none =>
    refine ⟨fun _ => ?_, fun hc => ?_⟩
    · rw [registers_of_idle ha, registers_of_idle ha]
      exact h.cpu hb
    · rw [state_of_idle ha] at hc
      rw [registers_of_idle ha, registers_of_idle ha]
      exact h.saved hc
  | some a =>
    obtain ⟨hmode, hpass, -⟩ := passage ha
    have hs : a ≠ .schedule := by
      rintro rfl
      exact absurd (hmode.trans hb.1) nofun
    refine ⟨fun _ => by rw [registers_cpu ha hs, registers_cpu ha hs, hleft], fun hc => ?_⟩
    by_cases ht : a = .timer
    · subst ht
      rw [registers_preempted ha hb.2, registers_preempted ha hb.2, hleft]
    · rw [registers_saved ha ht, registers_saved ha ht]
      refine h.saved ?_
      cases hpass with
      | stays _ _ _ _ context | exits _ _ _ _ context => exact context b ▸ hc
      | waits _ _ _ _ context => exact absurd (hb.2 ▸ hc) context
      | preempts timer => exact absurd timer ht
      | enters schedule | halts schedule => exact absurd schedule hs

theorem alike (h : r.BehavesAlike boot b left left')
    (hst : ∀ k, r.EntersCleared b k →
      (r.registers boot left k).cpu.fx.st = (r.registers boot left' k).cpu.fx.st) :
    r.Alike boot b left left' n := by
  induction n using Nat.strongRecOn with
  | ind n ih =>
    cases n with
    | zero => exact ⟨fun _ => rfl, fun _ => rfl⟩
    | succ n =>
      have hn := ih n (Nat.lt_succ_self n)
      by_cases hb : r.Runs b n
      · refine alike_of_left hb hn (h n hb fun k hk hrun => ?_)
        exact (ih k (by omega)).cpu hrun
      · refine ⟨hn.enter hb (hst n), fun hc => ?_⟩
        obtain ⟨hcontext, hsaved⟩ := kept_step boot left hb
        obtain ⟨-, hsaved'⟩ := kept_step boot left' hb
        rw [hsaved, hsaved']
        exact hn.saved (hcontext ▸ hc)

/-- **What a shard sees of the others.**  In two runs that differ only in what other shards
leave in the registers, shard `b` sees the same registers whenever it runs, if and only if
the ST data are the same whenever the run loop enters it other than in the timer
interrupt. -/
theorem no_leak_iff (h : r.BehavesAlike boot b left left') :
    (∀ n, r.Runs b n → (r.registers boot left n).cpu = (r.registers boot left' n).cpu) ↔
      ∀ n, r.EntersCleared b n →
        (r.registers boot left n).cpu.fx.st = (r.registers boot left' n).cpu.fx.st := by
  constructor
  · intro hcpu n he
    have hb := he.runs
    have hcleared := hcpu (n + 1) hb
    rw [registers_enter he.acts he.picked, registers_enter he.acts he.picked,
      RegState.enter_of_ne he.context, RegState.enter_of_ne he.context] at hcleared
    exact clearSensitiveCpuState_congr.mp hcleared
  · exact fun hst n hb => (alike h hst).cpu hb

end Run
/-- Shard 1 yields, and shard 0 is entered for the first time. -/
def handoverRun : Run := plainRun turnOps turnOps_ok [.schedule, .syscall 62 0 0 0 0, .schedule]

/-- Shard 1 leaves `secret`, shard 0 nothing of interest. -/
def handoverLeft (secret : Cpu) (n : Nat) : Cpu := if n = 1 then secret else someCpu 0#128 0#80

set_option maxRecDepth 100000 in
theorem handoverRun_behavesAlike (secret secret' : Cpu) :
    handoverRun.BehavesAlike bootRegs 0 (handoverLeft secret) (handoverLeft secret') := by
  intro n hb _
  have hne : n ≠ 1 := by
    rintro rfl
    have : (handoverRun.state 1).currentShard ≠ 0 := by decide +kernel
    exact this hb.2
  unfold handoverLeft
  rw [if_neg hne, if_neg hne]

set_option maxRecDepth 100000 in
/-- What shard 1 had in its XMM registers does not matter. -/
theorem handoverRun_no_leak :
    handoverRun.BehavesAlike bootRegs 0 (handoverLeft (someCpu 1#128 0#80)) (handoverLeft (someCpu 0#128 0#80)) ∧
    ∀ n, handoverRun.Runs 0 n →
      (handoverRun.registers bootRegs (handoverLeft (someCpu 1#128 0#80)) n).cpu =
        (handoverRun.registers bootRegs (handoverLeft (someCpu 0#128 0#80)) n).cpu := by
  refine ⟨handoverRun_behavesAlike _ _, (Run.no_leak_iff (handoverRun_behavesAlike _ _)).mpr fun n he => ?_⟩
  match n, he with
  | 0, _ => rfl
  | 1, he => cases he.acts
  | 2, _ => rfl
  | n + 3, he => cases he.acts

set_option maxRecDepth 100000 in
/-- **Shard 0 finds in ST0 what shard 1 left there.** -/
theorem handoverRun_leaks :
    handoverRun.BehavesAlike bootRegs 0 (handoverLeft (someCpu 0#128 1#80)) (handoverLeft (someCpu 0#128 0#80)) ∧
    handoverRun.Runs 0 3 ∧
    (handoverRun.registers bootRegs (handoverLeft (someCpu 0#128 1#80)) 3).cpu ≠
      (handoverRun.registers bootRegs (handoverLeft (someCpu 0#128 0#80)) 3).cpu := by
  refine ⟨handoverRun_behavesAlike _ _, by unfold Run.Runs; decide +kernel, fun hc => ?_⟩
  have hst := congrFun (congrArg (fun c : Cpu => c.fx.st) hc) ⟨0, by decide⟩
  revert hst
  decide +kernel

end Coconut
