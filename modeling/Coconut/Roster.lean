import Mathlib.Data.List.Basic
import Coconut.Threads
import Coconut.Blocking

/-!
# Where the shards are

The model of the system has no kernel stacks: a suspended shard keeps a `SavedContext`, which
names the place in the kernel where it waits, and `run_loop` goes on there in one step.  The
threads have stacks, registers and machine code.  What both have is a roster: which shard the
processor runs, and for each shard whether it has run yet and by which gate it is in the kernel.

`eventsOf` says in which events of the threads an action of the system consists, as far as they
move shards.  The roster that these events lead to is the one that the system has after the
action (`rosterOf_action`).
-/
namespace Coconut.Switching

/-- Where a shard is, without its registers. -/
inductive Loc where
  | absent
  | fresh
  | entering
  | user
  | kernel (g : Gate)
  | parked (g : Gate)
  deriving DecidableEq

def Loc.park : Loc → Loc
  | kernel g => parked g
  | l => l

def Loc.unpark : Loc → Loc
  | parked g => kernel g
  | l => l

@[ext] structure Roster (ι : Type) where
  current : Option ι
  loc : ι → Loc

/-! ## Of the threads -/

section
variable {ι : Type}

def Thread.loc : Thread → Loc
  | absent => .absent
  | fresh => .fresh
  | entering => .entering
  | user => .user
  | kernel v => .kernel v.gate
  | parked v _ => .parked v.gate

theorem Thread.eq_user_of_loc {t : Thread} (h : t.loc = .user) : t = user := by
  cases t <;> first | rfl | cases h

theorem Thread.eq_fresh_of_loc {t : Thread} (h : t.loc = .fresh) : t = fresh := by
  cases t <;> first | rfl | cases h

theorem Thread.eq_parked_of_loc {t : Thread} {g : Gate} (h : t.loc = .parked g) :
    ∃ v call, t = parked v call ∧ v.gate = g := by
  cases t with
  | parked v call => exact ⟨v, call, rfl, Loc.parked.inj h⟩
  | absent | fresh | entering | user | kernel => cases h

def State.roster (s : State ι) : Roster ι := ⟨s.current, fun i => (s.thread i).loc⟩

/-- The events that move a shard. -/
def Event.moves : Event ι → Bool
  | sti | supervisor | entering _ | user _ | kernel _ => false
  | create _ | dispatch _ | first _ | enter _ | syscall _ | timer _ | fault _ | yield _ | exit _
  | sysret _ | iret _ => true

variable [DecidableEq ι]

def Roster.put (x : Roster ι) (i : ι) (l : Loc) : Roster ι :=
  { x with loc := fun j => if j = i then l else x.loc j }

def Roster.next (x : Roster ι) : Event ι → Roster ι
  | .sti | .supervisor | .entering _ | .user _ | .kernel _ => x
  | .create i => x.put i .fresh
  | .first i => { x.put i .entering with current := some i }
  | .dispatch i => { x.put i (x.loc i).unpark with current := some i }
  | .enter i | .sysret i | .iret i => x.put i .user
  | .syscall i => x.put i (.kernel .syscall)
  | .timer i => x.put i (.kernel .timer)
  | .fault i => x.put i (.kernel .fault)
  | .yield i => { x.put i (x.loc i).park with current := none }
  | .exit i => { x.put i .absent with current := none }

theorem Roster.put_self (x : Roster ι) (i : ι) (l : Loc) : (x.put i l).loc i = l := if_pos rfl

theorem Roster.put_put (x : Roster ι) (i : ι) (l l' : Loc) : (x.put i l).put i l' = x.put i l' := by
  refine Roster.ext rfl (funext fun j => ?_)
  by_cases hj : j = i
  · exact (if_pos hj).trans (if_pos hj).symm
  · exact (if_neg hj).trans ((if_neg hj).trans (if_neg hj).symm)

theorem Roster.put_loc (x : Roster ι) (i : ι) : x.put i (x.loc i) = x := by
  refine Roster.ext rfl (funext fun j => ?_)
  by_cases hj : j = i
  · rw [hj, Roster.put_self]
  · exact if_neg hj

theorem State.roster_setThread (s : State ι) (i : ι) (t : Thread) :
    (s.setThread i t).roster = s.roster.put i t.loc := by
  refine Roster.ext rfl (funext fun j => ?_)
  by_cases hj : j = i
  · exact (congrArg Thread.loc (if_pos hj)).trans (if_pos hj).symm
  · exact (congrArg Thread.loc (if_neg hj)).trans (if_neg hj).symm

theorem Step.roster {A : Addresses ι} {ev : Event ι} {s s' : State ι} (hs : Step A ev s s')
    (hb : ¬ s.broken) : s'.roster = s.roster.next ev := by
  cases hs with
  | sti | supervisor | entering | user | kernel => rfl
  | create | first | enter | syscall | timer | fault | exit | sysret | iret =>
    exact State.roster_setThread _ _ _
  | @dispatch _ i v call d hcur hi =>
    rw [Roster.next, show s.roster.loc i = .parked v.gate from congrArg Thread.loc hi]
    exact State.roster_setThread _ _ _
  | @yield _ i v d hcur hi =>
    rw [Roster.next, show s.roster.loc i = .kernel v.gate from congrArg Thread.loc hi]
    exact State.roster_setThread _ _ _
  | wild h => exact absurd h hb

theorem foldl_next_filter (evs : List (Event ι)) (x : Roster ι) :
    (evs.filter Event.moves).foldl Roster.next x = evs.foldl Roster.next x := by
  induction evs generalizing x with
  | nil => rfl
  | cons ev evs ih =>
    by_cases hev : ev.moves = true
    · rw [List.filter_cons_of_pos hev]
      exact ih _
    · have hx : x.next ev = x := by
        cases ev <;> first | rfl | exact absurd rfl hev
      rw [List.filter_cons_of_neg hev, List.foldl_cons, hx]
      exact ih x

/-- The event with which a shard comes through a gate. -/
def Gate.event (i : ι) : Gate → Event ι
  | syscall => .syscall i
  | timer => .timer i
  | fault => .fault i

theorem Roster.next_gate (x : Roster ι) (g : Gate) (i : ι) :
    x.next (g.event i) = x.put i (.kernel g) := by
  cases g <;> rfl

theorem Roster.next_yield (x : Roster ι) (g : Gate) (i : ι) :
    (x.next (g.event i)).next (.yield i) = { x.put i (.parked g) with current := none } := by
  rw [Roster.next_gate, Roster.next, Roster.put_self, Roster.put_put]
  rfl

theorem Roster.next_exit (x : Roster ι) (g : Gate) (i : ι) :
    (x.next (g.event i)).next (.exit i) = { x.put i .absent with current := none } := by
  rw [Roster.next_gate, Roster.next, Roster.put_put]

end

/-! ## Of the system -/

theorem maxShards_pos : 0 < maxShards := by decide

/-- The number of a shard, as an index of `SHARDS`. -/
def slot (n : Nat) : Fin maxShards := ⟨n % maxShards, Nat.mod_lt n maxShards_pos⟩

theorem slot_val {n : Nat} (h : n < maxShards) : (slot n).val = n := Nat.mod_eq_of_lt h

theorem eq_slot {n : Nat} (h : n < maxShards) {i : Fin maxShards} : i = slot n ↔ i.val = n := by
  rw [Fin.ext_iff, slot_val h]

/-- Where a shard is that is not in user mode. -/
def waitsAt (x : ShardControl) : Loc :=
  if x.state.isLive then
    match x.savedContext with
    | .firstEntry => .fresh
    | .timerPreempt => .parked .timer
    | .sysYield | .channelRecv _ _ _ _ => .parked .syscall
  else .absent

def rosterOf (c : Control) : Roster (Fin maxShards) where
  current := if c.mode = .user then some (slot c.currentShard) else none
  loc i := if c.mode = .user ∧ i = slot c.currentShard then .user else waitsAt (c.shard i)

/-- The gate through which an action enters the kernel, if it does. -/
def gateOf : Action → Gate
  | .syscall _ _ _ _ _ => .syscall
  | .timer => .timer
  | .fault _ | .store _ _ | .schedule => .fault

/-- `run_loop` enters a shard: through `shard_first_entry`, or by the return of its call of
`context_switch`, from where it goes back to user mode. -/
def entryEvents (i : Fin maxShards) : SavedContext → List (Event (Fin maxShards))
  | .firstEntry => [.first i, .enter i]
  | .timerPreempt => [.dispatch i, .iret i]
  | .sysYield | .channelRecv _ _ _ _ => [.dispatch i, .sysret i]

/-- The current shard leaves user mode for good or until it is chosen again. -/
def leaveEvents (i : Fin maxShards) (a : Action) (state : ShardState) :
    List (Event (Fin maxShards)) :=
  [(gateOf a).event i, if state = .exited then .exit i else .yield i]

/-- The moves of shards in an action that leads from `c` to `c'`. -/
def eventsOf (c : Control) : Option Action → Control → List (Event (Fin maxShards))
  | none, _ => []
  | some .schedule, c' =>
    if c'.mode = .user then
      entryEvents (slot c'.currentShard) (c.shard c'.currentShard).savedContext
    else []
  | some (.syscall nr a0 a1 a2 tsc), c' =>
    if c'.mode = .user then [.syscall (slot c.currentShard), .sysret (slot c.currentShard)]
    else
      leaveEvents (slot c.currentShard) (.syscall nr a0 a1 a2 tsc) (c'.shard c.currentShard).state
  | some a, c' =>
    if c'.mode = .user then []
    else leaveEvents (slot c.currentShard) a (c'.shard c.currentShard).state

/-! ## What an action does to the roster -/

/-- Where an action leads, as far as the roster shows it. -/
inductive Shift (c : Control) (a : Action) (c' : Control) : Prop
  | stays (action : a.IsCall ∨ ∃ virt b, a = .store virt b) (mode : c.mode = .user)
      (mode' : c'.mode = .user) (current : c'.currentShard = c.currentShard)
      (waits : ∀ j, waitsAt (c'.shard j) = waitsAt (c.shard j))
  | leaves (action : a.mode = .user) (mode : c.mode = .user) (mode' : c'.mode ≠ .user)
      (loc : waitsAt (c'.shard c.currentShard) =
        if (c'.shard c.currentShard).state = .exited then .absent else .parked (gateOf a))
      (waits : ∀ j, j ≠ c.currentShard → waitsAt (c'.shard j) = waitsAt (c.shard j))
  | enters (action : a = .schedule) (mode : c.mode ≠ .user) (mode' : c'.mode = .user)
      (ready : (c.shard c'.currentShard).state = .ready) (lt : c'.currentShard < maxShards)
      (waits : ∀ j, j ≠ c'.currentShard → waitsAt (c'.shard j) = waitsAt (c.shard j))
  | halts (action : a = .schedule) (mode : c.mode ≠ .user) (mode' : c'.mode ≠ .user)
      (waits : ∀ j, waitsAt (c'.shard j) = waitsAt (c.shard j))

section
variable {c c' : Control} {a : Action} {l : Label}

theorem gateOf_call (h : a.IsCall) : gateOf a = .syscall := by
  cases a with
  | syscall => rfl
  | timer | fault | store | schedule => exact h.elim

theorem waitsAt_congr {x y : ShardControl} (hlive : y.state.isLive = x.state.isLive)
    (hcontext : y.savedContext = x.savedContext) : waitsAt y = waitsAt x := by
  unfold waitsAt
  rw [hlive, hcontext]

theorem waitsAt_setShard {i : Nat} {x : ShardControl} (h : waitsAt x = waitsAt (c.shard i))
    (j : Nat) : waitsAt ((c.setShard i x).shard j) = waitsAt (c.shard j) := by
  by_cases hj : j = i
  · rw [hj, Control.setShard_self]
    exact h
  · rw [Control.setShard_of_ne c x hj]

theorem waitsAt_wake (i ch j : Nat) : waitsAt ((c.wake i ch).shard j) = waitsAt (c.shard j) := by
  rcases c.wake_shard i ch j with h | ⟨-, hblocked, -, h⟩
  · rw [h]
  · rw [h]
    exact waitsAt_congr (by rw [hblocked]; rfl) rfl

theorem Shift.switch (hinv : c.Inv) (hmode : c.mode = .choosing) {i : Nat} (hpick : c.pick = some i)
    (hlt : i < maxShards)
    (hc : c'.mode = .user ∧ c'.currentShard = i ∧ c'.shard = (c.switch i).shard) :
    Shift c .schedule c' := by
  obtain ⟨hmode', rfl, hshard⟩ := hc
  refine .enters rfl (by rw [hmode]; decide) hmode' (Control.pick_ready hinv.last_lt hpick) hlt
    fun j hj => ?_
  rw [hshard]
  exact congrArg waitsAt (Control.setShard_of_ne c _ hj)

theorem Shift.suspend (hmode : c.mode = .user) (ha : a.mode = .user) {x : ShardControl}
    {context : SavedContext} (hx : x.state = .ready ∨ x.state = .blocked)
    (hcontext : context = .timerPreempt ∧ gateOf a = .timer ∨
      (context = .sysYield ∨ ∃ ch ep buf maxLen, context = .channelRecv ch ep buf maxLen) ∧
        gateOf a = .syscall) :
    Shift c a (c.suspend c.currentShard x context) := by
  refine .leaves ha hmode (by simp [Control.suspend]) ?_ fun j hj =>
    congrArg waitsAt (Control.setShard_of_ne c _ hj)
  have hshard : (c.suspend c.currentShard x context).shard c.currentShard =
      { x with savedContext := context } := Control.setShard_self ..
  have hlive : x.state.isLive = true ∧ x.state ≠ .exited := by
    rcases hx with h | h <;> rw [h] <;> decide
  rw [hshard, if_neg hlive.2]
  unfold waitsAt
  rw [if_pos hlive.1]
  rcases hcontext with ⟨rfl, hg⟩ | ⟨rfl | ⟨ch, ep, buf, maxLen, rfl⟩, hg⟩ <;> rw [hg]

/-- One step of the control machine. -/
theorem Shift.of_step (hinv : c.Inv) (h : Control.Step c l c') (hby : l.By a)
    (hmode : a.mode = c.mode) : Shift c a c' := by
  have huser : (a.IsCall ∨ ∃ virt b, a = .store virt b) → c.mode = .user := by
    rw [← hmode]
    rintro (ha | ⟨virt, b, rfl⟩)
    · exact ha.mode
    · rfl
  cases h with
  | silent => exact .stays hby (huser hby) (huser hby) rfl fun _ => rfl
  | pledge | revoke | restrict | grant =>
    exact .stays hby (huser hby) (huser hby) rfl (waitsAt_setShard (waitsAt_congr rfl rfl))
  | take => exact .stays hby (huser hby) (huser hby) rfl fun _ => rfl
  | send =>
    exact .stays hby (huser hby) ((Control.wake_mode ..).trans (huser hby))
      (Control.wake_current ..) fun j => waitsAt_wake _ _ j
  | @block i ch buf maxLen ep uses =>
    obtain rfl := uses.current
    exact .suspend uses.mode hby.mode (.inr rfl) (.inr ⟨.inr ⟨_, _, _, _, rfl⟩, gateOf_call hby⟩)
  | yield mode current lt _ =>
    subst current
    have hrunning := (hinv.user mode).2
    refine .suspend mode (hmode.trans mode) (.inl (if_pos hrunning)) ?_
    rcases hby with ⟨rfl, rfl⟩ | ⟨rfl, hcall⟩
    · exact .inl ⟨rfl, rfl⟩
    · exact .inr ⟨.inl rfl, gateOf_call hcall⟩
  | exit mode current lt =>
    subst current
    refine .leaves hby mode (by simp) ?_ fun j hj =>
      congrArg waitsAt (Control.setShard_of_ne c _ hj)
    simp [Control.setShard, waitsAt, ShardState.isLive]
  | select mode picked lt _ =>
    obtain rfl := hby
    exact .switch hinv mode picked lt ⟨rfl, rfl, rfl⟩
  | selectTake mode picked lt _ _ =>
    obtain rfl := hby
    exact .switch hinv mode picked lt ⟨rfl, rfl, rfl⟩
  | selectEmpty mode picked lt _ _ =>
    obtain rfl := hby
    exact .switch hinv mode picked lt ⟨rfl, rfl, rfl⟩
  | halt mode _ done =>
    refine .halts hby (by rw [mode]; decide) (by simp [Control.finish]) fun j => ?_
    by_cases hj : (c.shard j).state = .exited
    · rw [Control.finish_of_exited hj]
      exact waitsAt_congr (by rw [hj]; rfl) rfl
    · rw [Control.finish_of_ne hj]

theorem eventsOf_leaves (ha : a.mode = .user) (hmode' : c'.mode ≠ .user) : eventsOf c (some a) c' =
    leaveEvents (slot c.currentShard) a (c'.shard c.currentShard).state := by
  cases a with
  | schedule => cases ha
  | syscall | timer | fault | store => exact if_neg hmode'

/-- The roster without a current shard, after the current one has left. -/
theorem rosterOf_leaves (hlt : c.currentShard < maxShards) (hmode' : c'.mode ≠ .user)
    (h : ∀ j, j ≠ c.currentShard → waitsAt (c'.shard j) = waitsAt (c.shard j)) :
    rosterOf c' = { (rosterOf c).put (slot c.currentShard) (waitsAt (c'.shard c.currentShard)) with
      current := none } := by
  refine Roster.ext (if_neg hmode') (funext fun j => (if_neg fun h => hmode' h.1).trans ?_)
  by_cases hj : j = slot c.currentShard
  · rw [hj, Roster.put_self, slot_val hlt]
  · have hne : j.val ≠ c.currentShard := fun h => hj ((eq_slot hlt).mpr h)
    exact (h j hne).trans ((if_neg hj).trans (if_neg fun h => hj h.2)).symm

theorem rosterOf_enters (hlt : c'.currentShard < maxShards) (hmode : c.mode ≠ .user)
    (hmode' : c'.mode = .user)
    (h : ∀ j, j ≠ c'.currentShard → waitsAt (c'.shard j) = waitsAt (c.shard j)) :
    rosterOf c' = { (rosterOf c).put (slot c'.currentShard) .user with
      current := some (slot c'.currentShard) } := by
  refine Roster.ext (if_pos hmode') (funext fun j => ?_)
  by_cases hj : j = slot c'.currentShard
  · rw [hj, Roster.put_self]
    exact if_pos ⟨hmode', rfl⟩
  · have hne : j.val ≠ c'.currentShard := fun h => hj ((eq_slot hlt).mpr h)
    exact (if_neg fun h => hj h.2).trans ((h j hne).trans
      ((if_neg hj).trans (if_neg fun h => hmode h.1)).symm)

theorem rosterOf_eq (hmode : c'.mode = .user ↔ c.mode = .user)
    (hcurrent : c.mode = .user → c'.currentShard = c.currentShard)
    (h : ∀ j, waitsAt (c'.shard j) = waitsAt (c.shard j)) : rosterOf c' = rosterOf c := by
  unfold rosterOf
  by_cases hm : c.mode = .user
  · simp only [hmode, hcurrent hm, h]
  · simp only [hmode, hm, false_and, if_false, h]

/-- **The events of an action lead to the roster after it.** -/
theorem rosterOf_action (hinv : c.Inv) (h : Shift c a c') :
    rosterOf c' = (eventsOf c (some a) c').foldl Roster.next (rosterOf c) := by
  cases h with
  | stays action mode mode' current waits =>
    rw [rosterOf_eq ⟨fun _ => mode, fun _ => mode'⟩ (fun _ => current) waits]
    rcases action with hcall | ⟨virt, b, rfl⟩
    · cases a with
      | syscall =>
        have hloc : (rosterOf c).loc (slot c.currentShard) = .user := if_pos ⟨mode, rfl⟩
        rw [eventsOf, if_pos mode']
        change _ = ((rosterOf c).put _ _).put _ Loc.user
        rw [Roster.put_put, ← hloc, Roster.put_loc]
      | timer | fault | store | schedule => exact hcall.elim
    · have hnone : eventsOf c (some (.store virt b)) c' = [] := if_pos mode'
      rw [hnone]
      rfl
  | leaves action mode mode' loc waits =>
    rw [rosterOf_leaves (hinv.user mode).1 mode' waits, eventsOf_leaves action mode', loc,
      leaveEvents]
    split_ifs
    · exact (Roster.next_exit _ _ _).symm
    · exact (Roster.next_yield _ _ _).symm
  | enters action mode mode' ready lt waits =>
    subst action
    rw [rosterOf_enters lt mode mode' waits, eventsOf, if_pos mode']
    cases (c.shard c'.currentShard).savedContext <;>
      exact congrArg (fun x : Roster _ => { x with current := some (slot c'.currentShard) })
        (Roster.put_put _ _ _ _).symm
  | halts action mode mode' waits =>
    subst action
    rw [rosterOf_eq ⟨fun h => absurd h mode', fun h => absurd h mode⟩ (fun h => absurd h mode)
      waits, eventsOf, if_neg mode']
    rfl

/-! ## Which events an action has -/

/-- The events after which a shard is on its way to user mode, or there. -/
inductive Event.Back (i : Fin maxShards) : Event (Fin maxShards) → Prop
  | dispatch : Back i (.dispatch i)
  | sysret : Back i (.sysret i)
  | iret : Back i (.iret i)

theorem Event.Back.moves {i : Fin maxShards} {ev : Event (Fin maxShards)} (h : ev.Back i) :
    ev.moves = true := by
  cases h <;> rfl

theorem eventsOf_stays {ev : Event (Fin maxShards)} (ha : a.IsCall ∨ ∃ virt b, a = .store virt b)
    (hmode' : c'.mode = .user) (h : ev ∈ eventsOf c (some a) c') :
    ev = .syscall (slot c.currentShard) ∨ ev = .sysret (slot c.currentShard) := by
  rcases ha with hcall | ⟨virt, b, rfl⟩
  · cases a with
    | syscall =>
      rw [eventsOf, if_pos hmode'] at h
      exact List.mem_pair.mp h
    | timer | fault | store | schedule => exact hcall.elim
  · have hnone : eventsOf c (some (.store virt b)) c' = [] := if_pos hmode'
    rw [hnone] at h
    cases h

/-- A shard that is let back is in user mode after the action. -/
theorem Shift.user_of_back (h : Shift c a c') {i : Fin maxShards} {ev : Event (Fin maxShards)}
    (hev : ev ∈ eventsOf c (some a) c') (hback : ev.Back i) :
    c'.mode = .user ∧ i = slot c'.currentShard := by
  cases h with
  | stays action _ mode' current =>
    refine ⟨mode', ?_⟩
    rw [current]
    rcases eventsOf_stays action mode' hev with rfl | rfl
    · cases hback
    · cases hback
      rfl
  | leaves action _ mode' =>
    rw [eventsOf_leaves action mode'] at hev
    rcases List.mem_pair.mp hev with rfl | rfl
    · cases hg : gateOf a <;> rw [hg] at hback <;> cases hback
    · split_ifs at hback <;> cases hback
  | enters action _ mode' =>
    subst action
    rw [eventsOf, if_pos mode'] at hev
    refine ⟨mode', ?_⟩
    cases hc : (c.shard c'.currentShard).savedContext <;> rw [hc] at hev <;>
      rcases List.mem_pair.mp hev with rfl | rfl <;> cases hback <;> rfl
  | halts action _ mode' =>
    subst action
    rw [eventsOf, if_neg mode'] at hev
    cases hev

/-- The shard that lets go is the current one, and the supervisor goes on. -/
theorem Shift.idle_of_leave (h : Shift c a c') {i : Fin maxShards}
    (hev : .yield i ∈ eventsOf c (some a) c' ∨ .exit i ∈ eventsOf c (some a) c') :
    c'.mode ≠ .user ∧ i = slot c.currentShard := by
  cases h with
  | stays action _ mode' =>
    rcases hev with hev | hev <;> rcases eventsOf_stays action mode' hev with h | h <;> cases h
  | leaves action _ mode' =>
    refine ⟨mode', ?_⟩
    rw [eventsOf_leaves action mode'] at hev
    rcases hev with hev | hev <;> rcases List.mem_pair.mp hev with h | h
    · cases hg : gateOf a <;> rw [hg] at h <;> cases h
    · split_ifs at h
      cases h
      rfl
    · cases hg : gateOf a <;> rw [hg] at h <;> cases h
    · split_ifs at h
      cases h
      rfl
  | enters action _ mode' =>
    subst action
    rw [eventsOf, if_pos mode'] at hev
    cases hc : (c.shard c'.currentShard).savedContext <;> rw [hc] at hev <;>
      rcases hev with hev | hev <;> rcases List.mem_pair.mp hev with h | h <;> cases h
  | halts action _ mode' =>
    subst action
    rw [eventsOf, if_neg mode'] at hev
    rcases hev with h | h <;> cases h

/-- A system call and the timer interrupt enter the kernel, by their gate. -/
theorem Shift.entry_mem (h : Shift c a c') (ha : a = .timer ∨ a.IsCall) :
    (gateOf a).event (slot c.currentShard) ∈ eventsOf c (some a) c' := by
  cases h with
  | stays action _ mode' =>
    cases a with
    | syscall =>
      rw [eventsOf, if_pos mode']
      exact List.mem_cons_self
    | timer => rcases action with h | ⟨_, _, h⟩ <;> cases h
    | fault | store | schedule => rcases ha with h | h <;> cases h
  | leaves action _ mode' =>
    rw [eventsOf_leaves action mode']
    exact List.mem_cons_self
  | enters action | halts action =>
    subst action
    rcases ha with h | h <;> cases h

theorem leave_mem (c c' : Control) (ha : a.mode = .user) (hmode' : c'.mode ≠ .user) :
    (if (c'.shard c.currentShard).state = .exited then .exit (slot c.currentShard)
      else .yield (slot c.currentShard)) ∈ eventsOf c (some a) c' := by
  rw [eventsOf_leaves ha hmode']
  exact List.mem_cons_of_mem _ List.mem_cons_self

theorem choice_mem (c c' : Control) (hmode' : c'.mode = .user) :
    .dispatch (slot c'.currentShard) ∈ eventsOf c (some .schedule) c' ∨
      .first (slot c'.currentShard) ∈ eventsOf c (some .schedule) c' := by
  rw [eventsOf, if_pos hmode']
  cases (c.shard c'.currentShard).savedContext with
  | firstEntry => exact .inr List.mem_cons_self
  | timerPreempt | sysYield | channelRecv => exact .inl List.mem_cons_self

end
end Coconut.Switching
