import Coconut.ByteMemory
import Mathlib.Tactic.Common
import Mathlib.Data.List.Basic

/-!
# The DMAR walk

`iommu::init` walks the remapping structures of the DMAR table: each begins with its type
and its length, and the next one follows behind that length.  `process_drhd` is called
for every structure that describes a remapping unit, reads its flags and the address of
its registers, and sets the unit up; set-up maps device pages and waits for the hardware,
so it may stop the supervisor.  Whether it does is left open (`panics`).

The walk is recorded as a `Log`: the bytes of the table it reads, by offset and size, and
the calls of `process_drhd`.  What the table holds is the chain of structures from
offset 48 on (`structures`).
-/
namespace Coconut.Dmar

/-- `DMAR_TYPE_DRHD`. -/
@[simp] def typeDrhd : Nat := 0

/-- The fixed part of a DRHD: type, length, flags, size, segment and register base. -/
@[simp] def drhdSize : Nat := 16

/-- A remapping structure: where it lies in the table, its type and its length. -/
structure Remapping where
  offset : Nat
  kind : Nat
  length : Nat
  deriving DecidableEq, Repr

/-- A remapping unit as `process_drhd` reads it. -/
structure Drhd where
  offset : Nat
  flags : Nat
  regBase : Nat
  deriving DecidableEq, Repr

structure Log where
  /-- Offset and size of every read of the table. -/
  reads : List (Nat × Nat)
  /-- The calls of `process_drhd`. -/
  calls : List Drhd
  /-- The last call did not return. -/
  halted : Bool

/-- What `process_drhd` reads of the structure at `offset`. -/
def drhdAt (m : Memory) (dmar offset : Nat) : Drhd where
  offset := offset
  flags := m.readLE (dmar + (offset + 4)) 1
  regBase := m.readLE (dmar + (offset + 8)) 8

/-- Process a single DRHD; `panics` says whether setting up the unit stops the supervisor,
after the calls made so far. -/
def processDrhd (panics : List Drhd → Drhd → Bool) (m : Memory) (dmar offset : Nat)
    (log : Log) : Log where
  reads := log.reads ++ [(offset + 4, 1), (offset + 8, 8)]
  calls := log.calls ++ [drhdAt m dmar offset]
  halted := panics log.calls (drhdAt m dmar offset)

/-- The loop of `iommu::init`. -/
def walk (panics : List Drhd → Drhd → Bool) (m : Memory) (dmar totalLen offset : Nat)
    (log : Log) : Log :=
  if _hin : offset + 4 ≤ totalLen then
    let structType := m.readLE (dmar + offset) 2
    let structLen := m.readLE (dmar + (offset + 2)) 2
    let log := { log with reads := log.reads ++ [(offset, 2), (offset + 2, 2)] }
    if _hlen : structLen < 4 ∨ totalLen < offset + structLen then log
    else if structType = typeDrhd then
      let log := processDrhd panics m dmar offset log
      if log.halted then log else walk panics m dmar totalLen (offset + structLen) log
    else walk panics m dmar totalLen (offset + structLen) log
  else log
termination_by totalLen - offset
decreasing_by all_goals omega

/-- `iommu::init` on the table at `dmar`: the structures start at offset 48. -/
def init (panics : List Drhd → Drhd → Bool) (m : Memory) (dmar dmarLen : Nat) : Log :=
  walk panics m dmar dmarLen 48 ⟨[], [], false⟩

/-! ## The structures of a table -/

variable (m : Memory) (dmar totalLen : Nat)

/-- The chain of structures from `offset` on that have their header in the table, are at
least `minLen` bytes long and end inside the table. -/
def structures (minLen offset : Nat) : List Remapping :=
  if _hin : offset + 4 ≤ totalLen then
    let structLen := m.readLE (dmar + (offset + 2)) 2
    if _hlen : structLen < 4 ∨ structLen < minLen ∨ totalLen < offset + structLen then []
    else ⟨offset, m.readLE (dmar + offset) 2, structLen⟩ :: structures minLen (offset + structLen)
  else []
termination_by totalLen - offset

/-- The units among the structures. -/
def drhds (l : List Remapping) : List Drhd :=
  (l.filter fun s => s.kind = typeDrhd).map fun s => drhdAt m dmar s.offset

/-- The table is read inside its length only, and `process_drhd` is called once for each
DRHD of the maximal chain of structures that are as long as a DRHD, in order, unless one
of the calls does not return. -/
structure WalkOk (log : Log) : Prop where
  inside : ∀ r ∈ log.reads, r.1 + r.2 ≤ totalLen
  calls : log.calls <+: drhds m dmar (structures m dmar totalLen drhdSize 48)
  complete : log.halted = false → log.calls = drhds m dmar (structures m dmar totalLen drhdSize 48)

/-- What a walk from `offset` on adds to the log. -/
structure Adds (panics : List Drhd → Drhd → Bool) (offset : Nat) (log log' : Log) : Prop where
  reads : ∀ r ∈ log'.reads, r ∈ log.reads ∨ r.1 + r.2 ≤ totalLen ∨
    ∃ s ∈ structures m dmar totalLen 0 offset, s.kind = typeDrhd ∧
      (r = (s.offset + 4, 1) ∨ r = (s.offset + 8, 8))
  calls : ∃ done, log'.calls = log.calls ++ done ∧
    done <+: drhds m dmar (structures m dmar totalLen 0 offset) ∧
    (log'.halted = false → done = drhds m dmar (structures m dmar totalLen 0 offset))
  returns : (∀ calls unit, panics calls unit = false) → log'.halted = false

/-! ## What the loop does -/

variable {m dmar totalLen}

theorem structures_mem {minLen : Nat} : ∀ (n offset : Nat), totalLen - offset = n →
    ∀ s ∈ structures m dmar totalLen minLen offset,
      minLen ≤ s.length ∧ s.offset + s.length ≤ totalLen := by
  intro n
  induction n using Nat.strong_induction_on with
  | _ n ih =>
    intro offset hn s hs
    rw [structures] at hs
    split at hs
    · simp only at hs
      split at hs
      · cases hs
      · rename_i hin hlen
        rcases List.mem_cons.mp hs with rfl | hs
        · exact ⟨by simp only; omega, by simp only; omega⟩
        · exact ih _ (by omega) _ rfl s hs
    · cases hs

/-- The longer structures are the first ones of the chain, up to a shorter one. -/
theorem structures_eq_takeWhile (minLen : Nat) : ∀ (n offset : Nat), totalLen - offset = n →
    structures m dmar totalLen minLen offset =
      (structures m dmar totalLen 0 offset).takeWhile fun s => minLen ≤ s.length := by
  intro n
  induction n using Nat.strong_induction_on with
  | _ n ih =>
    intro offset hn
    rw [structures, structures]
    by_cases hin : offset + 4 ≤ totalLen
    · rw [dif_pos hin, dif_pos hin]
      simp only
      by_cases hend : m.readLE (dmar + (offset + 2)) 2 < 4 ∨
          totalLen < offset + m.readLE (dmar + (offset + 2)) 2
      · rw [dif_pos (by omega), dif_pos (by omega), List.takeWhile_nil]
      · rw [dif_neg (show ¬ (_ < 4 ∨ _ < 0 ∨ _) by omega), List.takeWhile_cons]
        by_cases hmin : m.readLE (dmar + (offset + 2)) 2 < minLen
        · rw [dif_pos (by omega), decide_eq_false (by simp only; omega)]
          rfl
        · rw [dif_neg (by omega), decide_eq_true (by simp only; omega), ih _ (by omega) _ rfl]
          rfl
    · rw [dif_neg hin, dif_neg hin, List.takeWhile_nil]

theorem drhds_append (l l' : List Remapping) :
    drhds m dmar (l ++ l') = drhds m dmar l ++ drhds m dmar l' := by
  rw [drhds, List.filter_append, List.map_append]
  rfl

theorem structures_done {offset : Nat} (h : ¬ offset + 4 ≤ totalLen ∨
    m.readLE (dmar + (offset + 2)) 2 < 4 ∨ totalLen < offset + m.readLE (dmar + (offset + 2)) 2) :
    structures m dmar totalLen 0 offset = [] := by
  rw [structures]
  by_cases hin : offset + 4 ≤ totalLen
  · rw [dif_pos hin]
    exact dif_pos (by omega)
  · rw [dif_neg hin]

theorem structures_next {offset : Nat} (hin : offset + 4 ≤ totalLen)
    (hlen : ¬ (m.readLE (dmar + (offset + 2)) 2 < 4 ∨
      totalLen < offset + m.readLE (dmar + (offset + 2)) 2)) :
    structures m dmar totalLen 0 offset =
      ⟨offset, m.readLE (dmar + offset) 2, m.readLE (dmar + (offset + 2)) 2⟩ ::
        structures m dmar totalLen 0 (offset + m.readLE (dmar + (offset + 2)) 2) := by
  rw [structures, dif_pos hin]
  exact dif_neg (by omega)

theorem drhds_cons (s : Remapping) (l : List Remapping) : drhds m dmar (s :: l) =
    if s.kind = typeDrhd then drhdAt m dmar s.offset :: drhds m dmar l else drhds m dmar l := by
  rw [drhds, List.filter_cons]
  by_cases hkind : s.kind = typeDrhd
  · rw [if_pos (decide_eq_true hkind), if_pos hkind]
    rfl
  · rw [if_neg (by rwa [decide_eq_true_eq]), if_neg hkind]
    rfl

variable {panics : List Drhd → Drhd → Bool}

/-- A walk that ends here. -/
theorem Adds.stop {offset : Nat} {log log' : Log}
    (hdone : structures m dmar totalLen 0 offset = [])
    (hreads : ∀ r ∈ log'.reads, r ∈ log.reads ∨ r.1 + r.2 ≤ totalLen)
    (hcalls : log'.calls = log.calls) (hhalted : log'.halted = false) :
    Adds m dmar totalLen panics offset log log' where
  reads r hr := (hreads r hr).imp_right .inl
  calls := ⟨[], by rw [hcalls, List.append_nil], List.nil_prefix, fun _ => by rw [hdone]; rfl⟩
  returns _ := hhalted

/-- A structure that is no DRHD: the walk goes on behind it. -/
theorem Adds.skip {offset : Nat} {s : Remapping} {next : Nat} {log log₁ log' : Log}
    (hnext : structures m dmar totalLen 0 offset = s :: structures m dmar totalLen 0 next)
    (hkind : s.kind ≠ typeDrhd)
    (hreads : ∀ r ∈ log₁.reads, r ∈ log.reads ∨ r.1 + r.2 ≤ totalLen)
    (hcalls : log₁.calls = log.calls) (h : Adds m dmar totalLen panics next log₁ log') :
    Adds m dmar totalLen panics offset log log' where
  reads r hr := by
    rcases h.reads r hr with hr | hr | ⟨s', hs', hrest⟩
    · exact (hreads r hr).imp_right .inl
    · exact .inr (.inl hr)
    · exact .inr (.inr ⟨s', hnext ▸ List.mem_cons_of_mem _ hs', hrest⟩)
  calls := by
    obtain ⟨done, hdone, hinit, hall⟩ := h.calls
    refine ⟨done, by rw [hdone, hcalls], ?_⟩
    rw [hnext, drhds_cons, if_neg hkind]
    exact ⟨hinit, hall⟩
  returns := h.returns

/-- A DRHD whose set-up returns: one call more. -/
theorem Adds.call {offset : Nat} {s : Remapping} {next : Nat} {log log₁ log' : Log}
    (hnext : structures m dmar totalLen 0 offset = s :: structures m dmar totalLen 0 next)
    (hkind : s.kind = typeDrhd)
    (hreads : ∀ r ∈ log₁.reads, r ∈ log.reads ∨ r.1 + r.2 ≤ totalLen ∨
      r = (s.offset + 4, 1) ∨ r = (s.offset + 8, 8))
    (hcalls : log₁.calls = log.calls ++ [drhdAt m dmar s.offset])
    (h : Adds m dmar totalLen panics next log₁ log') :
    Adds m dmar totalLen panics offset log log' where
  reads r hr := by
    rcases h.reads r hr with hr | hr | ⟨s', hs', hrest⟩
    · exact (hreads r hr).imp_right fun hr => hr.imp_right fun hr =>
        ⟨s, hnext ▸ List.mem_cons_self, hkind, hr⟩
    · exact .inr (.inl hr)
    · exact .inr (.inr ⟨s', hnext ▸ List.mem_cons_of_mem _ hs', hrest⟩)
  calls := by
    obtain ⟨done, hdone, hinit, hall⟩ := h.calls
    refine ⟨drhdAt m dmar s.offset :: done, ?_, ?_⟩
    · rw [hdone, hcalls, List.append_assoc, List.singleton_append]
    · rw [hnext, drhds_cons, if_pos hkind]
      exact ⟨(List.prefix_cons_inj _).mpr hinit, fun hh => by rw [hall hh]⟩
  returns := h.returns

/-- A DRHD whose set-up does not return. -/
theorem Adds.halt {offset : Nat} {s : Remapping} {next : Nat} {log log' : Log}
    (hnext : structures m dmar totalLen 0 offset = s :: structures m dmar totalLen 0 next)
    (hkind : s.kind = typeDrhd)
    (hreads : ∀ r ∈ log'.reads, r ∈ log.reads ∨ r.1 + r.2 ≤ totalLen ∨
      r = (s.offset + 4, 1) ∨ r = (s.offset + 8, 8))
    (hcalls : log'.calls = log.calls ++ [drhdAt m dmar s.offset]) (hhalted : log'.halted = true)
    (hpanics : ¬ ∀ calls unit, panics calls unit = false) :
    Adds m dmar totalLen panics offset log log' where
  reads r hr := (hreads r hr).imp_right fun hr => hr.imp_right fun hr =>
    ⟨s, hnext ▸ List.mem_cons_self, hkind, hr⟩
  calls := by
    refine ⟨[drhdAt m dmar s.offset], hcalls, ?_,
      fun hh => absurd (hhalted.symm.trans hh) (by decide)⟩
    rw [hnext, drhds_cons, if_pos hkind]
    exact (List.prefix_cons_inj _).mpr List.nil_prefix
  returns hnever := absurd hnever hpanics

theorem walk_adds : ∀ (n offset : Nat), totalLen - offset = n → ∀ log : Log, log.halted = false →
    Adds m dmar totalLen panics offset log (walk panics m dmar totalLen offset log) := by
  intro n
  induction n using Nat.strong_induction_on with
  | _ n ih =>
    intro offset hn log hlog
    rw [walk]
    by_cases hin : offset + 4 ≤ totalLen
    · rw [dif_pos hin]
      simp only
      generalize hlog₁ :
        (⟨log.reads ++ [(offset, 2), (offset + 2, 2)], log.calls, log.halted⟩ : Log) = log₁
      have hcalls : log₁.calls = log.calls := by rw [← hlog₁]
      have hhalted : log₁.halted = false := by rw [← hlog₁]; exact hlog
      have hheader : ∀ r ∈ log₁.reads, r ∈ log.reads ∨ r.1 + r.2 ≤ totalLen := by
        intro r hr
        rw [← hlog₁] at hr
        rcases List.mem_append.mp hr with hr | hr
        · exact .inl hr
        · rcases List.mem_pair.mp hr with rfl | rfl
          · exact .inr (by simp only; omega)
          · exact .inr (by simp only; omega)
      by_cases hlen : m.readLE (dmar + (offset + 2)) 2 < 4 ∨
          totalLen < offset + m.readLE (dmar + (offset + 2)) 2
      · rw [dif_pos hlen]
        exact .stop (structures_done (.inr hlen)) hheader hcalls hhalted
      · rw [dif_neg hlen]
        have hnext := structures_next hin hlen
        by_cases hkind : m.readLE (dmar + offset) 2 = typeDrhd
        · rw [if_pos hkind]
          have hreads : ∀ r ∈ (processDrhd panics m dmar offset log₁).reads,
              r ∈ log.reads ∨ r.1 + r.2 ≤ totalLen ∨ r = (offset + 4, 1) ∨ r = (offset + 8, 8) := by
            intro r hr
            rcases List.mem_append.mp hr with hr | hr
            · exact (hheader r hr).imp_right .inl
            · exact .inr (.inr (List.mem_pair.mp hr))
          have hmade : (processDrhd panics m dmar offset log₁).calls =
              log.calls ++ [drhdAt m dmar offset] := by rw [← hcalls]; rfl
          by_cases hstop : (processDrhd panics m dmar offset log₁).halted = true
          · rw [if_pos hstop]
            exact .halt hnext hkind hreads hmade hstop fun hnever =>
              absurd ((hnever _ _).symm.trans hstop) (by decide)
          · rw [if_neg hstop]
            exact .call hnext hkind hreads hmade (ih _ (by omega) _ rfl _ (by simpa using hstop))
        · rw [if_neg hkind]
          exact .skip hnext hkind hheader hcalls (ih _ (by omega) _ rfl _ hhalted)
    · rw [dif_neg hin]
      exact .stop (structures_done (.inl hin)) (fun r hr => .inl hr) rfl hlog
/-! ## The walk of a table -/

/-- The walk stays inside its table and calls `process_drhd` for the units of the
well-formed structures exactly when no unit stands at or behind the first structure that
is shorter than a DRHD.  The loop ends for every table, by its definition. -/
theorem drhd_walk_ok_iff (m : Memory) (dmar totalLen : Nat) :
    (∀ panics, WalkOk m dmar totalLen (init panics m dmar totalLen)) ↔
      ∀ s ∈ (structures m dmar totalLen 0 48).dropWhile (fun s => drhdSize ≤ s.length),
        s.kind ≠ typeDrhd := by
  have hinit : structures m dmar totalLen drhdSize 48 = _ :=
    structures_eq_takeWhile drhdSize (totalLen - 48) 48 rfl
  have hsplit := List.takeWhile_append_dropWhile (p := fun s : Remapping => drhdSize ≤ s.length)
    (l := structures m dmar totalLen 0 48)
  rw [← hinit] at hsplit
  generalize (structures m dmar totalLen 0 48).dropWhile _ = rest at hsplit ⊢
  have hunits : drhds m dmar (structures m dmar totalLen 0 48) =
      drhds m dmar (structures m dmar totalLen drhdSize 48) ++ drhds m dmar rest := by
    rw [← drhds_append, hsplit]
  constructor
  · intro h s hs hkind
    -- Every set-up returns, so every unit of the chain is called.
    have hwalk : Adds m dmar totalLen (fun _ _ => false) 48 ⟨[], [], false⟩
      (init (fun _ _ => false) m dmar totalLen) := walk_adds _ 48 rfl _ rfl
    have hreturns := hwalk.returns fun _ _ => rfl
    obtain ⟨done, hdone, -, hall⟩ := hwalk.calls
    have hcalls := (h fun _ _ => false).complete hreturns
    rw [hdone, hall hreturns, hunits, List.nil_append] at hcalls
    have hnone : drhds m dmar rest = [] :=
      List.append_cancel_left (hcalls.trans (List.append_nil _).symm)
    have hmem : drhdAt m dmar s.offset ∈ drhds m dmar rest :=
      List.mem_map_of_mem (List.mem_filter.mpr ⟨hs, decide_eq_true hkind⟩)
    rw [hnone] at hmem
    cases hmem
  · intro h panics
    have hwalk : Adds m dmar totalLen panics 48 ⟨[], [], false⟩
      (init panics m dmar totalLen) := walk_adds _ 48 rfl _ rfl
    have hnone : drhds m dmar rest = [] := by
      rw [drhds, List.filter_eq_nil_iff.mpr fun s hs => by rw [decide_eq_true_eq]; exact h s hs]
      rfl
    rw [hnone, List.append_nil] at hunits
    obtain ⟨done, hdone, hdoneInit, hall⟩ := hwalk.calls
    rw [List.nil_append] at hdone
    rw [hunits, ← hdone] at hdoneInit hall
    refine ⟨fun r hr => ?_, hdoneInit, hall⟩
    rcases hwalk.reads r hr with hr | hr | ⟨s, hs, hkind, hr⟩
    · cases hr
    · exact hr
    · -- A unit of the chain is one of the long structures, and these end inside the table.
      have hlong : s ∈ structures m dmar totalLen drhdSize 48 := by
        rw [← hsplit] at hs
        exact (List.mem_append.mp hs).resolve_right fun hs => h s hs hkind
      have hend := structures_mem _ _ rfl s hlong
      simp only [drhdSize] at hend
      rcases hr with rfl | rfl
      · simp only
        omega
      · simp only
        omega

/-- A table of 52 bytes whose only structure is a DRHD of four bytes. -/
def truncated : Memory := fun a => if a = 0x1032 then 4 else 0

/-- Its flags and register base are read behind the table. -/
theorem truncated_read_outside :
    (init (fun _ _ => false) truncated 0x1000 52).reads = [(48, 2), (50, 2), (52, 1), (56, 8)] ∧
      (init (fun _ _ => false) truncated 0x1000 52).calls = [⟨48, 0, 0⟩] ∧
      structures truncated 0x1000 52 drhdSize 48 = [] ∧
      ¬ WalkOk truncated 0x1000 52 (init (fun _ _ => false) truncated 0x1000 52) := by
  have hrun : init (fun _ _ => false) truncated 0x1000 52 =
      ⟨[(48, 2), (50, 2), (52, 1), (56, 8)], [⟨48, 0, 0⟩], false⟩ := by
    rw [init, walk, dif_pos (by decide)]
    simp only
    rw [dif_neg (by decide), if_pos (by decide), if_neg (by decide), walk, dif_neg (by decide)]
    rfl
  rw [hrun]
  refine ⟨rfl, rfl, ?_, fun h => absurd (h.inside (52, 1) (by decide)) (by decide)⟩
  rw [structures, dif_pos (by decide)]
  exact dif_pos (by decide)

end Coconut.Dmar
