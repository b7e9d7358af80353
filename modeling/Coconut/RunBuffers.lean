import Coconut.Packing
import Coconut.Shared
import Mathlib.Data.List.Forall2
import Mathlib.Algebra.BigOperators.Ring.List
import Mathlib.Algebra.Ring.Nat

/-!
# The run-state buffers of the inference shards

`main` of `llama-inference` and of `llama-pipeline` reads the model file to the start of a
heap of 64 pages, takes the sizes of twelve buffers from the model's header, and carves
the buffers out of the rest with `bump_alloc`.  A request that does not fit returns the
null pointer and leaves the heap as it is; afterwards only the first and the last pointer
are tested.

Sizes are products of 32-bit integers, which wrap around in the machine, and are extended
with their sign to `size_t`.  The model starts once the file is in the heap and its header
has been read.
-/
namespace Coconut.RunBuffers

open Packing

/-- `HEAP_VA`. -/
@[simp] def heapVa : Nat := 0x100000

/-- `HEAP_PAGES * 4096`. -/
@[simp] def heapBytes : Nat := 64 * 4096

/-- The allocator's state: the next free byte and the end of the heap. -/
structure Heap where
  ptr : BitVec 64
  limit : BitVec 64

/-- Bump allocation; zero is the null pointer. -/
def bumpAlloc (size : BitVec 64) : StateM Heap (BitVec 64) := fun h =>
  let aligned := (size + 3#64) &&& ~~~3#64
  if h.limit < h.ptr + aligned then (0#64, h) else (h.ptr, { h with ptr := h.ptr + aligned })

/-- The seven integers at the start of a model file. -/
structure Header where
  dim : BitVec 32
  hiddenDim : BitVec 32
  nLayers : BitVec 32
  nHeads : BitVec 32
  nKvHeads : BitVec 32
  vocabSize : BitVec 32
  seqLen : BitVec 32

namespace Header

variable (cfg : Header)

/-- The vocabulary size; its sign only says whether the classifier has its own weights. -/
def vocab : BitVec 32 := if cfg.vocabSize.toInt < 0 then -cfg.vocabSize else cfg.vocabSize

def headSize : BitVec 32 := cfg.dim.sdiv cfg.nHeads

def kvDim : BitVec 32 := cfg.nKvHeads * cfg.headSize

end Header

/-- The layers of a pipeline stage, as its configuration page gives them. -/
structure Stage where
  layersStart : BitVec 32
  layersEnd : BitVec 32
  le : layersStart.toNat ≤ layersEnd.toNat

/-- The two programs. -/
inductive Program where
  | inference
  | pipeline (stage : Stage)

/-- The layers the program keeps a key-value cache for. -/
def Program.kvLayers (cfg : Header) : Program → BitVec 32
  | inference => cfg.nLayers
  | pipeline stage => stage.layersEnd - stage.layersStart

/-- The pointers of the run state. -/
structure RunState where
  x : BitVec 64
  xb : BitVec 64
  xb2 : BitVec 64
  hb : BitVec 64
  hb2 : BitVec 64
  q : BitVec 64
  k : BitVec 64
  v : BitVec 64
  att : BitVec 64
  logits : BitVec 64
  keyCache : BitVec 64
  valueCache : BitVec 64

/-- An `int` as a `size_t`. -/
def sizeT (n : BitVec 32) : BitVec 64 := n.signExtend 64

/-- Step 5 of `main`: allocate the run state. -/
def allocRunState (p : Program) (cfg : Header) : StateM Heap RunState := do
  let x ← bumpAlloc (sizeT (cfg.dim * 4#32))
  let xb ← bumpAlloc (sizeT (cfg.dim * 4#32))
  let xb2 ← bumpAlloc (sizeT (cfg.dim * 4#32))
  let hb ← bumpAlloc (sizeT (cfg.hiddenDim * 4#32))
  let hb2 ← bumpAlloc (sizeT (cfg.hiddenDim * 4#32))
  let q ← bumpAlloc (sizeT (cfg.dim * 4#32))
  let k ← bumpAlloc (sizeT (cfg.kvDim * 4#32))
  let v ← bumpAlloc (sizeT (cfg.kvDim * 4#32))
  let att ← bumpAlloc (sizeT (cfg.nHeads * cfg.seqLen * 4#32))
  let logits ← bumpAlloc (sizeT (cfg.vocab * 4#32))
  let keyCache ← bumpAlloc (sizeT (p.kvLayers cfg * cfg.seqLen * cfg.kvDim * 4#32))
  let valueCache ← bumpAlloc (sizeT (p.kvLayers cfg * cfg.seqLen * cfg.kvDim * 4#32))
  return { x, xb, xb2, hb, hb2, q, k, v, att, logits, keyCache, valueCache }

/-- How `main` gives up. -/
inductive Failure where
  /-- "heap OOM for model" -/
  | oomModel
  /-- "heap OOM for run state" -/
  | oomRunState
  deriving DecidableEq

/-- The heap when `main` starts. -/
def Heap.fresh : Heap := ⟨BitVec.ofNat 64 heapVa, BitVec.ofNat 64 (heapVa + heapBytes)⟩

/-- `main` up to the test of the run state. -/
def main (p : Program) (cfg : Header) (fileSize : BitVec 64) : Except Failure RunState :=
  let (modelData, h) := bumpAlloc fileSize Heap.fresh
  if modelData = 0#64 then .error .oomModel
  else
    let s := (allocRunState p cfg h).1
    if s.x = 0#64 ∨ s.valueCache = 0#64 then .error .oomRunState else .ok s

/-! ## What the buffers should be -/

/-- All dimensions are positive. -/
structure Header.Positive (cfg : Header) : Prop where
  dim : 0 < cfg.dim.toInt
  hiddenDim : 0 < cfg.hiddenDim.toInt
  nLayers : 0 < cfg.nLayers.toInt
  nHeads : 0 < cfg.nHeads.toInt
  nKvHeads : 0 < cfg.nKvHeads.toInt
  vocabSize : 0 < cfg.vocabSize.toInt
  seqLen : 0 < cfg.seqLen.toInt

/-- The pointers, in the order of allocation. -/
def RunState.pointers (s : RunState) : List (BitVec 64) :=
  [s.x, s.xb, s.xb2, s.hb, s.hb2, s.q, s.k, s.v, s.att, s.logits, s.keyCache, s.valueCache]

/-- The size of a key or value row, without overflow. -/
def Header.kvSize (cfg : Header) : Nat := cfg.nKvHeads.toNat * (cfg.dim.toNat / cfg.nHeads.toNat)

/-- The bytes the buffers need, in the same order and without overflow. -/
def needs (p : Program) (cfg : Header) : List Nat :=
  let cache := (p.kvLayers cfg).toNat * cfg.seqLen.toNat * cfg.kvSize
  [cfg.dim.toNat, cfg.dim.toNat, cfg.dim.toNat, cfg.hiddenDim.toNat, cfg.hiddenDim.toNat,
    cfg.dim.toNat, cfg.kvSize, cfg.kvSize, cfg.nHeads.toNat * cfg.seqLen.toNat,
    cfg.vocabSize.toNat, cache, cache].map (· * 4)

/-- The buffers with the sizes they need. -/
def RunState.blocks (s : RunState) (p : Program) (cfg : Header) : List Block :=
  List.zipWith Block.mk (s.pointers.map BitVec.toNat) (needs p cfg)

/-- All twelve buffers are there, lie in the heap behind the model data with their full
sizes, and share no address. -/
structure RunState.Sound (s : RunState) (p : Program) (cfg : Header) (fileSize : BitVec 64) :
    Prop where
  nonNull : ∀ a ∈ s.pointers, a ≠ 0#64
  inside : ∀ b ∈ s.blocks p cfg, b.Inside (heapVa + fileSize.toNat) (heapVa + heapBytes)
  apart : (s.blocks p cfg).Pairwise Block.Apart


/-! ## The allocator -/

theorem aligned_toNat {size : BitVec 64} (h : size.toNat + 3 < 2 ^ 64) :
    ((size + 3#64) &&& ~~~3#64).toNat = (size.toNat + 3) / 4 * 4 := by
  have hmask : (~~~3#64).toNat = (2 ^ 64 - 1) ^^^ (2 ^ 2 - 1) := by decide
  have hsum : (size + 3#64).toNat = size.toNat + 3 := by
    rw [BitVec.toNat_add]
    exact Nat.mod_eq_of_lt h
  rw [BitVec.toNat_and, hmask, hsum]
  exact and_not_low (w := 64) (k := 2) h (by decide)

/-- A request that fits gets the next free bytes, rounded up to words. -/
theorem bumpAlloc_fits (size : BitVec 64) (h : Heap) (hsize : size.toNat + 3 < 2 ^ 64)
    (hfits : h.ptr.toNat + (size.toNat + 3) / 4 * 4 ≤ h.limit.toNat) :
    ∃ h' : Heap, bumpAlloc size h = (h.ptr, h') ∧ h'.limit = h.limit ∧
      h'.ptr.toNat = h.ptr.toNat + (size.toNat + 3) / 4 * 4 := by
  have hnext : (h.ptr + ((size + 3#64) &&& ~~~3#64)).toNat =
      h.ptr.toNat + (size.toNat + 3) / 4 * 4 := by
    rw [BitVec.toNat_add, aligned_toNat hsize]
    exact Nat.mod_eq_of_lt (Nat.lt_of_le_of_lt hfits h.limit.isLt)
  refine ⟨_, if_neg ?_, rfl, hnext⟩
  rw [BitVec.lt_def, hnext]
  omega

/-- A sequence of requests. -/
def allocAll : List (BitVec 64) → Heap → List (BitVec 64)
  | [], _ => []
  | size :: rest, h => (bumpAlloc size h).1 :: allocAll rest (bumpAlloc size h).2

/-- The integers `main` passes to the allocator. -/
def requests (p : Program) (cfg : Header) : List (BitVec 32) :=
  let cache := p.kvLayers cfg * cfg.seqLen * cfg.kvDim
  [cfg.dim, cfg.dim, cfg.dim, cfg.hiddenDim, cfg.hiddenDim, cfg.dim, cfg.kvDim, cfg.kvDim,
    cfg.nHeads * cfg.seqLen, cfg.vocab, cache, cache].map (· * 4#32)

theorem allocRunState_pointers (p : Program) (cfg : Header) (h : Heap) :
    (allocRunState p cfg h).1.pointers = allocAll ((requests p cfg).map sizeT) h := by
  simp only [allocRunState, requests, allocAll, List.map_cons, List.map_nil]
  -- what the allocator does plays no part
  generalize bumpAlloc = alloc
  rfl

/-! ## The sizes -/

/-- `b` is `n`, up to overflow. -/
def Wraps (b : BitVec 32) (n : Nat) : Prop := b.toNat = n % 2 ^ 32

theorem Wraps.self (b : BitVec 32) : Wraps b b.toNat := (Nat.mod_eq_of_lt b.isLt).symm

theorem Wraps.mul {a b : BitVec 32} {m n : Nat} (ha : Wraps a m) (hb : Wraps b n) :
    Wraps (a * b) (m * n) := by
  unfold Wraps at ha hb ⊢
  rw [BitVec.toNat_mul, ha, hb, ← Nat.mul_mod]

/-- A size that does not overflow is passed on as it is. -/
theorem sizeT_toNat {b : BitVec 32} {n : Nat} (h : Wraps b n) (hn : n < 2 ^ 31) :
    (sizeT b).toNat = n := by
  have hb : b.toNat = n := h.trans (Nat.mod_eq_of_lt (by omega))
  have hmsb : b.msb = false := BitVec.msb_eq_false_iff_two_mul_lt.mpr (by omega)
  rw [sizeT, BitVec.signExtend_eq_setWidth_of_msb_false hmsb, BitVec.toNat_setWidth, hb]
  omega

theorem msb_of_pos {b : BitVec 32} (h : 0 < b.toInt) : b.msb = false := by
  rw [BitVec.msb_eq_toInt]
  exact decide_eq_false (by omega)

namespace Header.Positive

variable {cfg : Header} (h : cfg.Positive)

include h

theorem headSize : Wraps cfg.headSize (cfg.dim.toNat / cfg.nHeads.toNat) := by
  have hdiv : cfg.headSize = cfg.dim.udiv cfg.nHeads := by
    rw [Header.headSize, BitVec.sdiv_eq, msb_of_pos h.dim, msb_of_pos h.nHeads]
  rw [hdiv, ← BitVec.toNat_udiv]
  exact Wraps.self _

theorem kvDim : Wraps cfg.kvDim cfg.kvSize := (Wraps.self _).mul h.headSize

theorem vocab : cfg.vocab = cfg.vocabSize := if_neg (by have := h.vocabSize; omega)

/-- The integers passed to the allocator are the bytes needed, up to overflow. -/
theorem requests_wrap (p : Program) : List.Forall₂ Wraps (requests p cfg) (needs p cfg) := by
  have hself := Wraps.self
  have hcache := ((hself (p.kvLayers cfg)).mul (hself cfg.seqLen)).mul h.kvDim
  have hfour : ∀ {b : BitVec 32} {n : Nat}, Wraps b n → Wraps (b * 4#32) (n * 4) :=
    fun hb => hb.mul (hself 4#32)
  rw [requests, needs, List.forall₂_map_left_iff, List.forall₂_map_right_iff, h.vocab]
  refine List.Forall₂.imp (fun _ _ => hfour) ?_
  exact .cons (hself _) (.cons (hself _) (.cons (hself _) (.cons (hself _) (.cons (hself _)
    (.cons (hself _) (.cons h.kvDim (.cons h.kvDim (.cons ((hself _).mul (hself _))
      (.cons (hself _) (.cons hcache (.cons hcache .nil)))))))))))

end Header.Positive

/-- Requests that fit together are laid one behind the other. -/
theorem allocAll_layout {bs : List (BitVec 32)} {ns : List Nat} (hwraps : List.Forall₂ Wraps bs ns)
    (hwords : ∀ n ∈ ns, n % 4 = 0) {h : Heap} (hlimit : h.limit.toNat < 2 ^ 31)
    (hfits : h.ptr.toNat + ns.sum ≤ h.limit.toNat) :
    (allocAll (bs.map sizeT) h).map BitVec.toNat = (layout h.ptr.toNat ns).map Block.start := by
  induction hwraps generalizing h with
  | nil => rfl
  | @cons b n bs ns hb _ ih =>
    rw [List.sum_cons] at hfits
    obtain ⟨hword, hwords⟩ := List.forall_mem_cons.mp hwords
    have hsize := sizeT_toNat hb (by omega)
    have hround : (n + 3) / 4 * 4 = n := by omega
    obtain ⟨h', halloc, hlimit', hptr⟩ := bumpAlloc_fits (sizeT b) h
      (by omega) (by rw [hsize, hround]; omega)
    rw [hsize, hround] at hptr
    rw [List.map_cons, allocAll, halloc, layout, List.map_cons, List.map_cons, ← hptr]
    exact congrArg _ (ih hwords (hlimit' ▸ hlimit) (by rw [hptr, hlimit']; omega))


/-! ## The test of `main` -/

/-- A program that goes on allocates behind the model data. -/
theorem main_eq_ok {p : Program} {cfg : Header} {fileSize : BitVec 64} {s : RunState}
    (hfile : fileSize.toNat ≤ heapBytes) (h : main p cfg fileSize = .ok s) :
    ∃ heap : Heap, heap.ptr.toNat = heapVa + (fileSize.toNat + 3) / 4 * 4 ∧
      heap.limit.toNat = heapVa + heapBytes ∧ s = (allocRunState p cfg heap).1 := by
  simp only [heapBytes] at hfile
  have hptr : Heap.fresh.ptr.toNat = heapVa := by decide
  have hlimit : Heap.fresh.limit.toNat = heapVa + heapBytes := by decide
  obtain ⟨heap, halloc, hlimit', hptr'⟩ := bumpAlloc_fits fileSize Heap.fresh
    (by omega) (by rw [hptr, hlimit]; simp only [heapVa, heapBytes]; omega)
  refine ⟨heap, by rw [hptr', hptr], by rw [hlimit', hlimit], ?_⟩
  rw [main, halloc] at h
  simp only at h
  split at h
  · cases h
  split at h
  · cases h
  exact (Except.ok.inj h).symm

theorem needs_words (p : Program) (cfg : Header) : ∀ n ∈ needs p cfg, n % 4 = 0 :=
  List.forall_mem_map.mpr fun n _ => Nat.mul_mod_left n 4

theorem needs_sum (p : Program) (cfg : Header) : 4 ∣ (needs p cfg).sum := by
  have hwords := needs_words p cfg
  generalize needs p cfg = l at hwords ⊢
  exact List.dvd_sum fun n hn => Nat.dvd_of_mod_eq_zero (hwords n hn)

theorem blocks_len (s : RunState) (p : Program) (cfg : Header) :
    (s.blocks p cfg).map Block.len = needs p cfg := rfl

/-- **A program that passes its test has all its buffers** exactly if the model file and
the twelve buffers fit into the heap together. -/
theorem oom_check_sufficient_iff (p : Program) (cfg : Header) (fileSize : BitVec 64)
    (hpos : cfg.Positive) (hfile : fileSize.toNat ≤ heapBytes) {s : RunState}
    (hpass : main p cfg fileSize = .ok s) :
    s.Sound p cfg fileSize ↔ fileSize.toNat + (needs p cfg).sum ≤ heapBytes := by
  constructor
  · intro h
    have htotal := total_len_le h.apart h.inside
    rw [blocks_len] at htotal
    simp only [heapVa, heapBytes] at hfile htotal ⊢
    omega
  · intro hfits
    obtain ⟨heap, hptr, hlimit, rfl⟩ := main_eq_ok hfile hpass
    have hsum := needs_sum p cfg
    have hend : heap.ptr.toNat + (needs p cfg).sum ≤ heapVa + heapBytes := by
      simp only [heapVa, heapBytes] at hptr hfits ⊢
      omega
    have hpointers := allocAll_layout (hpos.requests_wrap p) (needs_words p cfg)
      (h := heap) (by rw [hlimit]; decide) (by rw [hlimit]; exact hend)
    rw [← allocRunState_pointers] at hpointers
    have hblocks : (allocRunState p cfg heap).1.blocks p cfg =
        layout heap.ptr.toNat (needs p cfg) := by
      rw [RunState.blocks, hpointers, zipWith_layout]
    have hinside : ∀ b ∈ layout heap.ptr.toNat (needs p cfg),
        b.Inside (heapVa + fileSize.toNat) (heapVa + heapBytes) := by
      intro b hb
      obtain ⟨hlo, hhi⟩ := layout_inside b hb
      simp only [heapVa] at hptr hend ⊢
      exact ⟨by omega, by omega⟩
    refine ⟨fun a ha hnull => ?_, ?_, ?_⟩
    · -- a null pointer would be the start of a block in the heap
      have hstart : a.toNat ∈ (layout heap.ptr.toNat (needs p cfg)).map Block.start :=
        hpointers ▸ List.mem_map_of_mem ha
      obtain ⟨b, hb, hb0⟩ := List.mem_map.mp hstart
      have hlo := (hinside b hb).1
      rw [hb0, hnull] at hlo
      simp only [heapVa, BitVec.toNat_ofNat] at hlo
      omega
    · rw [hblocks]
      exact hinside
    · rw [hblocks]
      exact layout_apart

/-- The header of a small model. -/
def smallHeader (hiddenDim : BitVec 32) : Header := ⟨4, hiddenDim, 2, 2, 2, 32, 16⟩

/-- One layer of it, as the supervisor configures the first stage. -/
def firstStage : Stage := ⟨0, 1, by decide⟩

theorem main_hb {p : Program} {cfg : Header} {fileSize hb : BitVec 64}
    (h : (main p cfg fileSize).toOption.map RunState.hb = some hb) :
    ∃ s, main p cfg fileSize = .ok s ∧ s.hb = hb := by
  cases hmain : main p cfg fileSize with
  | error e =>
    rw [hmain] at h
    cases h
  | ok s =>
    rw [hmain] at h
    exact ⟨s, rfl, Option.some.inj h⟩

theorem oom_check_sufficient_iff_small : ∃ s,
    main (.pipeline firstStage) (smallHeader 8) 28 = .ok s ∧
      s.Sound (.pipeline firstStage) (smallHeader 8) 28 := by
  obtain ⟨s, hpass, -⟩ := main_hb (show (main (.pipeline firstStage) (smallHeader 8)
    28).toOption.map RunState.hb = some 0x10004C#64 by decide +kernel)
  refine ⟨s, hpass, (oom_check_sufficient_iff _ _ _ ?_ (by decide) hpass).mpr (by decide +kernel)⟩
  constructor <;> decide

/-- A hidden layer of 100000 numbers does not fit: its two buffers are null pointers, and
the test passes nevertheless, in both programs. -/
theorem hidden_buffer_null :
    (∃ s, main .inference (smallHeader 100000) 28 = .ok s ∧ s.hb = 0#64 ∧
      ¬ s.Sound .inference (smallHeader 100000) 28) ∧
    ∃ s, main (.pipeline firstStage) (smallHeader 100000) 28 = .ok s ∧ s.hb = 0#64 ∧
      ¬ s.Sound (.pipeline firstStage) (smallHeader 100000) 28 := by
  have hnull : ∀ p : Program,
      (main p (smallHeader 100000) 28).toOption.map RunState.hb = some 0#64 →
      ∃ s, main p (smallHeader 100000) 28 = .ok s ∧ s.hb = 0#64 ∧
        ¬ s.Sound p (smallHeader 100000) 28 := by
    intro p h
    obtain ⟨s, hpass, hhb⟩ := main_hb h
    refine ⟨s, hpass, hhb, fun hsound => hsound.nonNull s.hb ?_ hhb⟩
    simp only [RunState.pointers, List.mem_cons, true_or, or_true]
  exact ⟨hnull .inference (by decide +kernel), hnull (.pipeline firstStage) (by decide +kernel)⟩

end Coconut.RunBuffers
