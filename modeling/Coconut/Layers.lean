import Coconut.Transformer
import Coconut.State
import Mathlib.Algebra.Order.Ring.Nat

/-!
# What a layer computes

Each operation of the transformer fills one buffer with a vector that depends on a prefix
of its inputs only: given buffers that hold `X` up to the sizes the code uses, the results
are functions of `X`.  What lies beyond those sizes, and what the scratch buffers held
before, never matters; this is what makes the layer the same function in a shard that
runs all layers and in one that runs a few of them.
-/
namespace Coconut.Llama
open ArrayLoops

/-- What the code relies on: the heads divide the vector, the key and value heads divide
the heads, a head has an even size, an activation fits a message, and the vocabulary size
is an `int`. -/
structure Config.Valid (c : Config) : Prop where
  heads : c.nHeads ∣ c.dim
  kvHeads : c.nKvHeads ∣ c.nHeads
  even : 2 ∣ c.headSize
  message : 4 * c.dim ≤ maxMsgSize
  vocab : c.vocabSize < 2 ^ 31

namespace Config.Valid
variable {c : Config} (h : c.Valid)
include h

theorem heads_mul : c.nHeads * c.headSize = c.dim := Nat.mul_div_cancel' h.heads

theorem dim_even : 2 ∣ c.dim := h.heads_mul ▸ Dvd.dvd.mul_left h.even _

theorem kvDim_even : 2 ∣ c.kvDim := Dvd.dvd.mul_left h.even _

/-- An element of a head is an element of the vector. -/
theorem head_lt {n i : Nat} (hn : n < c.nHeads) (hi : i < c.headSize) :
    n * c.headSize + i < c.dim := by
  calc n * c.headSize + i < n * c.headSize + c.headSize := Nat.add_lt_add_left hi _
    _ = (n + 1) * c.headSize := (Nat.succ_mul _ _).symm
    _ ≤ c.nHeads * c.headSize := Nat.mul_le_mul_right _ hn
    _ = c.dim := h.heads_mul

/-- An element of the key head that a head uses is an element of a cache row. -/
theorem kvHead_lt {n i : Nat} (hn : n < c.nHeads) (hi : i < c.headSize) :
    n / c.kvMul * c.headSize + i < c.kvDim := by
  have hmul : c.nKvHeads * c.kvMul = c.nHeads := Nat.mul_div_cancel' h.kvHeads
  have hlt : n / c.kvMul < c.nKvHeads := Nat.div_lt_of_lt_mul (by rwa [Nat.mul_comm, hmul])
  calc n / c.kvMul * c.headSize + i < n / c.kvMul * c.headSize + c.headSize := Nat.add_lt_add_left hi _
    _ = (n / c.kvMul + 1) * c.headSize := (Nat.succ_mul _ _).symm
    _ ≤ c.nKvHeads * c.headSize := Nat.mul_le_mul_right _ hlt

end Config.Valid

section Vectors
variable (f : FloatOps) (c : Config) (w : Weights)

/-- A vector after RMSNorm. -/
def normed (x w : Vec) (n : Nat) : Vec := fun i => f.mul (w i) (f.mul (rmsScale f x n) (x i))

/-- A matrix times a vector of length `n`. -/
def product (x w : Vec) (n : Nat) : Vec := rowDot f x w n

/-- A vector with its pairs rotated. -/
def rotated (pos : Nat) (x : Vec) : Vec := fun i =>
  let fcr := w.freqCisReal (ropeIndex c pos (i - i % 2))
  let fci := w.freqCisImag (ropeIndex c pos (i - i % 2))
  if i % 2 = 0 then f.sub (f.mul (x i) fcr) (f.mul (x (i + 1)) fci)
  else f.add (f.mul (x (i - 1)) fci) (f.mul (x i) fcr)

/-- The exponentials of `softmax`. -/
def exponentials (x : Vec) (n : Nat) : Vec := fun i => f.expf (f.sub (x i) (maxVal f x n))

/-- The sum of the first `n` elements. -/
def total (x : Vec) (n : Nat) : Word := forUp n (fun i sum => f.add sum (x i)) f.zero

def softmaxed (x : Vec) (n : Nat) : Vec := fun i =>
  f.div (exponentials f x n i) (total f (exponentials f x n) n)

/-- The scores of head `h`, from the query and the keys of the positions. -/
def scores (q : Vec) (keys : Nat → Vec) (h : Nat) : Vec := fun t =>
  f.div (forUp c.headSize (fun i score =>
    f.add score (f.mul (q (h * c.headSize + i)) (keys t (h / c.kvMul * c.headSize + i)))) f.zero)
    (f.sqrtf (f.ofInt c.headSize))

/-- The sum of the values of the first `n` positions, weighted by `a`. -/
def mixed (a : Vec) (values : Nat → Vec) (h n : Nat) : Vec := fun i =>
  forUp n (fun t acc => f.add acc (f.mul (a t) (values t (h / c.kvMul * c.headSize + i)))) f.zero

/-- The attention of all heads, one after the other. -/
def attended (pos : Nat) (q : Vec) (keys values : Nat → Vec) : Vec := fun j =>
  let h := j / c.headSize
  mixed f c (softmaxed f (scores f c q keys h) (pos + 1)) values h (pos + 1) (j % c.headSize)

/-- The normed input of the attention. -/
def attInput (l : Nat) (x : Vec) : Vec := normed f x (offset w.rmsAttWeight (l * c.dim)) c.dim

def query (pos l : Nat) (x : Vec) : Vec :=
  rotated f c w pos (product f (attInput f c w l x) (offset w.wq (l * c.dim * c.dim)) c.dim)

def key (pos l : Nat) (x : Vec) : Vec :=
  rotated f c w pos (product f (attInput f c w l x) (offset w.wk (l * c.dim * c.kvDim)) c.dim)

def value (l : Nat) (x : Vec) : Vec :=
  product f (attInput f c w l x) (offset w.wv (l * c.dim * c.kvDim)) c.dim

/-- The vector after the attention and its residual. -/
def attentionOut (pos l : Nat) (x : Vec) (keys values : Nat → Vec) : Vec := fun i =>
  f.add (x i) (product f (attended f c pos (query f c w pos l x) keys values)
    (offset w.wo (l * c.dim * c.dim)) c.dim i)

/-- The gated hidden vector of the feed-forward network. -/
def hidden (l : Nat) (x : Vec) : Vec := fun i =>
  let y := normed f x (offset w.rmsFfnWeight (l * c.dim)) c.dim
  silu f (product f y (offset w.w1 (l * c.dim * c.hiddenDim)) c.dim i)
    (product f y (offset w.w3 (l * c.dim * c.hiddenDim)) c.dim i)

/-- The vector after the feed-forward network and its residual. -/
def feedForwardOut (l : Nat) (x : Vec) : Vec := fun i =>
  f.add (x i) (product f (hidden f c w l x) (offset w.w2 (l * c.hiddenDim * c.dim)) c.hiddenDim i)

/-- The vector a layer hands on, from the keys and values of the positions up to `pos`. -/
def layerOut (pos l : Nat) (x : Vec) (keys values : Nat → Vec) : Vec :=
  feedForwardOut f c w l (attentionOut f c w pos l x keys values)

end Vectors

/-! ## What the operations do to the buffers -/

/-- A buffer holds the first `n` elements of a vector. -/
def Holds (s : RunState) (b : Buffer) (n : Nat) (X : Vec) : Prop :=
  ∀ i, i < n → load s (ptr b) i = X i

theorem Holds.fill {s : RunState} {b : Buffer} {n : Nat} {g : Vec} :
    Holds (fill s (ptr b) n g) b n g := fun _ hi => load_fill_of_lt s hi

theorem Holds.fill_of_ne {s : RunState} {b : Buffer} {n m : Nat} {X g : Vec} {p : Ptr Buffer}
    (h : Holds s b n X) (hb : b ≠ p.buf) : Holds (ArrayLoops.fill s p m g) b n X := fun i hi =>
  (congrFun (load_fill_of_ne s hb) i).trans (h i hi)

theorem Holds.congr {s s' : RunState} {b : Buffer} {n : Nat} {X : Vec} (h : Holds s b n X)
    (hs : s' b = s b) : Holds s' b n X := fun i hi =>
  (congrFun hs (0 + i)).trans (h i hi)

section Operations
variable {f : FloatOps} {c : Config} {w : Weights} {s : RunState}

theorem rmsScale_congr {x X : Vec} {n : Nat} (h : ∀ i, i < n → x i = X i) :
    rmsScale f x n = rmsScale f X n := by
  simp only [rmsScale]
  rw [forUp_congr fun i hi ss => by rw [h i hi]]

theorem rowDot_congr {x X w : Vec} {n : Nat} (h : ∀ j, j < n → x j = X j) (i : Nat) :
    rowDot f x w n i = rowDot f X w n i :=
  forUp_congr fun j hj val => by rw [h j hj]

theorem maxVal_congr {x X : Vec} {n : Nat} (hn : 0 < n) (h : ∀ i, i < n → x i = X i) :
    maxVal f x n = maxVal f X n := by
  rw [maxVal, maxVal, h 0 hn]
  exact forUp_congr fun i hi m => by rw [h (i + 1) (by omega)]

/-- `rmsnorm` may work in place: an iteration reads no element that one before it wrote. -/
theorem rmsnorm_eq {dst src : Buffer} {v X : Vec} {n : Nat} (h : Holds s src n X) :
    rmsnorm f (ptr dst) (ptr src) v n s = fill s (ptr dst) n (normed f X v n) := by
  simp only [rmsnorm]
  rw [rmsScale_congr h]
  refine forUp_store fun i hi => ?_
  rw [normed]
  by_cases hd : src = dst
  · subst hd
    rw [load_fill_of_le s (Nat.le_refl i), h i hi]
  · rw [load_fill_of_ne s hd, h i hi]

theorem matmul_eq {dst src : Buffer} {v X : Vec} {n d : Nat} (h : Holds s src n X)
    (hne : src ≠ dst) :
    matmul f (ptr dst) (ptr src) v n d s = fill s (ptr dst) d (product f X v n) := by
  refine forUp_store fun i _ => ?_
  rw [load_fill_of_ne s hne]
  exact rowDot_congr h i

theorem addTo_eq {b : Buffer} {X Y : Vec} (hx : Holds s .x c.dim X) (hb : Holds s b c.dim Y)
    (hne : b ≠ .x) : addTo f c b s = fill s (ptr .x) c.dim fun i => f.add (X i) (Y i) := by
  refine forUp_store fun i hi => ?_
  rw [load_fill_of_le s (Nat.le_refl i), load_fill_of_ne s hne, hx i hi, hb i hi]

/-- Two iterations' worth of elements a time. -/
theorem rope_eq {pos n : Nat} {b : Buffer} {X : Vec} (hn : 2 ∣ n) (h : Holds s b n X) :
    rope f c w pos (ptr b) n s = fill s (ptr b) n (rotated f c w pos X) := by
  obtain ⟨m, rfl⟩ := hn
  rw [rope, show (2 * m + 1) / 2 = m by omega]
  refine forUp_inv (P := fun j s' => s' = fill s (ptr b) (2 * j) (rotated f c w pos X))
    (fill_zero s _ _).symm ?_
  rintro j hj _ rfl
  have h0 : rotated f c w pos X (2 * j) =
      f.sub (f.mul (X (2 * j)) (w.freqCisReal (ropeIndex c pos (2 * j))))
        (f.mul (X (2 * j + 1)) (w.freqCisImag (ropeIndex c pos (2 * j)))) := by
    simp only [rotated, show 2 * j % 2 = 0 by omega, Nat.sub_zero, if_true]
  have h1 : rotated f c w pos X (2 * j + 1) =
      f.add (f.mul (X (2 * j)) (w.freqCisImag (ropeIndex c pos (2 * j))))
        (f.mul (X (2 * j + 1)) (w.freqCisReal (ropeIndex c pos (2 * j)))) := by
    simp only [rotated, show (2 * j + 1) % 2 = 1 by omega, Nat.add_sub_cancel, Nat.one_ne_zero,
      if_false]
  rw [show 2 * (j + 1) = 2 * j + 1 + 1 by omega, fill_succ, fill_succ, h0, h1]
  simp only [load_fill_of_le s (Nat.le_refl _), load_fill_of_le s (Nat.le_succ _),
    h _ (show 2 * j < 2 * m by omega), h _ (show 2 * j + 1 < 2 * m by omega)]

theorem softmax_eq {p : Ptr Buffer} {n : Nat} {X : Vec} (hn : 0 < n)
    (h : ∀ i, i < n → load s p i = X i) :
    softmax f p n s = fill s p n (softmaxed f X n) := by
  have hexp : forUp n (fun i (sa : RunState × Word) =>
      (store sa.1 p i (f.expf (f.sub (load sa.1 p i) (maxVal f (load s p) n))),
        f.add sa.2 (load (store sa.1 p i (f.expf (f.sub (load sa.1 p i) (maxVal f (load s p) n)))) p i)))
      (s, f.zero) = (fill s p n (exponentials f X n), total f (exponentials f X n) n) := by
    refine forUp_inv (P := fun i sa =>
      sa = (fill s p i (exponentials f X n), total f (exponentials f X n) i))
      (by rw [fill_zero]; rfl) ?_
    rintro i hi _ rfl
    have hv : f.expf (f.sub (load (fill s p i (exponentials f X n)) p i) (maxVal f (load s p) n)) =
        exponentials f X n i := by
      rw [load_fill_of_le s (Nat.le_refl i), h i hi, maxVal_congr hn h, exponentials]
    rw [hv, ← fill_succ, load_fill_of_lt s (Nat.lt_succ_self i)]
    rfl
  simp only [softmax]
  rw [hexp, ← fill_fill s p n (exponentials f X n) (softmaxed f X n)]
  refine forUp_store fun i hi => ?_
  rw [load_fill_of_le _ (Nat.le_refl i), load_fill_of_lt s hi, softmaxed]

/-- The first `n` rows of a layer's part of a cache. -/
def HoldsRows (c : Config) (s : RunState) (b : Buffer) (ll n : Nat) (rows : Nat → Vec) : Prop :=
  ∀ t, t < n → ∀ i, i < c.kvDim → load s (ptr b + loff c ll + t * c.kvDim) i = rows t i

theorem HoldsRows.congr {s' : RunState} {b : Buffer} {ll n : Nat} {rows : Nat → Vec}
    (h : HoldsRows c s b ll n rows) (hs : s' b = s b) : HoldsRows c s' b ll n rows :=
  fun t ht i hi => (congrFun hs _).trans (h t ht i hi)

theorem cacheRows_eq {pos ll : Nat} {K V : Vec} (hk : Holds s .k c.kvDim K)
    (hv : Holds s .v c.kvDim V) :
    cacheRows c pos ll s = fill (fill s (ptr .keyCache + loff c ll + pos * c.kvDim) c.kvDim K)
      (ptr .valueCache + loff c ll + pos * c.kvDim) c.kvDim V := by
  refine forUp_inv (P := fun i s' =>
    s' = fill (fill s (ptr .keyCache + loff c ll + pos * c.kvDim) i K)
      (ptr .valueCache + loff c ll + pos * c.kvDim) i V) (by rw [fill_zero, fill_zero]) ?_
  rintro i hi _ rfl
  have hki := hk i hi
  have hvi := hv i hi
  simp only []
  rw [load_fill_of_ne _ (by simp), load_fill_of_ne _ (by simp), hki,
    store_fill_of_ne _ (by simp), ← fill_succ, load_fill_of_ne _ (by simp),
    load_fill_of_ne _ (by simp), hvi, ← fill_succ]

section Head
variable {pos ll h : Nat} {Q : Vec} {K V : Nat → Vec}

theorem scoreHead_eq (hc : c.Valid) (hh : h < c.nHeads) (hq : Holds s .q c.dim Q)
    (hK : HoldsRows c s .keyCache ll (pos + 1) K) :
    scoreHead f c pos ll h s = fill s (ptr .att + h * c.seqLen) (pos + 1) (scores f c Q K h) := by
  refine forUp_store fun t ht => ?_
  rw [scores]
  congr 1
  refine forUp_congr fun i hi score => ?_
  rw [load_fill_of_ne s (by simp), load_fill_of_ne s (by simp), load_add, load_add,
    hq _ (hc.head_lt hh hi), hK t ht _ (hc.kvHead_lt hh hi)]

theorem mixHead_eq (hc : c.Valid) (hh : h < c.nHeads) {a : Vec}
    (ha : ∀ t, t < pos + 1 → load s (ptr .att + h * c.seqLen) t = a t)
    (hV : HoldsRows c s .valueCache ll (pos + 1) V) :
    mixHead f c pos ll h s =
      fill s (ptr .xb + h * c.headSize) c.headSize (mixed f c a V h (pos + 1)) := by
  have hzero : forUp c.headSize (fun i s => store s (ptr .xb + h * c.headSize) i f.zero) s =
      fill s (ptr .xb + h * c.headSize) c.headSize (mixed f c a V h 0) :=
    forUp_store fun i _ => rfl
  simp only [mixHead]
  rw [hzero]
  -- after `t` positions the head holds the sum of the first `t` values
  refine forUp_inv (P := fun t s' =>
    s' = fill s (ptr .xb + h * c.headSize) c.headSize (mixed f c a V h t)) rfl ?_
  rintro t ht _ rfl
  rw [← fill_fill s _ _ (mixed f c a V h t) (mixed f c a V h (t + 1))]
  refine forUp_store fun i hi => ?_
  rw [load_fill_of_le _ (Nat.le_refl i), load_fill_of_lt s hi, load_fill_of_ne s (by simp),
    load_fill_of_ne _ (by simp), load_fill_of_ne s (by simp), ha t ht, load_add,
    hV t ht _ (hc.kvHead_lt hh hi)]
  rfl

theorem attendHead_eq (hc : c.Valid) (hh : h < c.nHeads) (hq : Holds s .q c.dim Q)
    (hK : HoldsRows c s .keyCache ll (pos + 1) K)
    (hV : HoldsRows c s .valueCache ll (pos + 1) V) :
    attendHead f c pos ll h s =
      fill (fill s (ptr .att + h * c.seqLen) (pos + 1) (softmaxed f (scores f c Q K h) (pos + 1)))
        (ptr .xb + h * c.headSize) c.headSize
        (mixed f c (softmaxed f (scores f c Q K h) (pos + 1)) V h (pos + 1)) := by
  simp only [attendHead]
  rw [scoreHead_eq hc hh hq hK, softmax_eq (Nat.succ_pos pos) fun i hi => load_fill_of_lt s hi,
    fill_fill]
  exact mixHead_eq hc hh (fun t ht => load_fill_of_lt s ht)
    (hV.congr (ArrayLoops.fill_of_ne s (by simp)))

/-- All heads: only the scores and `xb` change, and `xb` holds the attention. -/
theorem heads_eq (hc : c.Valid) (hq : Holds s .q c.dim Q)
    (hK : HoldsRows c s .keyCache ll (pos + 1) K)
    (hV : HoldsRows c s .valueCache ll (pos + 1) V) :
    Holds (forUp c.nHeads (attendHead f c pos ll) s) .xb c.dim (attended f c pos Q K V) ∧
      ∀ b, b ≠ .att → b ≠ .xb → forUp c.nHeads (attendHead f c pos ll) s b = s b := by
  rw [← hc.heads_mul]
  refine forUp_inv (P := fun h s' =>
    Holds s' .xb (h * c.headSize) (attended f c pos Q K V) ∧
      ∀ b, b ≠ .att → b ≠ .xb → s' b = s b) ⟨fun i hi => ?_, fun b _ _ => rfl⟩ ?_
  · rw [Nat.zero_mul] at hi
    cases hi
  rintro h hh s' ⟨hx, hb⟩
  rw [attendHead_eq hc hh (hq.congr (hb .q nofun nofun)) (hK.congr (hb .keyCache nofun nofun))
    (hV.congr (hb .valueCache nofun nofun))]
  refine ⟨fun j hj => ?_, fun b h1 h2 => ?_⟩
  · rw [load_ptr]
    by_cases hlt : j < h * c.headSize
    · rw [ArrayLoops.fill_of_outside _ (Or.inl (Nat.lt_of_lt_of_le hlt (Nat.le_add_left _ 0))),
        ArrayLoops.fill_of_ne _ (by simp), ← hx j hlt, load_ptr]
    · -- the element is in the head of this iteration
      have hle : h * c.headSize ≤ j := Nat.le_of_not_lt hlt
      rw [Nat.succ_mul] at hj
      obtain ⟨i, rfl⟩ := Nat.exists_eq_add_of_le hle
      have hi : i < c.headSize := Nat.lt_of_add_lt_add_left hj
      have hdiv : (h * c.headSize + i) / c.headSize = h := by
        rw [Nat.mul_comm, Nat.mul_add_div (Nat.zero_lt_of_lt hi), Nat.div_eq_of_lt hi, Nat.add_zero]
      have hmod : (h * c.headSize + i) % c.headSize = i := by
        rw [Nat.mul_comm, Nat.mul_add_mod, Nat.mod_eq_of_lt hi]
      have hin := load_fill_of_lt (fill s' (ptr .att + h * c.seqLen) (pos + 1)
        (softmaxed f (scores f c Q K h) (pos + 1))) (p := ptr .xb + h * c.headSize)
        (g := mixed f c (softmaxed f (scores f c Q K h) (pos + 1)) V h (pos + 1)) hi
      rw [load_add, load_ptr] at hin
      simp only [attended, hdiv, hmod]
      exact hin
  · rw [ArrayLoops.fill_of_ne _ h2, ArrayLoops.fill_of_ne _ h1, hb b h1 h2]

end Head

/-! ## The layer -/

section Layer
variable {pos l ll : Nat} {X : Vec} {K V : Nat → Vec}

/-- The row of the position joins those of the positions before it. -/
theorem HoldsRows.fill_next {b : Buffer} (h : HoldsRows c s b ll pos K) :
    HoldsRows c (fill s (ptr b + loff c ll + pos * c.kvDim) c.kvDim (K pos)) b ll (pos + 1) K := by
  intro t ht i hi
  rcases Nat.lt_succ_iff_lt_or_eq.mp ht with hlt | rfl
  · rw [← h t hlt i hi]
    refine fill_of_outside s (Or.inl ?_)
    have hrow : t * c.kvDim + c.kvDim ≤ pos * c.kvDim := Nat.succ_mul t c.kvDim ▸
      Nat.mul_le_mul_right _ hlt
    simp only [Ptr.add_off]
    omega
  · exact load_fill_of_lt s hi

/-- The rows of the other layers stay. -/
theorem HoldsRows.fill_other {b : Buffer} {ll' n : Nat} {g : Vec} (h : HoldsRows c s b ll' n K)
    (hll : ll' ≠ ll) (hn : n ≤ c.seqLen) (hpos : pos < c.seqLen) :
    HoldsRows c (fill s (ptr b + loff c ll + pos * c.kvDim) c.kvDim g) b ll' n K := by
  intro t ht i hi
  rw [← h t ht i hi]
  apply fill_of_outside s
  -- a row ends before the part of the next layer begins
  have hend : ∀ {t}, t < c.seqLen → t * c.kvDim + c.kvDim ≤ c.seqLen * c.kvDim := fun ht =>
    Nat.succ_mul _ c.kvDim ▸ Nat.mul_le_mul_right _ ht
  have hpart : ∀ {a b}, a < b → loff c a + c.seqLen * c.kvDim ≤ loff c b := fun {a b} hab => by
    rw [loff, loff, Nat.mul_assoc, Nat.mul_assoc, ← Nat.succ_mul]
    exact Nat.mul_le_mul_right _ hab
  have h1 := hend (Nat.lt_of_lt_of_le ht hn)
  have h2 := hend hpos
  simp only [Ptr.add_off]
  rcases Nat.lt_or_gt_of_ne hll with hlt | hlt
  · have := hpart hlt
    omega
  · have := hpart hlt
    omega

theorem project_eq (f : FloatOps) (w : Weights) (pos l : Nat) (hc : c.Valid)
    (hx : Holds s .x c.dim X) :
    let s' := project f c w pos l s
    Holds s' .q c.dim (query f c w pos l X) ∧ Holds s' .k c.kvDim (key f c w pos l X) ∧
      Holds s' .v c.kvDim (value f c w l X) ∧
      ∀ b, b ≠ .xb → b ≠ .q → b ≠ .k → b ≠ .v → s' b = s b := by
  simp only [project]
  rw [rmsnorm_eq hx, ← attInput]
  have hxb : Holds (fill s (ptr .xb) c.dim (attInput f c w l X)) .xb c.dim _ := Holds.fill
  rw [matmul_eq hxb (by decide), matmul_eq (hxb.fill_of_ne (by decide)) (by decide),
    matmul_eq ((hxb.fill_of_ne (by decide)).fill_of_ne (by decide)) (by decide)]
  rw [rope_eq hc.dim_even ((Holds.fill.fill_of_ne (by decide)).fill_of_ne (by decide)),
    rope_eq hc.kvDim_even ((Holds.fill.fill_of_ne (by decide)).fill_of_ne (by decide))]
  refine ⟨Holds.fill.fill_of_ne (by decide), Holds.fill,
    (Holds.fill.fill_of_ne (by decide)).fill_of_ne (by decide), fun b h1 h2 h3 h4 => ?_⟩
  rw [fill_of_ne _ h3, fill_of_ne _ h2, fill_of_ne _ h4, fill_of_ne _ h3, fill_of_ne _ h2,
    fill_of_ne _ h1]

theorem attention_eq (hc : c.Valid) (hx : Holds s .x c.dim X)
    (hK : HoldsRows c s .keyCache ll pos K) (hV : HoldsRows c s .valueCache ll pos V)
    (hk : K pos = key f c w pos l X) (hv : V pos = value f c w l X) :
    let s' := attention f c w pos l ll s
    Holds s' .x c.dim (attentionOut f c w pos l X K V) ∧
      s' .keyCache = fill s (ptr .keyCache + loff c ll + pos * c.kvDim) c.kvDim (K pos) .keyCache ∧
      s' .valueCache =
        fill s (ptr .valueCache + loff c ll + pos * c.kvDim) c.kvDim (V pos) .valueCache := by
  obtain ⟨hq, hkr, hvr, hrest⟩ := project_eq f w pos l hc hx
  simp only [attention]
  set s1 := project f c w pos l s
  rw [← hk] at hkr
  rw [← hv] at hvr
  rw [cacheRows_eq hkr hvr]
  set s2 := fill (fill s1 (ptr .keyCache + loff c ll + pos * c.kvDim) c.kvDim (K pos))
    (ptr .valueCache + loff c ll + pos * c.kvDim) c.kvDim (V pos)
  have hk2 : s2 .keyCache =
      fill s (ptr .keyCache + loff c ll + pos * c.kvDim) c.kvDim (K pos) .keyCache :=
    (fill_of_ne _ (by simp)).trans (fill_buffer (hrest .keyCache nofun nofun nofun nofun) _ _ _)
  have hv2 : s2 .valueCache =
      fill s (ptr .valueCache + loff c ll + pos * c.kvDim) c.kvDim (V pos) .valueCache :=
    fill_buffer ((fill_of_ne _ (by simp)).trans (hrest .valueCache nofun nofun nofun nofun)) _ _ _
  obtain ⟨hxb, hheads⟩ := heads_eq (f := f) hc
    ((hq.fill_of_ne (by simp)).fill_of_ne (by simp) : Holds s2 .q c.dim _)
    (hK.fill_next.congr hk2) (hV.fill_next.congr hv2)
  set s3 := forUp c.nHeads (attendHead f c pos ll) s2
  have hx3 : Holds s3 .x c.dim X :=
    (((hx.congr (hrest .x nofun nofun nofun nofun)).fill_of_ne (by simp)).fill_of_ne
      (by simp)).congr (hheads .x nofun nofun)
  rw [matmul_eq hxb (by decide), addTo_eq (hx3.fill_of_ne (by decide)) Holds.fill (by decide)]
  refine ⟨Holds.fill, ?_, ?_⟩
  · rw [fill_of_ne _ (by decide), fill_of_ne _ (by decide), hheads _ (by decide) (by decide)]
    exact hk2
  · rw [fill_of_ne _ (by decide), fill_of_ne _ (by decide), hheads _ (by decide) (by decide)]
    exact hv2

theorem feedForward_eq (hx : Holds s .x c.dim X) :
    let s' := feedForward f c w l s
    Holds s' .x c.dim (feedForwardOut f c w l X) ∧ s' .keyCache = s .keyCache ∧
      s' .valueCache = s .valueCache := by
  simp only [feedForward]
  rw [rmsnorm_eq hx]
  set y := normed f X (offset w.rmsFfnWeight (l * c.dim)) c.dim with hy
  have hxb : Holds (fill s (ptr .xb) c.dim y) .xb c.dim y := Holds.fill
  rw [matmul_eq hxb (by decide), matmul_eq (hxb.fill_of_ne (by decide)) (by decide)]
  set s2 := fill (fill (fill s (ptr .xb) c.dim y) (ptr .hb) c.hiddenDim
    (product f y (offset w.w1 (l * c.dim * c.hiddenDim)) c.dim)) (ptr .hb2) c.hiddenDim
    (product f y (offset w.w3 (l * c.dim * c.hiddenDim)) c.dim) with hs2
  have hgate : forUp c.hiddenDim (fun i s =>
      store s (ptr .hb) i (silu f (load s (ptr .hb) i) (load s (ptr .hb2) i))) s2 =
      fill s2 (ptr .hb) c.hiddenDim (hidden f c w l X) := by
    refine forUp_store fun i hi => ?_
    rw [load_fill_of_le _ (Nat.le_refl i), load_fill_of_ne _ (by decide), hs2,
      load_fill_of_lt _ hi, load_fill_of_ne _ (by decide), load_fill_of_lt _ hi]
    rfl
  rw [hgate, matmul_eq Holds.fill (by decide),
    addTo_eq ((((hx.fill_of_ne (by decide)).fill_of_ne (by decide)).fill_of_ne
      (by decide)).fill_of_ne (by decide) |>.fill_of_ne (by decide)) Holds.fill (by decide)]
  refine ⟨Holds.fill, ?_, ?_⟩
  · rw [fill_of_ne _ (by decide), fill_of_ne _ (by decide), fill_of_ne _ (by decide),
      fill_of_ne _ (by decide), fill_of_ne _ (by decide), fill_of_ne _ (by decide)]
  · rw [fill_of_ne _ (by decide), fill_of_ne _ (by decide), fill_of_ne _ (by decide),
      fill_of_ne _ (by decide), fill_of_ne _ (by decide), fill_of_ne _ (by decide)]

/-- A layer hands on `layerOut` and adds one row to its part of each cache. -/
theorem layer_eq (hc : c.Valid) (hx : Holds s .x c.dim X)
    (hK : HoldsRows c s .keyCache ll pos K) (hV : HoldsRows c s .valueCache ll pos V)
    (hk : K pos = key f c w pos l X) (hv : V pos = value f c w l X) :
    let s' := layer f c w pos l ll s
    Holds s' .x c.dim (layerOut f c w pos l X K V) ∧
      s' .keyCache = fill s (ptr .keyCache + loff c ll + pos * c.kvDim) c.kvDim (K pos) .keyCache ∧
      s' .valueCache =
        fill s (ptr .valueCache + loff c ll + pos * c.kvDim) c.kvDim (V pos) .valueCache := by
  obtain ⟨hx1, hk1, hv1⟩ := attention_eq hc hx hK hV hk hv
  obtain ⟨hx2, hk2, hv2⟩ := feedForward_eq (f := f) (w := w) (l := l) hx1
  exact ⟨hx2, hk2.trans hk1, hv2.trans hv1⟩

end Layer

end Operations

/-! ## The whole model -/

/-- The keys and values of every layer and position. -/
structure KvCache where
  keys : Nat → Nat → Vec
  values : Nat → Nat → Vec

/-- The cache with the row of a layer and a position set. -/
def KvCache.set (r : KvCache) (l pos : Nat) (k v : Vec) : KvCache where
  keys := Function.update r.keys l (Function.update (r.keys l) pos k)
  values := Function.update r.values l (Function.update (r.values l) pos v)

section Model
variable (f : FloatOps) (c : Config) (w : Weights)

/-- One layer of the model, on the vector and the cache. -/
def modelLayer (pos l : Nat) (a : Vec × KvCache) : Vec × KvCache :=
  let r := a.2.set l pos (key f c w pos l a.1) (value f c w l a.1)
  (layerOut f c w pos l a.1 (r.keys l) (r.values l), r)

/-- The layers from `start` on, `n` of them. -/
def modelLayers (pos start n : Nat) (a : Vec × KvCache) : Vec × KvCache :=
  forUp n (fun i => modelLayer f c w pos (start + i)) a

/-- The token that follows from the vector after the last layer. -/
def modelToken (x : Vec) : Nat :=
  argmax f (product f (normed f x w.rmsFinalWeight c.dim) w.wcls c.dim) c.vocabSize

/-- One position: the next token, and the cache with the rows of the position. -/
def modelStep (pos : Nat) (a : Nat × KvCache) : Nat × KvCache :=
  let (x, r) := modelLayers f c w pos 0 c.nLayers (offset w.tokenEmbeddingTable (a.1 * c.dim), a.2)
  (modelToken f c w x, r)

/-- The token to embed and the cache after `n` positions, from the start token 0. -/
def modelRun (n : Nat) : Nat × KvCache :=
  forUp n (modelStep f c w) (0, ⟨fun _ _ _ => 0, fun _ _ _ => 0⟩)

/-- The first `n` tokens of the model. -/
def modelTokens (n : Nat) : List Nat := (List.range n).map fun pos => (modelRun f c w (pos + 1)).1

end Model

/-- The caches of a run state hold the rows of the layers from `start` on, `n` of them, for
the positions before `pos`. -/
def HoldsCache (c : Config) (s : RunState) (start n pos : Nat) (r : KvCache) : Prop :=
  ∀ ll, ll < n → HoldsRows c s .keyCache ll pos (r.keys (start + ll)) ∧
    HoldsRows c s .valueCache ll pos (r.values (start + ll))

namespace KvCache
variable (r : KvCache) (l pos : Nat) (k v : Vec)

theorem set_keys_self : (r.set l pos k v).keys l = Function.update (r.keys l) pos k :=
  Function.update_self ..

theorem set_values_self : (r.set l pos k v).values l = Function.update (r.values l) pos v :=
  Function.update_self ..

variable {l}

theorem set_keys_of_ne {l' : Nat} (h : l' ≠ l) : (r.set l pos k v).keys l' = r.keys l' :=
  Function.update_of_ne h ..

theorem set_values_of_ne {l' : Nat} (h : l' ≠ l) : (r.set l pos k v).values l' = r.values l' :=
  Function.update_of_ne h ..

end KvCache

section Run
variable {f : FloatOps} {c : Config} {w : Weights} {s : RunState} {pos start n : Nat} {X : Vec}
  {r : KvCache}

theorem HoldsRows.update {b : Buffer} {ll : Nat} {rows : Nat → Vec} {g : Vec}
    (h : HoldsRows c s b ll pos rows) : HoldsRows c s b ll pos (Function.update rows pos g) :=
  fun t ht i hi => by rw [Function.update_of_ne (Nat.ne_of_lt ht), h t ht i hi]

/-- A layer of the model leaves the rows of the others. -/
theorem modelLayers_outside (a : Vec × KvCache) {l : Nat} (h : l < start ∨ start + n ≤ l) :
    (modelLayers f c w pos start n a).2.keys l = a.2.keys l ∧
      (modelLayers f c w pos start n a).2.values l = a.2.values l := by
  refine forUp_inv (P := fun _ (a' : Vec × KvCache) =>
    a'.2.keys l = a.2.keys l ∧ a'.2.values l = a.2.values l) ⟨rfl, rfl⟩ ?_
  rintro i hi a' ⟨hk, hv⟩
  have hne : l ≠ start + i := by omega
  exact ⟨(KvCache.set_keys_of_ne _ _ _ _ hne).trans hk, (KvCache.set_values_of_ne _ _ _ _ hne).trans hv⟩

theorem HoldsCache.congr {r' : KvCache} (h : HoldsCache c s start n pos r)
    (hr : ∀ ll, ll < n → r'.keys (start + ll) = r.keys (start + ll) ∧
      r'.values (start + ll) = r.values (start + ll)) : HoldsCache c s start n pos r' := by
  intro ll hll
  obtain ⟨hk, hv⟩ := hr ll hll
  rw [hk, hv]
  exact h ll hll

theorem HoldsCache.of_buffers {s' : RunState} (h : HoldsCache c s start n pos r)
    (hk : s' .keyCache = s .keyCache) (hv : s' .valueCache = s .valueCache) :
    HoldsCache c s' start n pos r := fun ll hll =>
  ⟨(h ll hll).1.congr hk, (h ll hll).2.congr hv⟩

theorem HoldsCache.setBuffer_x (h : HoldsCache c s start n pos r) (v : Vec) :
    HoldsCache c (s.setBuffer .x v) start n pos r :=
  h.of_buffers (s.setBuffer_of_ne (by decide) v) (s.setBuffer_of_ne (by decide) v)

/-- In the middle of a position the layers done have one more row than those to come. -/
theorem layer_hold (hc : c.Valid) (hpos : pos < c.seqLen) {i : Nat} (hi : i < n)
    (hx : Holds s .x c.dim X)
    (hr : ∀ ll, ll < n →
      HoldsRows c s .keyCache ll (if ll < i then pos + 1 else pos) (r.keys (start + ll)) ∧
        HoldsRows c s .valueCache ll (if ll < i then pos + 1 else pos) (r.values (start + ll))) :
    let s' := layer f c w pos (start + i) i s
    let a := modelLayer f c w pos (start + i) (X, r)
    Holds s' .x c.dim a.1 ∧ ∀ ll, ll < n →
      HoldsRows c s' .keyCache ll (if ll < i + 1 then pos + 1 else pos) (a.2.keys (start + ll)) ∧
        HoldsRows c s' .valueCache ll (if ll < i + 1 then pos + 1 else pos)
          (a.2.values (start + ll)) := by
  intro s' a
  have hkeys : a.2.keys (start + i) = _ := KvCache.set_keys_self ..
  have hvalues : a.2.values (start + i) = _ := KvCache.set_values_self ..
  obtain ⟨hk0, hv0⟩ := hr i hi
  rw [if_neg (Nat.lt_irrefl i)] at hk0 hv0
  have hK : HoldsRows c s .keyCache i pos (a.2.keys (start + i)) := hkeys ▸ hk0.update
  have hV : HoldsRows c s .valueCache i pos (a.2.values (start + i)) := hvalues ▸ hv0.update
  obtain ⟨hx', hk', hv'⟩ := layer_eq (f := f) (w := w) (l := start + i) hc hx hK hV
    (by rw [hkeys, Function.update_self]) (by rw [hvalues, Function.update_self])
  refine ⟨hx', fun ll hll => ?_⟩
  by_cases he : ll = i
  · subst he
    rw [if_pos (Nat.lt_succ_self ll)]
    exact ⟨hK.fill_next.congr hk', hV.fill_next.congr hv'⟩
  · have hne : start + ll ≠ start + i := fun h => he (Nat.add_left_cancel h)
    obtain ⟨hkl, hvl⟩ := hr ll hll
    have hcond : (if ll < i + 1 then pos + 1 else pos) = if ll < i then pos + 1 else pos := by
      congr 1
      rw [eq_iff_iff]
      omega
    have hle : (if ll < i then pos + 1 else pos) ≤ c.seqLen := by
      split <;> omega
    rw [hcond, show a.2.keys (start + ll) = r.keys (start + ll) from KvCache.set_keys_of_ne _ _ _ _ hne,
      show a.2.values (start + ll) = r.values (start + ll) from KvCache.set_values_of_ne _ _ _ _ hne]
    exact ⟨(hkl.fill_other he hle hpos).congr hk', (hvl.fill_other he hle hpos).congr hv'⟩

/-- A range of layers, run with caches of its own, computes those layers of the model. -/
theorem layers_hold (f : FloatOps) (w : Weights) (hc : c.Valid) (hpos : pos < c.seqLen)
    (hx : Holds s .x c.dim X) (hr : HoldsCache c s start n pos r) :
    let s' := forUp n (fun i => layer f c w pos (start + i) i) s
    let a := modelLayers f c w pos start n (X, r)
    Holds s' .x c.dim a.1 ∧ HoldsCache c s' start n (pos + 1) a.2 := by
  have hinv : ∀ m, m ≤ n →
      let s' := forUp m (fun i => layer f c w pos (start + i) i) s
      let a := modelLayers f c w pos start m (X, r)
      Holds s' .x c.dim a.1 ∧ ∀ ll, ll < n →
        HoldsRows c s' .keyCache ll (if ll < m then pos + 1 else pos) (a.2.keys (start + ll)) ∧
          HoldsRows c s' .valueCache ll (if ll < m then pos + 1 else pos)
            (a.2.values (start + ll)) := by
    intro m
    induction m with
    | zero => exact fun _ => ⟨hx, hr⟩
    | succ m ih =>
      intro hm
      obtain ⟨hxm, hrm⟩ := ih (Nat.le_of_succ_le hm)
      exact layer_hold hc hpos hm hxm hrm
  obtain ⟨hx', hr'⟩ := hinv n (Nat.le_refl n)
  refine ⟨hx', fun ll hll => ?_⟩
  have := hr' ll hll
  rwa [if_pos hll] at this

theorem forwardLayers_hold (f : FloatOps) (w : Weights) (hc : c.Valid) (hpos : pos < c.seqLen)
    {stop : Nat} (hx : Holds s .x c.dim X) (hr : HoldsCache c s start (stop - start) pos r) :
    let s' := forwardLayers f c w pos start stop s
    let a := modelLayers f c w pos start (stop - start) (X, r)
    Holds s' .x c.dim a.1 ∧ HoldsCache c s' start (stop - start) (pos + 1) a.2 := by
  simp only [forwardLayers, Nat.add_sub_cancel_left]
  exact layers_hold f w hc hpos hx hr

/-- The embedding fills `x` and nothing else. -/
theorem embedToken_eq (token : Nat) :
    embedToken c w token s = fill s (ptr .x) c.dim (offset w.tokenEmbeddingTable (token * c.dim)) :=
  forUp_store fun _ _ => rfl

theorem argmax_congr {v v' : Vec} {n : Nat} (h : ∀ i, i < n → v i = v' i) :
    argmax f v n = argmax f v' n := by
  cases n with
  | zero => rfl
  | succ n =>
    rw [argmax, argmax, h 0 (Nat.succ_pos n)]
    congr 1
    exact forUp_congr fun i hi m => by rw [h (i + 1) (Nat.succ_lt_succ hi)]

/-- The classifier of the code finds the token of the model, and leaves the caches. -/
theorem classify_eq (f : FloatOps) (w : Weights) (hx : Holds s .x c.dim X) :
    let s' := classify f c w s
    argmax f (load s' (ptr .logits)) c.vocabSize = modelToken f c w X ∧
      s' .keyCache = s .keyCache ∧ s' .valueCache = s .valueCache := by
  simp only [classify]
  rw [rmsnorm_eq hx, matmul_eq Holds.fill (by decide)]
  refine ⟨argmax_congr fun i hi => load_fill_of_lt _ hi, ?_, ?_⟩
  · rw [fill_of_ne _ (by decide), fill_of_ne _ (by decide)]
  · rw [fill_of_ne _ (by decide), fill_of_ne _ (by decide)]

/-- One position of `llama-inference`. -/
theorem forward_hold (f : FloatOps) (w : Weights) (hc : c.Valid) (hpos : pos < c.seqLen)
    (token : Nat) (hr : HoldsCache c s 0 c.nLayers pos r) :
    let s' := forward f c w token pos s
    let a := modelStep f c w pos (token, r)
    argmax f (load s' (ptr .logits)) c.vocabSize = a.1 ∧ HoldsCache c s' 0 c.nLayers (pos + 1) a.2 := by
  have hx : Holds (embedToken c w token s) .x c.dim
      (offset w.tokenEmbeddingTable (token * c.dim)) := by
    rw [embedToken_eq]
    exact Holds.fill
  have hr0 : HoldsCache c (embedToken c w token s) 0 c.nLayers pos r := by
    rw [embedToken_eq]
    exact hr.of_buffers (fill_of_ne _ (by decide)) (fill_of_ne _ (by decide))
  have hlayers := layers_hold f w hc hpos hx hr0
  simp only [Nat.zero_add] at hlayers
  obtain ⟨hx', hr'⟩ := hlayers
  obtain ⟨htok, hk, hv⟩ := classify_eq f w hx'
  exact ⟨htok, hr'.of_buffers hk hv⟩

theorem modelTokens_succ (n : Nat) :
    modelTokens f c w (n + 1) = modelTokens f c w n ++ [(modelRun f c w (n + 1)).1] := by
  rw [modelTokens, List.range_succ, List.map_append]
  rfl

/-- `llama-inference` produces the tokens of the model, whatever its buffers held. -/
theorem generate_eq (f : FloatOps) (w : Weights) (hc : c.Valid) (s : RunState) {n : Nat}
    (hn : n ≤ c.seqLen) :
    let a := generate f c w n s
    HoldsCache c a.1 0 c.nLayers n (modelRun f c w n).2 ∧ a.2.1 = (modelRun f c w n).1 ∧
      a.2.2 = modelTokens f c w n := by
  induction n with
  | zero => exact ⟨fun _ _ => ⟨nofun, nofun⟩, rfl, rfl⟩
  | succ n ih =>
    obtain ⟨hr, htoken, hout⟩ := ih (Nat.le_of_succ_le hn)
    obtain ⟨hnext, hr'⟩ := forward_hold f w hc hn (generate f c w n s).2.1 hr
    have hstep : modelStep f c w n ((generate f c w n s).2.1, (modelRun f c w n).2) =
        modelRun f c w (n + 1) := by
      rw [htoken]
      rfl
    rw [hstep] at hnext hr'
    refine ⟨hr', hnext, ?_⟩
    rw [modelTokens_succ, ← hout, ← hnext]
    rfl

end Run

end Coconut.Llama
