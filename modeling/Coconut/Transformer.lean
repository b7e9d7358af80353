import Coconut.ArrayLoops
import Coconut.Shared

/-!
# The transformer of the llama shards

`llama-inference` runs all layers of the model in one shard, `llama-pipeline` a range of
them in each of two.  The layer is the same code in both but for the row of the key and
value caches it uses: `layer` takes the layer `l` whose weights it reads and the index
`ll` of its cache.  Floating point is uninterpreted: the operations are any functions on
32-bit words.

Beside the code stands what a layer computes (`layerOut`, `key`, `value`), as functions of
vectors; `layer_eq` says that the code computes it whatever its scratch buffers held.
-/
namespace Coconut.Llama
open ArrayLoops

/-- A `float` or a `uint32_t`: four bytes. -/
abbrev Word := BitVec 32

/-- The elements behind a pointer to words. -/
abbrev Vec := Nat → Word

/-- The arithmetic on `float`, with `my_expf` and `my_sqrtf`. -/
structure FloatOps where
  zero : Word
  one : Word
  /-- The literal `1e-5f`. -/
  eps : Word
  /-- The conversion from `int`. -/
  ofInt : Nat → Word
  add : Word → Word → Word
  sub : Word → Word → Word
  mul : Word → Word → Word
  div : Word → Word → Word
  neg : Word → Word
  gt : Word → Word → Bool
  expf : Word → Word
  sqrtf : Word → Word

/-- The header of a model file. -/
structure Config where
  dim : Nat
  hiddenDim : Nat
  nLayers : Nat
  nHeads : Nat
  nKvHeads : Nat
  vocabSize : Nat
  seqLen : Nat

def Config.headSize (c : Config) : Nat := c.dim / c.nHeads

def Config.kvDim (c : Config) : Nat := c.nKvHeads * c.headSize

def Config.kvMul (c : Config) : Nat := c.nHeads / c.nKvHeads

/-- The weights, as pointers into the model file. -/
structure Weights where
  tokenEmbeddingTable : Vec
  rmsAttWeight : Vec
  wq : Vec
  wk : Vec
  wv : Vec
  wo : Vec
  rmsFfnWeight : Vec
  w1 : Vec
  w2 : Vec
  w3 : Vec
  rmsFinalWeight : Vec
  freqCisReal : Vec
  freqCisImag : Vec
  wcls : Vec

/-- `w + n`, for a pointer `w` to weights. -/
def offset (w : Vec) (n : Nat) : Vec := fun i => w (n + i)

/-- The buffers of the run state. -/
inductive Buffer
  | x | xb | xb2 | hb | hb2 | q | k | v | att | logits | keyCache | valueCache
  deriving DecidableEq

abbrev RunState := Buffer → Vec

/-- The start of a buffer. -/
def ptr (b : Buffer) : Ptr Buffer := ⟨b, 0⟩

@[simp] theorem ptr_buf (b : Buffer) : (ptr b).buf = b := rfl

theorem load_ptr (s : RunState) (b : Buffer) : load s (ptr b) = s b := by
  funext i
  exact congrArg (s b) (Nat.zero_add i)

/-- The run state with the contents of one buffer replaced. -/
def RunState.setBuffer (s : RunState) (b : Buffer) (v : Vec) : RunState :=
  fun b' => if b' = b then v else s b'

theorem RunState.setBuffer_self (s : RunState) (b : Buffer) (v : Vec) : s.setBuffer b v b = v :=
  if_pos rfl

theorem RunState.setBuffer_of_ne (s : RunState) {b b' : Buffer} (h : b' ≠ b) (v : Vec) :
    s.setBuffer b v b' = s b' := if_neg h

section Code
variable (f : FloatOps) (c : Config) (w : Weights)

/-! ## The operations -/

/-- The factor of `rmsnorm`. -/
def rmsScale (x : Vec) (size : Nat) : Word :=
  let ss := forUp size (fun i ss => f.add ss (f.mul (x i) (x i))) f.zero
  f.div f.one (f.sqrtf (f.add (f.div ss (f.ofInt size)) f.eps))

def rmsnorm (o x : Ptr Buffer) (w : Vec) (size : Nat) (s : RunState) : RunState :=
  let ss := rmsScale f (load s x) size
  forUp size (fun i s => store s o i (f.mul (w i) (f.mul ss (load s x i)))) s

/-- The largest element, as `softmax` finds it. -/
def maxVal (x : Vec) (size : Nat) : Word :=
  forUp (size - 1) (fun i m => if f.gt (x (i + 1)) m then x (i + 1) else m) (x 0)

def softmax (x : Ptr Buffer) (size : Nat) (s : RunState) : RunState :=
  let max := maxVal f (load s x) size
  let (s, sum) := forUp size (fun i (s, sum) =>
    let s := store s x i (f.expf (f.sub (load s x i) max))
    (s, f.add sum (load s x i))) (s, f.zero)
  forUp size (fun i s => store s x i (f.div (load s x i) sum)) s

/-- One element of `matmul`. -/
def rowDot (x w : Vec) (n i : Nat) : Word :=
  forUp n (fun j val => f.add val (f.mul (w (i * n + j)) (x j))) f.zero

def matmul (xout x : Ptr Buffer) (w : Vec) (n d : Nat) (s : RunState) : RunState :=
  forUp d (fun i s => store s xout i (rowDot f (load s x) w n i)) s

/-- The index of the first largest element. -/
def argmax (v : Vec) (n : Nat) : Nat :=
  (forUp (n - 1) (fun i (m : Nat × Word) =>
    if f.gt (v (i + 1)) m.2 then (i + 1, v (i + 1)) else m) (0, v 0)).1

/-! ## One layer -/

/-- The index into the rotation tables. -/
def ropeIndex (pos i : Nat) : Nat := pos * (c.headSize / 2) + i % c.headSize / 2

/-- RoPE relative positional encoding: `for (i = 0; i < n; i += 2)`. -/
def rope (pos : Nat) (p : Ptr Buffer) (n : Nat) (s : RunState) : RunState :=
  forUp ((n + 1) / 2) (fun j s =>
    let i := 2 * j
    let fcr := w.freqCisReal (ropeIndex c pos i)
    let fci := w.freqCisImag (ropeIndex c pos i)
    let v0 := load s p i
    let v1 := load s p (i + 1)
    let s := store s p i (f.sub (f.mul v0 fcr) (f.mul v1 fci))
    store s p (i + 1) (f.add (f.mul v0 fci) (f.mul v1 fcr))) s

/-- The part of a cache that belongs to its layer `ll`. -/
def loff (ll : Nat) : Nat := ll * c.seqLen * c.kvDim

/-- Cache K and V. -/
def cacheRows (pos ll : Nat) (s : RunState) : RunState :=
  let keyCacheRow := ptr .keyCache + loff c ll + pos * c.kvDim
  let valueCacheRow := ptr .valueCache + loff c ll + pos * c.kvDim
  forUp c.kvDim (fun i s =>
    let s := store s keyCacheRow i (load s (ptr .k) i)
    store s valueCacheRow i (load s (ptr .v) i)) s

/-- The scores of a head against the positions up to `pos`. -/
def scoreHead (pos ll h : Nat) (s : RunState) : RunState :=
  let qh := ptr .q + h * c.headSize
  let atth := ptr .att + h * c.seqLen
  let kvh := h / c.kvMul
  forUp (pos + 1) (fun t s =>
    let kt := ptr .keyCache + loff c ll + t * c.kvDim + kvh * c.headSize
    let score := forUp c.headSize (fun i score =>
      f.add score (f.mul (load s qh i) (load s kt i))) f.zero
    store s atth t (f.div score (f.sqrtf (f.ofInt c.headSize)))) s

/-- The weighted sum of the cached values. -/
def mixHead (pos ll h : Nat) (s : RunState) : RunState :=
  let atth := ptr .att + h * c.seqLen
  let kvh := h / c.kvMul
  let xbh := ptr .xb + h * c.headSize
  let s := forUp c.headSize (fun i s => store s xbh i f.zero) s
  forUp (pos + 1) (fun t s =>
    let vt := ptr .valueCache + loff c ll + t * c.kvDim + kvh * c.headSize
    let a := load s atth t
    forUp c.headSize (fun i s => store s xbh i (f.add (load s xbh i) (f.mul a (load s vt i)))) s) s

/-- One head of the attention. -/
def attendHead (pos ll h : Nat) (s : RunState) : RunState :=
  let s := scoreHead f c pos ll h s
  let s := softmax f (ptr .att + h * c.seqLen) (pos + 1) s
  mixHead f c pos ll h s

/-- `s->x[i] += from[i]`. -/
def addTo (src : Buffer) (s : RunState) : RunState :=
  forUp c.dim (fun i s => store s (ptr .x) i (f.add (load s (ptr .x) i) (load s (ptr src) i))) s

/-- The attention RMSNorm, the QKV projections and RoPE. -/
def project (pos l : Nat) (s : RunState) : RunState :=
  let s := rmsnorm f (ptr .xb) (ptr .x) (offset w.rmsAttWeight (l * c.dim)) c.dim s
  let s := matmul f (ptr .q) (ptr .xb) (offset w.wq (l * c.dim * c.dim)) c.dim c.dim s
  let s := matmul f (ptr .k) (ptr .xb) (offset w.wk (l * c.dim * c.kvDim)) c.dim c.kvDim s
  let s := matmul f (ptr .v) (ptr .xb) (offset w.wv (l * c.dim * c.kvDim)) c.dim c.kvDim s
  let s := rope f c w pos (ptr .q) c.dim s
  rope f c w pos (ptr .k) c.kvDim s

/-- The attention half of a layer: the projections, the caches, the heads, the output
projection and the residual. -/
def attention (pos l ll : Nat) (s : RunState) : RunState :=
  let s := project f c w pos l s
  let s := cacheRows c pos ll s
  let s := forUp c.nHeads (attendHead f c pos ll) s
  let s := matmul f (ptr .xb2) (ptr .xb) (offset w.wo (l * c.dim * c.dim)) c.dim c.dim s
  addTo f c .xb2 s

/-- SiLU and gating of one element. -/
def silu (val gate : Word) : Word :=
  f.mul (f.mul val (f.div f.one (f.add f.one (f.expf (f.neg val))))) gate

/-- The other half: RMSNorm, `W1` and `W3`, the gate, `W2` and the residual. -/
def feedForward (l : Nat) (s : RunState) : RunState :=
  let s := rmsnorm f (ptr .xb) (ptr .x) (offset w.rmsFfnWeight (l * c.dim)) c.dim s
  let s := matmul f (ptr .hb) (ptr .xb) (offset w.w1 (l * c.dim * c.hiddenDim)) c.dim c.hiddenDim s
  let s := matmul f (ptr .hb2) (ptr .xb) (offset w.w3 (l * c.dim * c.hiddenDim)) c.dim c.hiddenDim s
  let s := forUp c.hiddenDim (fun i s =>
    store s (ptr .hb) i (silu f (load s (ptr .hb) i) (load s (ptr .hb2) i))) s
  let s := matmul f (ptr .xb) (ptr .hb) (offset w.w2 (l * c.hiddenDim * c.dim)) c.hiddenDim c.dim s
  addTo f c .xb s

/-- The body of the loop over the layers, in `forward` and in `forward_layers`. -/
def layer (pos l ll : Nat) (s : RunState) : RunState :=
  feedForward f c w l (attention f c w pos l ll s)

/-! ## The forward passes -/

/-- Copy the embedding of a token into `x`. -/
def embedToken (token : Nat) (s : RunState) : RunState :=
  forUp c.dim (fun i s => store s (ptr .x) i (offset w.tokenEmbeddingTable (token * c.dim) i)) s

/-- `forward_layers` of `llama-pipeline`: the layers from `layerStart` up to `layerEnd`,
with caches of their own. -/
def forwardLayers (pos layerStart layerEnd : Nat) (s : RunState) : RunState :=
  forUp (layerEnd - layerStart) (fun i s =>
    let l := layerStart + i
    layer f c w pos l (l - layerStart) s) s

/-- The final RMSNorm and the classifier. -/
def classify (s : RunState) : RunState :=
  let s := rmsnorm f (ptr .x) (ptr .x) w.rmsFinalWeight c.dim s
  matmul f (ptr .logits) (ptr .x) w.wcls c.dim c.vocabSize s

/-- `forward` of `llama-inference`. -/
def forward (token pos : Nat) (s : RunState) : RunState :=
  let s := embedToken c w token s
  let s := forUp c.nLayers (fun l s => layer f c w pos l l s) s
  classify f c w s

/-- The loop of `llama-inference`'s `main`: the run state, the next token to embed and the
tokens picked so far, after `nTokens` positions. -/
def generate (nTokens : Nat) (s : RunState) : RunState × Nat × List Nat :=
  forUp nTokens (fun pos (s, token, out) =>
    let s := forward f c w token pos s
    let next := argmax f (load s (ptr .logits)) c.vocabSize
    (s, next, out ++ [next])) (s, 0, [])

end Code

end Coconut.Llama
