import Coconut.Exchange
import Coconut.Layers
import Coconut.Layout

/-!
# The two stages of llama-pipeline

Stage 0 embeds the token, runs the first layers and sends the vector; stage 1 runs the
rest, picks the next token and sends it back.  The channel has one slot, and both stages
ignore what `send` and `recv` return.  They stay in step because each of them sends only
what the other is waiting for: `Lock` lists the four situations a position goes through,
and every step of either stage leads from one to the next.
-/
namespace Coconut.Llama
open ArrayLoops

/-! ## Words as bytes -/

/-- The bytes of the words at a pointer. -/
def bytesOf (x : Vec) : Memory := fun a => UInt8.ofNat ((x (a / 4)).toNat / 256 ^ (a % 4))

/-- The words that bytes make up. -/
def wordsOf (m : Memory) : Vec := fun i => BitVec.ofNat 32 (m.readLE (4 * i) 4)

/-- The message of the first `n` words at `x`. -/
def message (x : Vec) (n : Nat) : List UInt8 := (bytesOf x).readBytes 0 (4 * n)

/-- The words at `x` after bytes have been copied over them. -/
def overwrite (x : Vec) (bytes : List UInt8) : Vec := wordsOf ((bytesOf x).writeBytes 0 bytes)

@[simp] theorem length_message (x : Vec) (n : Nat) : (message x n).length = 4 * n :=
  Memory.length_readBytes ..

/-- Words arrive as they were sent. -/
theorem overwrite_message (x y : Vec) {n i : Nat} (hi : i < n) : overwrite y (message x n) i = x i := by
  have hbyte : ∀ j, j < 4 → (((bytesOf y).writeBytes 0 (message x n)) (4 * i + j)).toNat =
      (x i).toNat / 256 ^ j % 256 := by
    intro j hj
    have hget : (message x n)[4 * i + j]? = some (bytesOf x (4 * i + j)) := by
      rw [message, Memory.getElem?_readBytes _ (by omega), Nat.zero_add]
    rw [Memory.writeBytes, if_pos ⟨Nat.zero_le _, by rw [length_message]; omega⟩, Nat.sub_zero,
      List.getD_eq_getElem?_getD, hget, Option.getD_some, bytesOf, UInt8.toNat_ofNat',
      show (4 * i + j) / 4 = i by omega, show (4 * i + j) % 4 = j by omega]
  rw [overwrite, wordsOf, Memory.readLE_of_digits hbyte]
  apply BitVec.eq_of_toNat_eq
  rw [BitVec.toNat_ofNat, show 256 ^ 4 = 2 ^ 32 by decide, Nat.mod_mod]
  exact Nat.mod_eq_of_lt (x i).isLt

/-! ## The stages -/

/-- What the two shards run: the model, the first layer of stage 1 and how many tokens. -/
structure Job where
  f : FloatOps
  c : Config
  w : Weights
  split : Nat
  nTokens : Nat

/-- Where a stage is in the body of its loop. -/
inductive Phase
  | compute | send | recv | done
  deriving DecidableEq

/-- The variables of `main`, and the tokens it has printed. -/
structure Stage where
  phase : Phase
  pos : Nat
  mem : RunState
  token : Nat
  printed : List Nat

namespace Job
variable (J : Job)

/-- The head of the loop: the body begins with `phase`. -/
def loop (pos : Nat) (phase : Phase) : Phase := if pos < J.nTokens then phase else .done

/-- Stage 0: embed the token, run the layers, send the activation, receive the next token. -/
def stage0 (g : Stage) : Op Stage :=
  match g.phase with
  | .compute =>
    let mem := embedToken J.c J.w g.token g.mem
    .work { g with mem := forwardLayers J.f J.c J.w g.pos 0 J.split mem, phase := .send }
  | .send => .send (message (g.mem .x) J.c.dim) { g with phase := .recv }
  | .recv => .recv 4 fun bytes =>
    -- `next_token` is 0 before the receive
    let nextToken := (overwrite (fun _ => 0) bytes 0).toNat
    { g with
      token := nextToken
      printed := g.printed ++ [nextToken]
      pos := g.pos + 1
      phase := J.loop (g.pos + 1) .compute }
  | .done => .stop

/-- Stage 1: receive the activation, run the layers, pick the next token, send it. -/
def stage1 (g : Stage) : Op Stage :=
  match g.phase with
  | .recv => .recv (4 * J.c.dim) fun bytes =>
    { g with mem := g.mem.setBuffer .x (overwrite (g.mem .x) bytes), phase := .compute }
  | .compute =>
    let mem := forwardLayers J.f J.c J.w g.pos J.split J.c.nLayers g.mem
    let mem := classify J.f J.c J.w mem
    .work { g with
      mem := mem
      token := argmax J.f (load mem (ptr .logits)) J.c.vocabSize
      phase := .send }
  | .send => .send (message (fun _ => BitVec.ofNat 32 g.token) 1)
    { g with printed := g.printed ++ [g.token], pos := g.pos + 1, phase := J.loop (g.pos + 1) .recv }
  | .done => .stop

/-- Stage 0 is endpoint 0 of the channel, stage 1 endpoint 1. -/
def program (ep : Fin 2) : Stage → Op Stage := if ep = ep0 then J.stage0 else J.stage1

/-- Both stages before their loops, with any contents of their buffers. -/
def start (ch : Channel) (m0 m1 : RunState) : Exchange Stage where
  ch := ch
  proc ep :=
    if ep = ep0 then ⟨.ready, ⟨J.loop 0 .compute, 0, m0, 0, []⟩⟩
    else ⟨.ready, ⟨J.loop 0 .recv, 0, m1, 0, []⟩⟩

theorem program_ep0 : J.program ep0 = J.stage0 := if_pos rfl

theorem program_ep1 : J.program ep1 = J.stage1 := if_neg (by decide)

/-! ## The model, position by position -/

/-- The token that the model embeds at a position. -/
def tokenAt (p : Nat) : Nat := (modelRun J.f J.c J.w p).1

/-- The cache of the model before a position. -/
def cacheAt (p : Nat) : KvCache := (modelRun J.f J.c J.w p).2

/-- The vector and the cache at the split, at position `p`. -/
def midAt (p : Nat) : Vec × KvCache :=
  modelLayers J.f J.c J.w p 0 J.split
    (offset J.w.tokenEmbeddingTable (J.tokenAt p * J.c.dim), J.cacheAt p)

/-- The vector and the cache after the last layer. -/
def lastAt (p : Nat) : Vec × KvCache :=
  modelLayers J.f J.c J.w p J.split (J.c.nLayers - J.split) (J.midAt p)

variable {J}

theorem modelRun_succ (hk : J.split ≤ J.c.nLayers) (p : Nat) :
    modelRun J.f J.c J.w (p + 1) = (modelToken J.f J.c J.w (J.lastAt p).1, (J.lastAt p).2) := by
  have hcut : modelLayers J.f J.c J.w p 0 J.c.nLayers
      (offset J.w.tokenEmbeddingTable (J.tokenAt p * J.c.dim), J.cacheAt p) = J.lastAt p := by
    obtain ⟨d, hd⟩ := Nat.exists_eq_add_of_le hk
    rw [lastAt, midAt, modelLayers, modelLayers, modelLayers, hd, Nat.add_sub_cancel_left,
      forUp_add]
    simp only [Nat.zero_add]
  exact congrArg (fun a : Vec × KvCache => (modelToken J.f J.c J.w a.1, a.2)) hcut

theorem tokenAt_succ (hk : J.split ≤ J.c.nLayers) (p : Nat) :
    J.tokenAt (p + 1) = modelToken J.f J.c J.w (J.lastAt p).1 :=
  congrArg Prod.fst (modelRun_succ hk p)

theorem cacheAt_succ (hk : J.split ≤ J.c.nLayers) (p : Nat) : J.cacheAt (p + 1) = (J.lastAt p).2 :=
  congrArg Prod.snd (modelRun_succ hk p)

end Job

/-! ## What a stage holds -/

/-- A stage is at a phase of the iteration for position `p`, and has printed the tokens
before it. -/
structure At (J : Job) (g : Stage) (phase : Phase) (p : Nat) : Prop where
  phase : g.phase = phase
  pos : g.pos = p
  printed : g.printed = modelTokens J.f J.c J.w p

/-- Stage 0 has the cache of its layers for the positions before `p`. -/
def Cached0 (J : Job) (g : Stage) (p : Nat) : Prop := HoldsCache J.c g.mem 0 J.split p (J.cacheAt p)

/-- Stage 1 has the cache of its layers for the positions before `p`. -/
def Cached1 (J : Job) (g : Stage) (p : Nat) : Prop :=
  HoldsCache J.c g.mem J.split (J.c.nLayers - J.split) p (J.cacheAt p)

section Stages
variable {J : Job} {g : Stage} {p : Nat}

/-- The layers of stage 0. -/
theorem compute0 (hc : J.c.Valid) (hk : J.split ≤ J.c.nLayers) (hp : p < J.c.seqLen)
    (hcache : Cached0 J g p) :
    let mem := forwardLayers J.f J.c J.w p 0 J.split (embedToken J.c J.w (J.tokenAt p) g.mem)
    Holds mem .x J.c.dim (J.midAt p).1 ∧ HoldsCache J.c mem 0 J.split (p + 1) (J.cacheAt (p + 1)) := by
  have hx : Holds (embedToken J.c J.w (J.tokenAt p) g.mem) .x J.c.dim
      (offset J.w.tokenEmbeddingTable (J.tokenAt p * J.c.dim)) := by
    rw [embedToken_eq]
    exact Holds.fill
  have hr : HoldsCache J.c (embedToken J.c J.w (J.tokenAt p) g.mem) 0 (J.split - 0) p (J.cacheAt p) := by
    rw [embedToken_eq]
    exact hcache.of_buffers (fill_of_ne _ (by decide)) (fill_of_ne _ (by decide))
  obtain ⟨hx', hr'⟩ := forwardLayers_hold J.f J.w hc hp hx hr
  refine ⟨hx', hr'.congr fun ll hll => ?_⟩
  -- the layers of stage 1 leave the rows of stage 0
  rw [Job.cacheAt_succ hk]
  exact modelLayers_outside _ (Or.inl (by omega))

/-- The layers of stage 1 and the classifier. -/
theorem compute1 (hc : J.c.Valid) (hk : J.split ≤ J.c.nLayers) (hp : p < J.c.seqLen)
    (hx : Holds g.mem .x J.c.dim (J.midAt p).1) (hcache : Cached1 J g p) :
    let mem := classify J.f J.c J.w (forwardLayers J.f J.c J.w p J.split J.c.nLayers g.mem)
    argmax J.f (load mem (ptr .logits)) J.c.vocabSize = J.tokenAt (p + 1) ∧
      HoldsCache J.c mem J.split (J.c.nLayers - J.split) (p + 1) (J.cacheAt (p + 1)) := by
  -- the layers of stage 0 leave the rows of stage 1
  have hr : HoldsCache J.c g.mem J.split (J.c.nLayers - J.split) p (J.midAt p).2 :=
    HoldsCache.congr hcache fun ll _ => modelLayers_outside _ (Or.inr (by omega))
  obtain ⟨hx', hr'⟩ := forwardLayers_hold J.f J.w hc hp hx hr
  obtain ⟨htoken, hkeys, hvalues⟩ := classify_eq J.f J.w hx'
  rw [Job.tokenAt_succ hk, Job.cacheAt_succ hk]
  exact ⟨htoken, hr'.of_buffers hkeys hvalues⟩

end Stages

/-! ## Lock step -/

/-- The message that waits for `ep` is the first `n` words of `x`. -/
structure Carries (ch : Channel) (ep : Fin 2) (n : Nat) (x : Vec) : Prop where
  pending : ch.Pending ep
  len : ch.msgLen = 4 * n
  words : ∀ y i, i < n → overwrite y (ch.buffer.readBytes 0 (4 * n)) i = x i

theorem carries_put (ch : Channel) (ep : Fin 2) {n : Nat} {x : Vec} (hn : 0 < n) :
    Carries (ch.put (message x n) (message x n).length ep) ep n x := by
  have hlen : (message x n).length = 4 * n := length_message x n
  refine ⟨⟨?_, rfl⟩, hlen, fun y i hi => ?_⟩
  · show 0 < (message x n).length
    omega
  · rw [Channel.put, ← hlen, Memory.readBytes_writeBytes_self, overwrite_message x y hi]

theorem Carries.congr {ch : Channel} {ep : Fin 2} {n : Nat} {x y : Vec} (h : Carries ch ep n x)
    (hxy : ∀ i, i < n → x i = y i) : Carries ch ep n y :=
  ⟨h.pending, h.len, fun z i hi => (h.words z i hi).trans (hxy i hi)⟩

/-- The situations that a position goes through. -/
inductive Lock (J : Job) (ch : Channel) (x0 x1 : Process Stage) : Prop
  /-- Stage 0 computes and sends; stage 1 waits for the vector. -/
  | sending (p : Nat) (lt : p < J.nTokens) (empty : ch.msgLen = 0)
      (s0 : x0.status = .ready)
      (g0 : At J x0.state .compute p ∧ x0.state.token = J.tokenAt p ∧
          Cached0 J x0.state p ∨
        At J x0.state .send p ∧ Holds x0.state.mem .x J.c.dim (J.midAt p).1 ∧
          Cached0 J x0.state (p + 1))
      (s1 : x1.status ≠ .woken) (g1 : At J x1.state .recv p)
      (c1 : Cached1 J x1.state p)
  /-- The vector is in the channel. -/
  | sent (p : Nat) (lt : p < J.nTokens) (msg : Carries ch ep1 J.c.dim (J.midAt p).1)
      (s0 : x0.status ≠ .woken) (g0 : At J x0.state .recv p)
      (c0 : Cached0 J x0.state (p + 1))
      (s1 : x1.status ≠ .blocked) (g1 : At J x1.state .recv p)
      (c1 : Cached1 J x1.state p)
  /-- Stage 1 computes and sends; stage 0 waits for the token. -/
  | replying (p : Nat) (lt : p < J.nTokens) (empty : ch.msgLen = 0)
      (s0 : x0.status ≠ .woken) (g0 : At J x0.state .recv p)
      (c0 : Cached0 J x0.state (p + 1))
      (s1 : x1.status = .ready)
      (g1 : At J x1.state .compute p ∧
          Holds x1.state.mem .x J.c.dim (J.midAt p).1 ∧ Cached1 J x1.state p ∨
        At J x1.state .send p ∧ x1.state.token = J.tokenAt (p + 1) ∧
          Cached1 J x1.state (p + 1))
  /-- The token is in the channel. -/
  | replied (p : Nat) (lt : p < J.nTokens)
      (msg : Carries ch ep0 1 fun _ => BitVec.ofNat 32 (J.tokenAt (p + 1)))
      (s0 : x0.status ≠ .blocked) (g0 : At J x0.state .recv p)
      (c0 : Cached0 J x0.state (p + 1))
      (s1 : x1.status ≠ .woken)
      (g1 : At J x1.state (J.loop (p + 1) .recv) (p + 1))
      (c1 : Cached1 J x1.state (p + 1))
  /-- Both stages have left their loops. -/
  | done (empty : ch.msgLen = 0) (g0 : At J x0.state .done J.nTokens)
      (g1 : At J x1.state .done J.nTokens)

/-- How far stage 0 is in an iteration. -/
def rank0 : Phase → Status → Nat
  | .compute, _ => 0
  | .send, _ => 1
  | .recv, .ready => 2
  | .recv, .blocked => 3
  | .recv, .woken => 4
  | .done, _ => 0

/-- How far stage 1 is in an iteration. -/
def rank1 : Phase → Status → Nat
  | .recv, .ready => 0
  | .recv, .blocked => 1
  | .recv, .woken => 2
  | .compute, _ => 3
  | .send, _ => 4
  | .done, _ => 0

/-- Five steps a position, ordered within it by `rank`. -/
def stageProgress (rank : Phase → Status → Nat) (x : Process Stage) : Nat :=
  5 * x.state.pos + rank x.state.phase x.status

/-- How far both stages have come. -/
def progress (n : Exchange Stage) : Nat :=
  stageProgress rank0 (n.proc ep0) + stageProgress rank1 (n.proc ep1)

/-- The channel links the stages, and they are in lock step. -/
def InStep (J : Job) (n : Exchange Stage) : Prop :=
  n.ch.Linked ∧ Lock J n.ch (n.proc ep0) (n.proc ep1)

section Steps
variable {J : Job} {n n' : Exchange Stage} {p : Nat}

theorem At.progress {x : Process Stage} {phase : Phase} (h : At J x.state phase p)
    (rank : Phase → Status → Nat) : stageProgress rank x = 5 * p + rank phase x.status := by
  rw [stageProgress, h.pos, h.phase]

theorem At.wake {x : Process Stage} {phase : Phase} (h : At J x.state phase p) :
    At J x.wake.state phase p := x.wake_state.symm ▸ h

/-- Being woken is progress for a stage that waits. -/
theorem rank_wake (x : Process Stage) :
    rank0 .recv x.status ≤ rank0 .recv x.wake.status ∧
      rank1 .recv x.status ≤ rank1 .recv x.wake.status := by
  unfold Process.wake
  cases hs : x.status <;> simp [hs, rank0, rank1]

theorem not_pending_of_empty {ch : Channel} (h : ch.msgLen = 0) (ep : Fin 2) : ¬ ch.Pending ep :=
  fun hp => Nat.ne_of_gt hp.1 h

theorem Carries.not_pending {ch : Channel} {ep ep' : Fin 2} {k : Nat} {x : Vec}
    (h : Carries ch ep k x) (hne : ep ≠ ep') : ¬ ch.Pending ep' :=
  fun hp => hne (h.pending.2.symm.trans hp.2)

theorem argmax_le (f : FloatOps) (v : Vec) (k : Nat) : argmax f v k ≤ k - 1 := by
  refine forUp_inv (P := fun i (m : Nat × Word) => m.1 ≤ i) (Nat.le_refl 0) ?_
  intro i _ m hm
  split
  · exact Nat.le_refl _
  · omega

/-- A token survives the trip through a `uint32_t`. -/
theorem toNat_tokenAt (hc : J.c.Valid) (hk : J.split ≤ J.c.nLayers) (p : Nat) :
    (BitVec.ofNat 32 (J.tokenAt (p + 1))).toNat = J.tokenAt (p + 1) := by
  have hle : J.tokenAt (p + 1) ≤ J.c.vocabSize - 1 := by
    rw [Job.tokenAt_succ hk]
    exact argmax_le ..
  have hv := hc.vocab
  rw [BitVec.toNat_ofNat]
  exact Nat.mod_eq_of_lt (by omega)

/-- A receive of stage 0 that finds no message. -/
theorem block0 (hl : n.ch.Linked) (hs : (n.proc ep0).status = .ready)
    (hg : At J (n.proc ep0).state .recv p) (hm : ¬ n.ch.Pending ep0) :
    Exchange.step J.program ep0 n = some (n.set ep0 ⟨.blocked, (n.proc ep0).state⟩) := by
  have hp : ∃ next, J.program ep0 (n.proc ep0).state = .recv 4 next := by
    rw [J.program_ep0, Job.stage0, hg.phase]
    exact ⟨_, rfl⟩
  obtain ⟨next, hp⟩ := hp
  exact Exchange.step_block hl hs hp (by decide) hm

/-- A receive of stage 1 that finds no message. -/
theorem block1 (hdim : 0 < J.c.dim) (hl : n.ch.Linked) (hs : (n.proc ep1).status = .ready)
    (hg : At J (n.proc ep1).state .recv p) (hm : ¬ n.ch.Pending ep1) :
    Exchange.step J.program ep1 n = some (n.set ep1 ⟨.blocked, (n.proc ep1).state⟩) := by
  have hp : ∃ next, J.program ep1 (n.proc ep1).state = .recv (4 * J.c.dim) next := by
    rw [J.program_ep1, Job.stage1, hg.phase]
    exact ⟨_, rfl⟩
  obtain ⟨next, hp⟩ := hp
  exact Exchange.step_block hl hs hp (by omega) hm

/-- A stage that blocks has come one step further. -/
theorem progress_block0 (hg : At J (n.proc ep0).state .recv p) (hs : (n.proc ep0).status = .ready) :
    progress n < progress (n.set ep0 ⟨.blocked, (n.proc ep0).state⟩) := by
  rw [progress, progress, Exchange.set_self, Exchange.set_of_ne _ (show ep1 ≠ ep0 by decide),
    hg.progress, At.progress (x := ⟨.blocked, _⟩) hg, hs]
  exact Nat.add_lt_add_right (Nat.add_lt_add_left (Nat.lt_succ_self 2) _) _

@[inherit_doc progress_block0]
theorem progress_block1 (hg : At J (n.proc ep1).state .recv p) (hs : (n.proc ep1).status = .ready) :
    progress n < progress (n.set ep1 ⟨.blocked, (n.proc ep1).state⟩) := by
  rw [progress, progress, Exchange.set_self, Exchange.set_of_ne _ (show ep0 ≠ ep1 by decide),
    hg.progress, At.progress (x := ⟨.blocked, _⟩) hg, hs]
  exact Nat.add_lt_add_left (Nat.add_lt_add_left (Nat.lt_succ_self 0) _) _

/-- The tokens printed after one more position. -/
theorem At.next {g : Stage} {phase phase' : Phase} {token : Nat} (h : At J g phase p)
    (ht : token = J.tokenAt (p + 1)) (g' : Stage) (hpos : g'.pos = g.pos + 1)
    (hphase : g'.phase = phase') (hout : g'.printed = g.printed ++ [token]) :
    At J g' phase' (p + 1) := by
  refine ⟨hphase, hpos.trans (congrArg (· + 1) h.pos), ?_⟩
  rw [hout, h.printed, ht, modelTokens_succ]
  rfl

variable (hc : J.c.Valid) (hdim : 0 < J.c.dim) (hk : J.split ≤ J.c.nLayers)
  (hN : J.nTokens ≤ J.c.seqLen)

section Stage0
include hc hk hN

/-- Stage 0 computes. -/
theorem step_compute0 (hl : n.ch.Linked) (lt : p < J.nTokens) (empty : n.ch.msgLen = 0)
    (s0 : (n.proc ep0).status = .ready) (hat : At J (n.proc ep0).state .compute p)
    (htok : (n.proc ep0).state.token = J.tokenAt p) (hcache : Cached0 J (n.proc ep0).state p)
    (s1 : (n.proc ep1).status ≠ .woken) (g1 : At J (n.proc ep1).state .recv p)
    (c1 : Cached1 J (n.proc ep1).state p) (hs : Exchange.step J.program ep0 n = some n') :
    InStep J n' ∧ progress n < progress n' := by
  have h10 : ep1 ≠ ep0 := by decide
  have hp : ∃ g, J.program ep0 (n.proc ep0).state = .work g ∧ At J g .send p ∧
      Holds g.mem .x J.c.dim (J.midAt p).1 ∧ Cached0 J g (p + 1) := by
    rw [J.program_ep0, Job.stage0, hat.phase]
    refine ⟨_, rfl, ⟨rfl, hat.pos, hat.printed⟩, ?_⟩
    rw [hat.pos, htok]
    exact compute0 hc hk (Nat.lt_of_lt_of_le lt hN) hcache
  obtain ⟨g, hp, hat', hx, hcache'⟩ := hp
  rw [Exchange.step_work s0 hp] at hs
  obtain rfl := Option.some.inj hs
  refine ⟨⟨hl, ?_⟩, ?_⟩
  · rw [Exchange.set_self, Exchange.set_of_ne _ h10]
    exact .sending p lt empty rfl (Or.inr ⟨hat', hx, hcache'⟩) s1 g1 c1
  · rw [progress, progress, Exchange.set_self, Exchange.set_of_ne _ h10, hat.progress,
      At.progress (x := ⟨.ready, _⟩) hat', s0]
    exact Nat.add_lt_add_right (Nat.add_lt_add_left (Nat.lt_succ_self 0) _) _

end Stage0

/-- The vector goes into the empty channel, and a stage 1 that waits is woken. -/
theorem step_send0 (hc : J.c.Valid) (hdim : 0 < J.c.dim) (hl : n.ch.Linked) (lt : p < J.nTokens)
    (s0 : (n.proc ep0).status = .ready) (hat : At J (n.proc ep0).state .send p)
    (hx : Holds (n.proc ep0).state.mem .x J.c.dim (J.midAt p).1)
    (hcache : Cached0 J (n.proc ep0).state (p + 1)) (g1 : At J (n.proc ep1).state .recv p)
    (c1 : Cached1 J (n.proc ep1).state p) (hs : Exchange.step J.program ep0 n = some n') :
    InStep J n' ∧ progress n < progress n' := by
  have hp : ∃ g, J.program ep0 (n.proc ep0).state =
      .send (message ((n.proc ep0).state.mem .x) J.c.dim) g ∧ At J g .recv p ∧
        Cached0 J g (p + 1) := by
    rw [J.program_ep0, Job.stage0, hat.phase]
    exact ⟨_, rfl, ⟨rfl, hat.pos, hat.printed⟩, hcache⟩
  obtain ⟨g, hp, hat', hcache'⟩ := hp
  have hmsg := hc.message
  obtain ⟨n₁, hn, hch, hself, hpeer⟩ := Exchange.step_send hl s0 hp
    (by rw [length_message]; omega) (by rw [length_message]; omega)
  rw [hn] at hs
  obtain rfl := Option.some.inj hs
  have hpeer : n₁.proc ep1 = (n.proc ep1).wake := hpeer
  refine ⟨⟨hch ▸ hl.put .., ?_⟩, ?_⟩
  · rw [hself, hpeer, hch]
    exact .sent p lt ((carries_put n.ch ep1 hdim).congr fun i hi =>
      (congrFun (load_ptr _ _) i).symm.trans (hx i hi)) nofun hat' hcache' (Process.wake_status _)
      g1.wake ((n.proc ep1).wake_state.symm ▸ c1)
  · rw [progress, progress, hself, hpeer, hat.progress, At.progress (x := ⟨.ready, _⟩) hat',
      g1.progress, g1.wake.progress, s0]
    have := (rank_wake (n.proc ep1)).2
    exact Nat.add_lt_add_of_lt_of_le (Nat.add_lt_add_left (Nat.lt_succ_self 1) _)
      (Nat.add_le_add_left this _)

/-- The token is taken, and the next position begins, or the loops are over. -/
theorem step_recv0 (hc : J.c.Valid) (hk : J.split ≤ J.c.nLayers) (hl : n.ch.Linked)
    (lt : p < J.nTokens)
    (msg : Carries n.ch ep0 1 fun _ => BitVec.ofNat 32 (J.tokenAt (p + 1)))
    (s0 : (n.proc ep0).status ≠ .blocked) (g0 : At J (n.proc ep0).state .recv p)
    (c0 : Cached0 J (n.proc ep0).state (p + 1)) (s1 : (n.proc ep1).status ≠ .woken)
    (g1 : At J (n.proc ep1).state (J.loop (p + 1) .recv) (p + 1))
    (c1 : Cached1 J (n.proc ep1).state (p + 1))
    (hs : Exchange.step J.program ep0 n = some n') : InStep J n' ∧ progress n < progress n' := by
  have h10 : ep1 ≠ ep0 := by decide
  have htok : (overwrite (fun _ => 0) (n.ch.buffer.readBytes 0 (min n.ch.msgLen 4)) 0).toNat =
      J.tokenAt (p + 1) := by
    rw [msg.len, Nat.min_self, show 4 = 4 * 1 from rfl, msg.words _ 0 (by decide),
      toNat_tokenAt hc hk]
  have hp : ∃ next, J.program ep0 (n.proc ep0).state = .recv 4 next ∧
      let g := next (n.ch.buffer.readBytes 0 (min n.ch.msgLen 4))
      At J g (J.loop (p + 1) .compute) (p + 1) ∧ g.token = J.tokenAt (p + 1) ∧
        Cached0 J g (p + 1) := by
    rw [J.program_ep0, Job.stage0, g0.phase]
    exact ⟨_, rfl, g0.next htok _ rfl (by rw [g0.pos]) rfl, htok, c0⟩
  obtain ⟨next, hp, hat, htoken, hcache⟩ := hp
  rw [Exchange.step_recv hl s0 hp (by decide) msg.pending] at hs
  obtain rfl := Option.some.inj hs
  refine ⟨⟨hl.clear, ?_⟩, ?_⟩
  · rw [Exchange.set_self, Exchange.set_of_ne _ h10]
    by_cases hlt : p + 1 < J.nTokens
    · rw [Job.loop, if_pos hlt] at hat g1
      exact .sending (p + 1) hlt rfl rfl (Or.inl ⟨hat, htoken, hcache⟩) s1 g1 c1
    · have heq : p + 1 = J.nTokens := by omega
      rw [Job.loop, if_neg hlt, heq] at hat g1
      exact .done rfl hat g1
  · rw [progress, progress, Exchange.set_self, Exchange.set_of_ne _ h10, g0.progress,
      At.progress (x := ⟨.ready, _⟩) hat]
    have hle : rank0 .recv (n.proc ep0).status ≤ 4 := by
      cases (n.proc ep0).status <;> decide
    exact Nat.add_lt_add_right (by omega) _

/-- The vector is taken. -/
theorem step_recv1 (hdim : 0 < J.c.dim) (hl : n.ch.Linked) (lt : p < J.nTokens)
    (msg : Carries n.ch ep1 J.c.dim (J.midAt p).1)
    (s0 : (n.proc ep0).status ≠ .woken) (g0 : At J (n.proc ep0).state .recv p)
    (c0 : Cached0 J (n.proc ep0).state (p + 1))
    (s1 : (n.proc ep1).status ≠ .blocked) (g1 : At J (n.proc ep1).state .recv p)
    (c1 : Cached1 J (n.proc ep1).state p)
    (hs : Exchange.step J.program ep1 n = some n') : InStep J n' ∧ progress n < progress n' := by
  have h01 : ep0 ≠ ep1 := by decide
  have hp : ∃ next, J.program ep1 (n.proc ep1).state = .recv (4 * J.c.dim) next ∧
      let g := next (n.ch.buffer.readBytes 0 (min n.ch.msgLen (4 * J.c.dim)))
      At J g .compute p ∧ Holds g.mem .x J.c.dim (J.midAt p).1 ∧ Cached1 J g p := by
    rw [J.program_ep1, Job.stage1, g1.phase]
    refine ⟨_, rfl, ⟨rfl, g1.pos, g1.printed⟩, fun i hi => ?_, ?_⟩
    · rw [load_ptr, msg.len, Nat.min_self, ← msg.words ((n.proc ep1).state.mem .x) i hi]
      exact congrFun (RunState.setBuffer_self (n.proc ep1).state.mem .x _) i
    · exact HoldsCache.setBuffer_x c1 _
  obtain ⟨next, hp, hat, hx, hcache⟩ := hp
  rw [Exchange.step_recv hl s1 hp (by omega) msg.pending] at hs
  obtain rfl := Option.some.inj hs
  refine ⟨⟨hl.clear, ?_⟩, ?_⟩
  · rw [Exchange.set_self, Exchange.set_of_ne _ h01]
    exact .replying p lt rfl s0 g0 c0 rfl (Or.inl ⟨hat, hx, hcache⟩)
  · rw [progress, progress, Exchange.set_self, Exchange.set_of_ne _ h01, g1.progress,
      At.progress (x := ⟨.ready, _⟩) hat]
    have hle : rank1 .recv (n.proc ep1).status < 3 := by
      cases (n.proc ep1).status <;> decide
    exact Nat.add_lt_add_left (Nat.add_lt_add_left hle _) _

/-- Stage 1 computes. -/
theorem step_compute1 (hc : J.c.Valid) (hk : J.split ≤ J.c.nLayers) (hN : J.nTokens ≤ J.c.seqLen)
    (hl : n.ch.Linked) (lt : p < J.nTokens) (empty : n.ch.msgLen = 0)
    (s0 : (n.proc ep0).status ≠ .woken) (g0 : At J (n.proc ep0).state .recv p)
    (c0 : Cached0 J (n.proc ep0).state (p + 1)) (s1 : (n.proc ep1).status = .ready)
    (hat : At J (n.proc ep1).state .compute p)
    (hx : Holds (n.proc ep1).state.mem .x J.c.dim (J.midAt p).1)
    (hcache : Cached1 J (n.proc ep1).state p)
    (hs : Exchange.step J.program ep1 n = some n') : InStep J n' ∧ progress n < progress n' := by
  have h01 : ep0 ≠ ep1 := by decide
  have hp : ∃ g, J.program ep1 (n.proc ep1).state = .work g ∧ At J g .send p ∧
      g.token = J.tokenAt (p + 1) ∧ Cached1 J g (p + 1) := by
    rw [J.program_ep1, Job.stage1, hat.phase]
    refine ⟨_, rfl, ⟨rfl, hat.pos, hat.printed⟩, ?_⟩
    rw [hat.pos]
    exact compute1 hc hk (Nat.lt_of_lt_of_le lt hN) hx hcache
  obtain ⟨g, hp, hat', htok, hcache'⟩ := hp
  rw [Exchange.step_work s1 hp] at hs
  obtain rfl := Option.some.inj hs
  refine ⟨⟨hl, ?_⟩, ?_⟩
  · rw [Exchange.set_self, Exchange.set_of_ne _ h01]
    exact .replying p lt empty s0 g0 c0 rfl (Or.inr ⟨hat', htok, hcache'⟩)
  · rw [progress, progress, Exchange.set_self, Exchange.set_of_ne _ h01, hat.progress,
      At.progress (x := ⟨.ready, _⟩) hat', s1]
    exact Nat.add_lt_add_left (Nat.add_lt_add_left (Nat.lt_succ_self 3) _) _

/-- The token goes into the empty channel, and a stage 0 that waits is woken. -/
theorem step_send1 (hl : n.ch.Linked) (lt : p < J.nTokens)
    (g0 : At J (n.proc ep0).state .recv p) (c0 : Cached0 J (n.proc ep0).state (p + 1))
    (s1 : (n.proc ep1).status = .ready) (hat : At J (n.proc ep1).state .send p)
    (htok : (n.proc ep1).state.token = J.tokenAt (p + 1))
    (hcache : Cached1 J (n.proc ep1).state (p + 1))
    (hs : Exchange.step J.program ep1 n = some n') : InStep J n' ∧ progress n < progress n' := by
  have hp : ∃ g, J.program ep1 (n.proc ep1).state =
      .send (message (fun _ => BitVec.ofNat 32 (n.proc ep1).state.token) 1) g ∧
      At J g (J.loop (p + 1) .recv) (p + 1) ∧ Cached1 J g (p + 1) := by
    rw [J.program_ep1, Job.stage1, hat.phase]
    exact ⟨_, rfl, hat.next htok _ rfl (by rw [hat.pos]) rfl, hcache⟩
  obtain ⟨g, hp, hat', hcache'⟩ := hp
  rw [htok] at hp
  obtain ⟨n₁, hn, hch, hself, hpeer⟩ := Exchange.step_send hl s1 hp
    (by rw [length_message]; decide) (by rw [length_message]; decide)
  rw [hn] at hs
  obtain rfl := Option.some.inj hs
  have hpeer : n₁.proc ep0 = (n.proc ep0).wake := hpeer
  refine ⟨⟨hch ▸ hl.put .., ?_⟩, ?_⟩
  · rw [hself, hpeer, hch]
    exact .replied p lt (carries_put n.ch ep0 Nat.one_pos) (Process.wake_status _) g0.wake
      ((n.proc ep0).wake_state.symm ▸ c0) nofun hat' hcache'
  · rw [progress, progress, hself, hpeer, hat.progress, At.progress (x := ⟨.ready, _⟩) hat',
      g0.progress, g0.wake.progress, s1]
    have hle := (rank_wake (n.proc ep0)).1
    have hrank : rank1 .send .ready = 4 := rfl
    omega

/-- A receive that finds no message only blocks its stage. -/
theorem blocks0 (hl : n.ch.Linked) (hw : (n.proc ep0).status ≠ .woken)
    (hg : At J (n.proc ep0).state .recv p) (hm : ¬ n.ch.Pending ep0)
    (hs : Exchange.step J.program ep0 n = some n') : progress n < progress n' ∧ n'.ch = n.ch ∧
      n'.proc ep0 = ⟨.blocked, (n.proc ep0).state⟩ ∧ n'.proc ep1 = n.proc ep1 := by
  cases hst : (n.proc ep0).status with
  | ready =>
    rw [block0 hl hst hg hm] at hs
    obtain rfl := Option.some.inj hs
    exact ⟨progress_block0 hg hst, rfl, Exchange.set_self _, Exchange.set_of_ne _ (by decide)⟩
  | blocked =>
    rw [Exchange.step_blocked hst] at hs
    cases hs
  | woken => exact absurd hst hw

@[inherit_doc blocks0]
theorem blocks1 (hdim : 0 < J.c.dim) (hl : n.ch.Linked) (hw : (n.proc ep1).status ≠ .woken)
    (hg : At J (n.proc ep1).state .recv p) (hm : ¬ n.ch.Pending ep1)
    (hs : Exchange.step J.program ep1 n = some n') : progress n < progress n' ∧ n'.ch = n.ch ∧
      n'.proc ep1 = ⟨.blocked, (n.proc ep1).state⟩ ∧ n'.proc ep0 = n.proc ep0 := by
  cases hst : (n.proc ep1).status with
  | ready =>
    rw [block1 hdim hl hst hg hm] at hs
    obtain rfl := Option.some.inj hs
    exact ⟨progress_block1 hg hst, rfl, Exchange.set_self _, Exchange.set_of_ne _ (by decide)⟩
  | blocked =>
    rw [Exchange.step_blocked hst] at hs
    cases hs
  | woken => exact absurd hst hw

theorem stops0 (hg : At J (n.proc ep0).state .done p) : Exchange.step J.program ep0 n = none :=
  Exchange.step_stop (by rw [J.program_ep0, Job.stage0, hg.phase])

theorem stops1 (hg : At J (n.proc ep1).state .done p) : Exchange.step J.program ep1 n = none :=
  Exchange.step_stop (by rw [J.program_ep1, Job.stage1, hg.phase])

section Both
variable (hc : J.c.Valid) (hdim : 0 < J.c.dim) (hk : J.split ≤ J.c.nLayers)
  (hN : J.nTokens ≤ J.c.seqLen)
include hc hdim hk hN

/-- A step of stage 0. -/
theorem inStep0 (h : InStep J n) (hs : Exchange.step J.program ep0 n = some n') :
    InStep J n' ∧ progress n < progress n' := by
  obtain ⟨hl, hlock⟩ := h
  cases hlock with
  | sending p lt empty s0 g0 s1 g1 c1 =>
    rcases g0 with ⟨hat, htok, hcache⟩ | ⟨hat, hx, hcache⟩
    · exact step_compute0 hc hk hN hl lt empty s0 hat htok hcache s1 g1 c1 hs
    · exact step_send0 hc hdim hl lt s0 hat hx hcache g1 c1 hs
  | sent p lt msg s0 g0 c0 s1 g1 c1 =>
    obtain ⟨hlt, hch, h0, h1⟩ := blocks0 hl s0 g0 (msg.not_pending (by decide)) hs
    refine ⟨⟨hch ▸ hl, ?_⟩, hlt⟩
    rw [hch, h0, h1]
    exact .sent p lt msg nofun g0 c0 s1 g1 c1
  | replying p lt empty s0 g0 c0 s1 g1 =>
    obtain ⟨hlt, hch, h0, h1⟩ := blocks0 hl s0 g0 (not_pending_of_empty empty ep0) hs
    refine ⟨⟨hch ▸ hl, ?_⟩, hlt⟩
    rw [hch, h0, h1]
    exact .replying p lt empty nofun g0 c0 s1 g1
  | replied p lt msg s0 g0 c0 s1 g1 c1 =>
    exact step_recv0 hc hk hl lt msg s0 g0 c0 s1 g1 c1 hs
  | done empty g0 g1 =>
    rw [stops0 g0] at hs
    cases hs

/-- A step of stage 1. -/
theorem inStep1 (h : InStep J n) (hs : Exchange.step J.program ep1 n = some n') :
    InStep J n' ∧ progress n < progress n' := by
  obtain ⟨hl, hlock⟩ := h
  cases hlock with
  | sending p lt empty s0 g0 s1 g1 c1 =>
    obtain ⟨hlt, hch, h1, h0⟩ := blocks1 hdim hl s1 g1 (not_pending_of_empty empty ep1) hs
    refine ⟨⟨hch ▸ hl, ?_⟩, hlt⟩
    rw [hch, h0, h1]
    exact .sending p lt empty s0 g0 nofun g1 c1
  | sent p lt msg s0 g0 c0 s1 g1 c1 =>
    exact step_recv1 hdim hl lt msg s0 g0 c0 s1 g1 c1 hs
  | replying p lt empty s0 g0 c0 s1 g1 =>
    rcases g1 with ⟨hat, hx, hcache⟩ | ⟨hat, htok, hcache⟩
    · exact step_compute1 hc hk hN hl lt empty s0 g0 c0 s1 hat hx hcache hs
    · exact step_send1 hl lt g0 c0 s1 hat htok hcache hs
  | replied p lt msg s0 g0 c0 s1 g1 c1 =>
    by_cases hend : p + 1 < J.nTokens
    · have g1' : At J (n.proc ep1).state .recv (p + 1) := by
        rwa [Job.loop, if_pos hend] at g1
      obtain ⟨hlt, hch, h1, h0⟩ := blocks1 hdim hl s1 g1' (msg.not_pending (by decide)) hs
      refine ⟨⟨hch ▸ hl, ?_⟩, hlt⟩
      rw [hch, h0, h1]
      exact .replied p lt msg s0 g0 c0 nofun g1 c1
    · -- stage 1 has left its loop
      rw [Job.loop, if_neg hend] at g1
      rw [stops1 g1] at hs
      cases hs
  | done empty g0 g1 =>
    rw [stops1 g1] at hs
    cases hs

theorem inStep_step (h : InStep J n) {ep : Fin 2} (hs : Exchange.step J.program ep n = some n') :
    InStep J n' ∧ progress n < progress n' := by
  rcases ep_cases ep with rfl | rfl
  · exact inStep0 hc hdim hk hN h hs
  · exact inStep1 hc hdim hk hN h hs

omit hc hdim hN hk in
/-- Until both loops are over, one of the stages can run. -/
theorem inStep_stuck (h : InStep J n) (hs : ∀ ep, Exchange.step J.program ep n = none) :
    At J (n.proc ep0).state .done J.nTokens ∧ At J (n.proc ep1).state .done J.nTokens := by
  obtain ⟨hl, hlock⟩ := h
  have ready0 : ∀ {phase p}, (n.proc ep0).status = .ready → At J (n.proc ep0).state phase p →
      phase = .compute ∨ phase = .send → False := by
    intro phase p hst hat hph
    refine Exchange.step_of_ready hst ?_ (hs ep0)
    rw [J.program_ep0, Job.stage0, hat.phase]
    rcases hph with rfl | rfl <;> nofun
  have ready1 : ∀ {phase p}, (n.proc ep1).status = .ready → At J (n.proc ep1).state phase p →
      phase = .compute ∨ phase = .send → False := by
    intro phase p hst hat hph
    refine Exchange.step_of_ready hst ?_ (hs ep1)
    rw [J.program_ep1, Job.stage1, hat.phase]
    rcases hph with rfl | rfl <;> nofun
  cases hlock with
  | sending p lt empty s0 g0 s1 g1 c1 =>
    rcases g0 with ⟨hat, -⟩ | ⟨hat, -⟩
    · exact (ready0 s0 hat (Or.inl rfl)).elim
    · exact (ready0 s0 hat (Or.inr rfl)).elim
  | sent p lt msg s0 g0 c0 s1 g1 c1 =>
    obtain ⟨next, hp⟩ : ∃ next, J.program ep1 (n.proc ep1).state = .recv (4 * J.c.dim) next := by
      rw [J.program_ep1, Job.stage1, g1.phase]
      exact ⟨_, rfl⟩
    exact absurd (hs ep1) (Exchange.step_of_recv s1 hp)
  | replying p lt empty s0 g0 c0 s1 g1 =>
    rcases g1 with ⟨hat, -⟩ | ⟨hat, -⟩
    · exact (ready1 s1 hat (Or.inl rfl)).elim
    · exact (ready1 s1 hat (Or.inr rfl)).elim
  | replied p lt msg s0 g0 c0 s1 g1 c1 =>
    obtain ⟨next, hp⟩ : ∃ next, J.program ep0 (n.proc ep0).state = .recv 4 next := by
      rw [J.program_ep0, Job.stage0, g0.phase]
      exact ⟨_, rfl⟩
    exact absurd (hs ep0) (Exchange.step_of_recv s0 hp)
  | done empty g0 g1 => exact ⟨g0, g1⟩

end Both

/-- Each stage goes through at most five steps a position. -/
theorem progress_le (h : InStep J n) : progress n ≤ 10 * J.nTokens := by
  have h0 : ∀ phase status, rank0 phase status ≤ 4 := by
    intro phase status
    cases phase <;> cases status <;> decide
  have h1 : ∀ phase status, rank1 phase status ≤ 4 := by
    intro phase status
    cases phase <;> cases status <;> decide
  have hbound : ∀ p, p < J.nTokens → (n.proc ep0).state.pos = p →
      (n.proc ep1).state.pos = p → progress n ≤ 10 * J.nTokens := by
    intro p lt hp0 hp1
    have := h0 (n.proc ep0).state.phase (n.proc ep0).status
    have := h1 (n.proc ep1).state.phase (n.proc ep1).status
    rw [progress, stageProgress, stageProgress, hp0, hp1]
    omega
  cases h.2 with
  | sending p lt empty s0 g0 s1 g1 c1 =>
    exact hbound p lt (g0.elim (·.1.pos) (·.1.pos)) g1.pos
  | sent p lt msg s0 g0 c0 s1 g1 c1 => exact hbound p lt g0.pos g1.pos
  | replying p lt empty s0 g0 c0 s1 g1 =>
    exact hbound p lt g0.pos (g1.elim (·.1.pos) (·.1.pos))
  | replied p lt msg s0 g0 c0 s1 g1 c1 =>
    -- stage 1 is one position ahead, at its head
    have hr0 := h0 .recv (n.proc ep0).status
    have hr1 : rank1 (J.loop (p + 1) .recv) (n.proc ep1).status ≤ 1 := by
      unfold Job.loop
      split
      · cases hst : (n.proc ep1).status with
        | woken => exact absurd hst s1
        | ready | blocked => decide
      · exact Nat.zero_le _
    rw [progress, g0.progress, g1.progress]
    omega
  | done empty g0 g1 =>
    rw [progress, g0.progress, g1.progress]
    have : rank0 .done (n.proc ep0).status = 0 := rfl
    have : rank1 .done (n.proc ep1).status = 0 := rfl
    omega

/-- A stage that is about to send finds the channel empty. -/
theorem inStep_sends (h : InStep J n) {ep : Fin 2} (hs : Exchange.Sends J.program n ep) :
    n.ch.msgLen = 0 := by
  obtain ⟨-, bytes, next, hp⟩ := hs
  have not0 : ∀ {phase p}, At J (n.proc ep0).state phase p → phase = .recv ∨ phase = .done →
      ep ≠ ep0 := by
    rintro phase p hat hph rfl
    rw [J.program_ep0, Job.stage0, hat.phase] at hp
    rcases hph with rfl | rfl <;> cases hp
  have not1 : ∀ {phase p}, At J (n.proc ep1).state phase p → phase = .recv ∨ phase = .done →
      ep ≠ ep1 := by
    rintro phase p hat hph rfl
    rw [J.program_ep1, Job.stage1, hat.phase] at hp
    rcases hph with rfl | rfl <;> cases hp
  cases h.2 with
  | sending p lt empty | replying p lt empty | done empty => exact empty
  | sent p lt msg s0 g0 c0 s1 g1 c1 =>
    exact ((ep_cases ep).elim (not0 g0 (Or.inl rfl)) (not1 g1 (Or.inl rfl))).elim
  | replied p lt msg s0 g0 c0 s1 g1 c1 =>
    have hphase : J.loop (p + 1) .recv = .recv ∨ J.loop (p + 1) .recv = .done := by
      unfold Job.loop
      split
      · exact Or.inl rfl
      · exact Or.inr rfl
    exact ((ep_cases ep).elim (not0 g0 (Or.inl rfl)) (not1 g1 hphase)).elim

/-- The stages start in lock step. -/
theorem inStep_start {ch : Channel} (hl : ch.Linked) (hempty : ch.msgLen = 0) (m0 m1 : RunState) :
    InStep J (J.start ch m0 m1) := by
  refine ⟨hl, ?_⟩
  have h10 : ep1 ≠ ep0 := by decide
  have hrows : ∀ start k m, HoldsCache J.c m start k 0 (J.cacheAt 0) :=
    fun _ _ _ _ _ => ⟨nofun, nofun⟩
  simp only [Job.start, if_pos, if_neg h10]
  by_cases hN : 0 < J.nTokens
  · exact .sending 0 hN hempty rfl (Or.inl ⟨⟨if_pos hN, rfl, rfl⟩, rfl, hrows 0 J.split m0⟩) nofun
      ⟨if_pos hN, rfl, rfl⟩ (hrows J.split (J.c.nLayers - J.split) m1)
  · have h0 : J.nTokens = 0 := by omega
    exact .done hempty ⟨if_neg hN, h0.symm, by rw [h0]; rfl⟩ ⟨if_neg hN, h0.symm, by rw [h0]; rfl⟩

end Steps

/-- Whatever the order in which the supervisor runs the stages, no send meets an unread
message, the run is over after at most ten steps a position, and it is over only when both
stages have completed their iterations, with the tokens of `llama-inference`. -/
theorem pipeline_refines (J : Job) (hc : J.c.Valid) (hdim : 0 < J.c.dim)
    (hk : J.split ≤ J.c.nLayers) (hN : J.nTokens ≤ J.c.seqLen) {ch : Channel} (hl : ch.Linked)
    (hempty : ch.msgLen = 0) (m0 m1 m : RunState) {eps : List (Fin 2)} {n : Exchange Stage}
    (hexec : Exchange.exec J.program eps (J.start ch m0 m1) = some n) :
    (∀ ep, Exchange.Sends J.program n ep → n.ch.msgLen = 0) ∧ eps.length ≤ 10 * J.nTokens ∧
      ((∀ ep, Exchange.step J.program ep n = none) → ∀ ep, (n.proc ep).state.phase = .done ∧
        (n.proc ep).state.pos = J.nTokens ∧
        (n.proc ep).state.printed = (generate J.f J.c J.w J.nTokens m).2.2) := by
  have hstep : ∀ n ep n', InStep J n → Exchange.step J.program ep n = some n' →
      InStep J n' ∧ progress n < progress n' := fun n ep n' h hs =>
    inStep_step hc hdim hk hN h hs
  obtain ⟨hin, hlen⟩ := Exchange.exec_inv hstep (inStep_start hl hempty m0 m1) hexec
  refine ⟨fun ep hs => inStep_sends hin hs, ?_, fun hstuck ep => ?_⟩
  · have := progress_le hin
    omega
  · obtain ⟨-, -, htokens⟩ := generate_eq J.f J.w hc m hN
    obtain ⟨g0, g1⟩ := inStep_stuck hin hstuck
    rw [htokens]
    rcases ep_cases ep with rfl | rfl
    · exact ⟨g0.phase, g0.pos, g0.printed⟩
    · exact ⟨g1.phase, g1.pos, g1.printed⟩

/-- Operations on the words as integers. -/
def wordOps : FloatOps where
  zero := 0
  one := 1
  eps := 1
  ofInt n := BitVec.ofNat 32 n
  add a b := a + b
  sub a b := a - b
  mul a b := a * b
  div a b := a ^^^ b
  neg a := -a
  gt a b := b.slt a
  expf a := a + 1
  sqrtf a := a

/-- A model of vectors of length `dim` with two layers, split between them. -/
def smallJob (dim nTokens : Nat) : Job where
  f := wordOps
  c := ⟨dim, 1, 2, 1, 1, 4, 2⟩
  w :=
    let w : Vec := fun i => BitVec.ofNat 32 (i + 1)
    ⟨w, w, w, w, w, w, w, w, w, w, w, w, w, w⟩
  split := 1
  nTokens := nTokens

/-- A channel between shards 1 and 2. -/
def smallChannel : Channel :=
  { Channel.initial with active := true, shard := fun ep => if ep = ep0 then 1 else 2 }

theorem smallChannel_linked : smallChannel.Linked := ⟨rfl, by decide⟩

theorem smallJob_valid {dim : Nat} (nTokens : Nat) (h : 2 ∣ dim) (hd : 4 * dim ≤ maxMsgSize) :
    (smallJob dim nTokens).c.Valid :=
  ⟨Nat.one_dvd _, Nat.one_dvd _, by rwa [Config.headSize, smallJob, Nat.div_one], hd,
    show 4 < 2 ^ 31 by decide⟩

/-- Where the stages are, and the length of the message in the channel. -/
def Exchange.view (n : Exchange Stage) : Phase × Phase × Nat :=
  ((n.proc ep0).state.phase, (n.proc ep1).state.phase, n.ch.msgLen)

/-- A run of two positions.  In the first stage 1 blocks and stage 0 finds the token in the
channel, in the second it is the other way round. -/
def smallSchedule : List (Fin 2) :=
  [ep1, ep0, ep0, ep1, ep1, ep1, ep0, ep0, ep0, ep0, ep1, ep1, ep1, ep0]

/-- Its end. -/
def smallEnd : Option (Exchange Stage) :=
  Exchange.exec (smallJob 2 2).program smallSchedule
    ((smallJob 2 2).start smallChannel (fun _ _ => 0) fun _ _ => 0)

theorem smallEnd_view : smallEnd.map Exchange.view = some (.done, .done, 0) := by
  decide +kernel

theorem smallJob_tokens :
    (generate wordOps (smallJob 2 2).c (smallJob 2 2).w 2 fun _ _ => 0).2.2 = [3, 2] := by
  decide +kernel

theorem pipeline_refines_small : ∃ n, smallEnd = some n ∧
    (∀ ep, Exchange.Sends (smallJob 2 2).program n ep → n.ch.msgLen = 0) ∧
    ∀ ep, (n.proc ep).state.pos = 2 ∧ (n.proc ep).state.printed = [3, 2] := by
  obtain ⟨n, hn, hv⟩ := Option.map_eq_some_iff.mp smallEnd_view
  obtain ⟨h0, h1, -⟩ : (n.proc ep0).state.phase = .done ∧ (n.proc ep1).state.phase = .done ∧ _ :=
    ⟨congrArg (·.1) hv, congrArg (·.2.1) hv, congrArg (·.2.2) hv⟩
  obtain ⟨hsends, -, hdone⟩ := pipeline_refines (smallJob 2 2)
    (smallJob_valid 2 (by decide) (by decide)) (by decide) (by decide) (by decide)
    smallChannel_linked rfl _ _ (fun _ _ => 0) hn
  have hstuck : ∀ ep, Exchange.step (smallJob 2 2).program ep n = none := by
    intro ep
    apply Exchange.step_stop
    rcases ep_cases ep with rfl | rfl
    · rw [Job.program_ep0, Job.stage0, h0]
    · rw [Job.program_ep1, Job.stage1, h1]
  refine ⟨n, hn, hsends, fun ep => ?_⟩
  obtain ⟨-, hpos, hprinted⟩ := hdone hstuck ep
  exact ⟨hpos, hprinted.trans smallJob_tokens⟩

/-- With vectors of length 0 the supervisor refuses the receive of stage 1, which then sends
its second token over the first. -/
theorem zeroDim_overwrites : (smallJob 0 2).c.Valid ∧ (smallJob 0 2).split ≤ (smallJob 0 2).c.nLayers ∧
    (smallJob 0 2).nTokens ≤ (smallJob 0 2).c.seqLen ∧ smallChannel.Linked ∧
    smallChannel.msgLen = 0 ∧ ∃ n,
    Exchange.exec (smallJob 0 2).program [ep1, ep1, ep1, ep1, ep1]
      ((smallJob 0 2).start smallChannel (fun _ _ => 0) fun _ _ => 0) = some n ∧
    Exchange.Sends (smallJob 0 2).program n ep1 ∧ n.ch.msgLen = 4 := by
  refine ⟨smallJob_valid 2 (by decide) (by decide), by decide, by decide, smallChannel_linked,
    rfl, ?_⟩
  have hview : (Exchange.exec (smallJob 0 2).program [ep1, ep1, ep1, ep1, ep1]
      ((smallJob 0 2).start smallChannel (fun _ _ => 0) fun _ _ => 0)).map
        (fun n => ((n.proc ep1).status, Exchange.view n)) = some (.ready, .compute, .send, 4) := by
    decide +kernel
  obtain ⟨n, hn, hv⟩ := Option.map_eq_some_iff.mp hview
  refine ⟨n, hn, ⟨congrArg (·.1) hv, ?_⟩, congrArg (·.2.2.2) hv⟩
  have hphase : (n.proc ep1).state.phase = .send := congrArg (·.2.2.1) hv
  rw [Job.program_ep1, Job.stage1, hphase]
  exact ⟨_, _, rfl⟩

end Coconut.Llama
