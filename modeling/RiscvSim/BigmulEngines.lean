import RiscvSim.BigmulProduct
import Mathlib.Data.Nat.Log

/-! The other ways in which the unit can multiply: a delay line behind the batch adder, pipelines
of three and of seven stages, and one diagonal per cycle. -/

namespace RiscvSim

/-- `csa_depth_for_count`: the rounded up binary logarithm less one, between 0 and 4. -/
def csaDepthForCount (count : Int) : Int :=
  if count ≤ 1 then 0 else min 4 (max 0 ((Nat.clog 2 count.toNat : Int) - 1))

namespace Pipeline

/-- `dq_pop_front` -/
def dqPopFront (p : Pipeline) : Pipeline :=
  if p.dqLen = 0 then p
  else { p with
    dq := .ofFn fun i =>
      if (i : Int) + 1 < p.dqLen then p.dq[(i : Nat) + 1]?.getD makeEmptyItem
      else if (i : Int) + 1 = p.dqLen then makeEmptyItem
      else p.dq[i]
    dqLen := p.dqLen - 1 }

/-- `dq_push` drops a batch that need not wait, and one that does not fit. -/
def dqPush (p : Pipeline) (mb : MulBatch) (remain : Int) : Pipeline :=
  if remain ≤ 0 then p
  else if p.dqLen ≥ 5 then p
  else { p with
    dq := p.dq.setIfInBounds p.dqLen.toNat ⟨mb, remain, true⟩
    dqLen := p.dqLen + 1 }

/-- All waiting batches come one stage closer. -/
def dqAdvance (p : Pipeline) : Pipeline :=
  { p with dq := .ofFn fun i =>
      let item := p.dq[i]
      if (i : Int) < p.dqLen ∧ item.valid ∧ item.remain > 0 then
        { item with remain := item.remain - 1 }
      else item }

end Pipeline

namespace BigmulUnit

/-- What follows the last partial product of a diagonal, where `last` is the last diagonal and
`lim` the greatest index of an operand; `next` prepares the unit for the next diagonal. -/
def emitDiagonal (last lim : Int) (next : BigmulUnit → BigmulUnit) (u : BigmulUnit) :
    Except Fault BigmulUnit := do
  let resultCache ← writeAt u.resultCache u.sDiag u.acc.low64
  let acc := u.acc.shr64
  if u.sDiag = last then
    let resultCache ← writeAt resultCache (last + 1) acc.low64
    return { u with resultCache, acc, bigmulProg := 0, writeDone := false }
  else
    let sDiag := u.sDiag + 1
    let iMin := if sDiag > lim then sDiag - lim else 0
    let iMax := if sDiag < lim then sDiag else lim
    return next { u with resultCache, acc, sDiag, iMin, iMax, kIter := iMin }

/-- The start of an engine's cycle. -/
def started (u : BigmulUnit) : BigmulUnit := if u.bigmulProg = 0 then u.startBigmul else u

/-- Retire stage 3 of the delay line and shift the others down; stage 0 is empty then. -/
def csaShift (u : BigmulUnit) : BigmulUnit :=
  let p := u.pipeline
  let moved (i : Fin 4) : Acc := if p.accumValid[i] then p.accum[i] else .clear
  let oldest := p.accum[3]
  { u with
    acc := if p.accumValid[3] then u.acc.addU192 oldest.a0 oldest.a1 oldest.a2 else u.acc
    pipeline := { p with
      accum := #v[.clear, moved 0, moved 1, moved 2]
      accumValid := #v[false, p.accumValid[0], p.accumValid[1], p.accumValid[2]] } }

/-- Insert the sum of a batch into stage 0, and note the end of the diagonal. -/
def csaInsert (u : BigmulUnit) (b : Batch) : BigmulUnit :=
  let p := u.pipeline
  { u with
    kIter := b.kIter
    genDoneThisDiag := u.genDoneThisDiag || b.kIter > u.iMax
    pipeline := if b.processed > 0 then
        { p with accum := p.accum.set 0 b.sum, accumValid := p.accumValid.set 0 true }
      else p }

def csaPipeEmpty (p : Pipeline) : Bool :=
  !p.accumValid[0] && !p.accumValid[1] && !p.accumValid[2] && !p.accumValid[3]

def csaNext (u : BigmulUnit) : BigmulUnit :=
  { u with
    genDoneThisDiag := false
    pipeline := { u.pipeline with
      accum := .replicate 4 .clear
      accumValid := .replicate 4 false } }

def csaOnlyPipeline (u : BigmulUnit) : Except Fault BigmulUnit :=
  if u.bigmulDone then .ok u
  else do
    let u := u.started.csaShift
    let b ← u.batchLoop batchSize ⟨0, u.kIter, .clear⟩
    let u := u.csaInsert b
    if u.genDoneThisDiag && csaPipeEmpty u.pipeline then
      u.emitDiagonal (u.sizeOfOperand.toNat * 2 - 2) (u.sizeOfOperand.toNat - 1) csaNext
    else return u

/-- `acc_add_u192` of a batch. -/
def retire (u : BigmulUnit) (mb : MulBatch) : BigmulUnit :=
  { u with acc := u.acc.addU192 mb.lo mb.hi mb.hi2 }

/-- The sum of the first `n` products of a batch. -/
def mulLoop (l : LoadBatch) : Nat → Except Fault Acc
  | 0 => .ok .clear
  | t + 1 => do
    let b ← mulLoop l t
    return b.addProduct (← readAt l.ai t) (← readAt l.bj t)

def nextMul (l : LoadBatch) : Except Fault MulBatch :=
  if l.valid ∧ l.count > 0 then do
    let b ← mulLoop l l.count.toNat
    return ⟨b.a0, b.a1, b.a2, true⟩
  else return makeEmptyMul

/-- Load the first `n` pairs of a batch. -/
def loadLoop (u : BigmulUnit) (g : GenBatch) : Nat → LoadBatch → Except Fault LoadBatch
  | 0, l => .ok l
  | t + 1, l => do
    let l ← loadLoop u g t l
    let ai ← readAt u.cacheA (← readAt g.i t)
    let bj ← readAt u.cacheB (← readAt g.j t)
    return { l with ai := l.ai.setIfInBounds t ai, bj := l.bj.setIfInBounds t bj }

def nextLoad (u : BigmulUnit) (g : GenBatch) : Except Fault LoadBatch :=
  if g.valid ∧ g.count > 0 then do
    let l ← loadLoop u g g.count.toNat makeEmptyLoad
    return { l with count := g.count, valid := true }
  else return makeEmptyLoad

/-- `for (; produced < BATCH && k_iter <= i_max; ++k_iter, ++produced)`; `left` is
`BATCH - produced`. -/
def genLoop (u : BigmulUnit) : Nat → Nat → Int → GenBatch → Int × GenBatch
  | 0, produced, k, g => (k, { g with count := produced, valid := produced > 0 })
  | left + 1, produced, k, g =>
    if k ≤ u.iMax then
      genLoop u left (produced + 1) (k + 1)
        { g with i := g.i.setIfInBounds produced k, j := g.j.setIfInBounds produced (u.sDiag - k) }
    else (k, { g with count := produced, valid := produced > 0 })

/-- Generate the next batch of the diagonal, unless all of it is generated. -/
def generate (u : BigmulUnit) : BigmulUnit :=
  if u.genDoneThisDiag then { u with pipeline := { u.pipeline with pGEN := makeEmptyGen } }
  else
    let (kIter, pGEN) := u.genLoop batchSize 0 u.kIter makeEmptyGen
    { u with kIter, genDoneThisDiag := kIter > u.iMax, pipeline := { u.pipeline with pGEN } }

def staged3pipeline (u : BigmulUnit) : Except Fault BigmulUnit :=
  if u.bigmulDone then .ok u
  else do
    let u := u.started
    let p := u.pipeline
    let u := if p.pMUL.valid then u.retire p.pMUL else u
    let pMUL ← nextMul p.pLOAD
    let pLOAD ← u.nextLoad p.pGEN
    let u := u.generate
    let u := { u with pipeline := { u.pipeline with pMUL, pLOAD } }
    let p := u.pipeline
    if u.genDoneThisDiag && (!p.pGEN.valid && !p.pLOAD.valid && !p.pMUL.valid) then
      u.emitDiagonal 126 63 fun u => { u with genDoneThisDiag := false }
    else return u

/-- Retire the head of the delay queue if it has waited long enough. -/
def retireHead (u : BigmulUnit) : BigmulUnit :=
  let head := u.pipeline.dq[0]
  if u.pipeline.dqLen > 0 ∧ head.valid ∧ head.remain = 0 then
    { u.retire head.mb with pipeline := u.pipeline.dqPopFront }
  else u

/-- Pass the sum of a batch on, past the queue if it need not wait. -/
def queueMul (u : BigmulUnit) : BigmulUnit :=
  let mb := u.pipeline.pMUL
  if mb.valid then
    if u.pendingDepthForPMUL ≤ 0 then u.retire mb
    else { u with pipeline := u.pipeline.dqPush mb u.pendingDepthForPMUL }
  else u

/-- `pMUL` and the depth of its adder tree. -/
def multiply (l : LoadBatch) : Except Fault (MulBatch × Int) :=
  if l.valid then do
    let b ← mulLoop l l.count.toNat
    return (⟨b.a0, b.a1, b.a2, l.count > 0⟩, csaDepthForCount l.count)
  else return (makeEmptyMul, 0)

def loadStage (u : BigmulUnit) (g : GenBatch) : Except Fault LoadBatch :=
  if g.valid then do
    let l ← loadLoop u g g.count.toNat makeEmptyLoad
    return { l with count := g.count, valid := g.count > 0 }
  else return makeEmptyLoad

/-- Clear the pipeline for the next diagonal; the delay line of `csaOnlyPipeline` stays. -/
def stage7Next (u : BigmulUnit) : BigmulUnit :=
  { u with
    genDoneThisDiag := false
    pipeline := { u.pipeline with
      pGEN := makeEmptyGen
      pLOAD := makeEmptyLoad
      pMUL := makeEmptyMul
      dq := .replicate 5 makeEmptyItem
      dqLen := 0 } }

def stage7pipeline (u : BigmulUnit) : Except Fault BigmulUnit :=
  if u.bigmulDone then .ok u
  else do
    let u := u.started.retireHead
    let u := { u with pipeline := u.pipeline.dqAdvance }.queueMul
    let (pMUL, pendingDepthForPMUL) ← multiply u.pipeline.pLOAD
    let pLOAD ← u.loadStage u.pipeline.pGEN
    let u := { u with pendingDepthForPMUL, pipeline := { u.pipeline with pMUL, pLOAD } }.generate
    let p := u.pipeline
    if u.genDoneThisDiag &&
        (!p.pGEN.valid && !p.pLOAD.valid && !p.pMUL.valid && p.dqLen == 0) then
      u.emitDiagonal 126 63 stage7Next
    else return u

/-- The 128-bit sum of the products of diagonal `sd` with first index `i`, ..., `i + n - 1`. -/
def systolicSum (u : BigmulUnit) (sd : Int) : Nat → Int → BitVec 128 → Except Fault (BitVec 128)
  | 0, _, sum => .ok sum
  | n + 1, i, sum => do
    let ai ← readAt u.cacheA i
    let bj ← readAt u.cacheB (sd - i)
    systolicSum u sd n (i + 1) (sum + ai.setWidth 128 * bj.setWidth 128)

def systolicmultiply (u : BigmulUnit) : Except Fault BigmulUnit :=
  if u.bigmulDone then .ok u
  else if u.bigmulProg = 0 then .ok u.startBigmul
  else if u.sDiag < 128 then do
    let iMin := if u.sDiag > 63 then u.sDiag - 63 else 0
    let iMax := if u.sDiag < 63 then u.sDiag else 63
    let sum ← u.systolicSum u.sDiag (iMax + 1 - iMin).toNat iMin 0
    let resultCache ← writeAt u.resultCache u.sDiag (sum.setWidth 64)
    let u := { u with resultCache, sDiag := u.sDiag + 1 }
    if u.sDiag = 128 then return { u with bigmulDone := false, writeDone := false, bigmulProg := 0 }
    else return u
  else .ok u

end BigmulUnit

namespace Pipeline

/-- The sum that waits in a stage of the delay line. -/
def stageSum (p : Pipeline) (i : Fin 4) : Nat :=
  if p.accumValid[i] then p.accum[i].toNat else 0

/-- The sums on their way to the accumulator. -/
def inFlight (p : Pipeline) : Nat :=
  p.stageSum 0 + (p.stageSum 1 + (p.stageSum 2 + p.stageSum 3))

/-- The calls until a stage is retired. -/
def stageCost (p : Pipeline) (i : Fin 4) : Nat :=
  if p.accumValid[i] then 4 - i else 0

def lineCost (p : Pipeline) : Nat :=
  p.stageCost 0 + (p.stageCost 1 + (p.stageCost 2 + p.stageCost 3))

end Pipeline

end RiscvSim
