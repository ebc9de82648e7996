import RiscvSim.Word

/-! The multiplier of the custom instructions: two operand caches, a result
cache, and the multi-cycle product that runs along the diagonals of the operand
square in batches of 25 partial products. -/

namespace RiscvSim

/-- Three 64-bit limbs, `a0` the lowest. -/
structure Acc where
  a0 : Word
  a1 : Word
  a2 : Word
  deriving DecidableEq, Repr

namespace Acc

def clear : Acc := ⟨0, 0, 0⟩

/-- `acc_add_u128`: add the two limbs `lo`, `hi` with carry into the third. -/
def addU128 (acc : Acc) (lo hi : Word) : Acc :=
  let t0 : BitVec 128 := acc.a0.setWidth 128 + lo.setWidth 128
  let c0 : Word := (t0 >>> 64).setWidth 64
  let t1 : BitVec 128 := acc.a1.setWidth 128 + hi.setWidth 128 + c0.setWidth 128
  let c1 : Word := (t1 >>> 64).setWidth 64
  ⟨t0.setWidth 64, t1.setWidth 64, acc.a2 + c1⟩

/-- Add the 128-bit product of two words. -/
def addProduct (acc : Acc) (x y : Word) : Acc :=
  let p : BitVec 128 := x.setWidth 128 * y.setWidth 128
  acc.addU128 (p.setWidth 64) ((p >>> 64).setWidth 64)

def addU192 (acc : Acc) (lo hi hi2 : Word) : Acc :=
  let acc := acc.addU128 lo hi
  { acc with a2 := acc.a2 + hi2 }

def shr64 (acc : Acc) : Acc := ⟨acc.a1, acc.a2, 0⟩

def low64 (acc : Acc) : Word := acc.a0

end Acc

/-- The number of doublewords of an operand. `Decode` only ever stores a register
value it has found to be nonzero and below 512. -/
structure OperandSize where
  words : Word
  pos : 0 < words.toNat
  lt : words.toNat < 512
  deriving DecidableEq, Repr

def OperandSize.toNat (n : OperandSize) : Nat := n.words.toNat

def OperandSize.default : OperandSize := ⟨64, by decide, by decide⟩

structure GenBatch where
  count : Int
  i : Vector Int 25
  j : Vector Int 25
  valid : Bool
  deriving DecidableEq, Repr

structure LoadBatch where
  count : Int
  ai : Vector Word 25
  bj : Vector Word 25
  valid : Bool
  deriving DecidableEq, Repr

structure MulBatch where
  lo : Word
  hi : Word
  hi2 : Word
  valid : Bool
  deriving DecidableEq, Repr

structure DelayItem where
  mb : MulBatch
  remain : Int
  valid : Bool
  deriving DecidableEq, Repr

def makeEmptyGen : GenBatch := ⟨0, .replicate 25 0, .replicate 25 0, false⟩
def makeEmptyLoad : LoadBatch := ⟨0, .replicate 25 0, .replicate 25 0, false⟩
def makeEmptyMul : MulBatch := ⟨0, 0, 0, false⟩
def makeEmptyItem : DelayItem := ⟨makeEmptyMul, 0, false⟩

/-- The registers between the stages of the pipelined variants. -/
structure Pipeline where
  pGEN : GenBatch
  pLOAD : LoadBatch
  pMUL : MulBatch
  dq : Vector DelayItem 5
  dqLen : Int
  accum : Vector Acc 4
  accumValid : Vector Bool 4
  deriving DecidableEq, Repr

def Pipeline.empty : Pipeline where
  pGEN := makeEmptyGen
  pLOAD := makeEmptyLoad
  pMUL := makeEmptyMul
  dq := .replicate 5 makeEmptyItem
  dqLen := 0
  accum := .replicate 4 Acc.clear
  accumValid := .replicate 4 false

/-- The part of the unit that a snapshot keeps. -/
structure BigmulState where
  bigmulDone : Bool
  ldbmDone : Bool
  writeDone : Bool
  ldbmOffset : Word
  bigmulProg : Word
  writeOffset : Word
  baseAddrA : Word
  baseAddrB : Word
  baseAddrRes : Word
  cacheA : Vector Word 64
  cacheB : Vector Word 64
  resultCache : Vector Word 128
  deriving DecidableEq, Repr

structure BigmulUnit extends BigmulState where
  sizeOfOperand : OperandSize
  /-- The current diagonal and the bounds of its first index. -/
  sDiag : Int
  iMin : Int
  iMax : Int
  /-- The next first index to take on this diagonal. -/
  kIter : Int
  genDoneThisDiag : Bool
  pipeline : Pipeline
  pendingDepthForPMUL : Int
  acc : Acc
  deriving DecidableEq, Repr

def BigmulState.initial : BigmulState where
  bigmulDone := true
  ldbmDone := true
  writeDone := true
  ldbmOffset := 0
  bigmulProg := 0
  writeOffset := 0
  baseAddrA := 0
  baseAddrB := 0
  baseAddrRes := 0
  cacheA := .replicate 64 0
  cacheB := .replicate 64 0
  resultCache := .replicate 128 0

namespace BigmulUnit

/-- The unit when the simulator starts. -/
def initial : BigmulUnit where
  toBigmulState := .initial
  sizeOfOperand := .default
  sDiag := 0
  iMin := 0
  iMax := 0
  kIter := 0
  genDoneThisDiag := false
  pipeline := .empty
  pendingDepthForPMUL := 0
  acc := .clear

/-- `reset` leaves the operand size as it is. -/
def reset (u : BigmulUnit) : BigmulUnit where
  toBigmulState := .initial
  sizeOfOperand := u.sizeOfOperand
  sDiag := 0
  iMin := 0
  iMax := 0
  kIter := 0
  genDoneThisDiag := false
  pipeline := .empty
  pendingDepthForPMUL := 0
  acc := .clear

def snapshot (u : BigmulUnit) : BigmulState := u.toBigmulState

def restore (u : BigmulUnit) (s : BigmulState) : BigmulUnit := { u with toBigmulState := s }

def startBigmul (u : BigmulUnit) : BigmulUnit :=
  { u with
    sDiag := 0
    iMin := 0
    iMax := 0
    kIter := 0
    genDoneThisDiag := false
    pipeline := .empty
    acc := .clear
    bigmulDone := false
    bigmulProg := 1
    writeDone := true }

/-- The local variables of the batch loop. -/
structure Batch where
  processed : Nat
  kIter : Int
  sum : Acc
  deriving DecidableEq, Repr

def batchSize : Nat := 25

/-- Load and multiply the pair with first index `kIter`, and add it to the local sum. -/
def batchStep (u : BigmulUnit) (b : Batch) : Except Fault Batch := do
  let ai ← readAt u.cacheA b.kIter
  let bj ← readAt u.cacheB (u.sDiag - b.kIter)
  return ⟨b.processed + 1, b.kIter + 1, b.sum.addProduct ai bj⟩

/-- `while (processed < BATCH && k_iter <= i_max)`; `left` is `BATCH - processed`. -/
def batchLoop (u : BigmulUnit) : Nat → Batch → Except Fault Batch
  | 0, b => .ok b
  | left + 1, b => if b.kIter ≤ u.iMax then u.batchStep b >>= u.batchLoop left else .ok b

/-- What follows the last batch of a diagonal: emit a result word, shift the
accumulator, and go to the next diagonal or to the write-back phase. -/
def finishDiagonal (u : BigmulUnit) : Except Fault BigmulUnit := do
  let resultCache ← writeAt u.resultCache u.sDiag u.acc.low64
  let acc := u.acc.shr64
  -- both fit an `int`: the operand size is below 512
  let last : Int := u.sizeOfOperand.toNat * 2 - 2
  let lim : Int := u.sizeOfOperand.toNat - 1
  if u.sDiag = last then
    let resultCache ← writeAt resultCache (last + 1) acc.low64
    return { u with resultCache, acc, bigmulProg := 0, writeDone := false }
  else
    let sDiag := u.sDiag + 1
    let iMin := if sDiag > lim then sDiag - lim else 0
    let iMax := if sDiag < lim then sDiag else lim
    return { u with resultCache, acc, sDiag, iMin, iMax, kIter := iMin }

/-- The cycle of a unit that has started. -/
def batchCycle (u : BigmulUnit) : Except Fault BigmulUnit := do
  let b ← u.batchLoop batchSize ⟨0, u.kIter, .clear⟩
  let acc := if b.processed > 0 then u.acc.addU192 b.sum.a0 b.sum.a1 b.sum.a2 else u.acc
  let u := { u with kIter := b.kIter, acc }
  if u.kIter > u.iMax then u.finishDiagonal else return u

def singlecycle (u : BigmulUnit) : Except Fault BigmulUnit :=
  if u.bigmulDone then .ok u
  else if u.bigmulProg = 0 then u.startBigmul.batchCycle
  else u.batchCycle

def executeBigmul (u : BigmulUnit) : Except Fault BigmulUnit := u.singlecycle

end BigmulUnit

end RiscvSim
