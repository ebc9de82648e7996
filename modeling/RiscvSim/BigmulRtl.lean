import RiscvSim.BigmulProduct

/-! The Verilog multiplier, clock edge by clock edge, against `singlecycle`. It walks
over two diagonals more, both empty, and stops on another condition. -/

namespace RiscvSim

open Limbs Finset

/-- The registers of `bigmul_unit_csa`; an `integer` is a signed 32-bit variable. -/
structure BigmulRtl where
  cacheA : Vector Word 64
  cacheB : Vector Word 64
  resultCache : Vector Word 128
  acc : Acc
  sDiag : BitVec 32
  iMin : BitVec 32
  iMax : BitVec 32
  kIter : BitVec 32
  producedTotal : BitVec 32
  retiredTotal : BitVec 32
  busy : Bool
  computeDone : Bool
  deriving DecidableEq

namespace BigmulRtl

/-- The `initial` block. -/
def initial : BigmulRtl where
  cacheA := .replicate 64 0
  cacheB := .replicate 64 0
  resultCache := .replicate 128 0
  acc := .clear
  sDiag := 0
  iMin := 0
  iMax := 0
  kIter := 0
  producedTotal := 0
  retiredTotal := 0
  busy := false
  computeDone := false

/-- `acc_add_u192`: add the concatenation of three words. -/
def accAddU192 (acc b : Acc) : Acc :=
  let old : BitVec 192 := acc.a2 ++ acc.a1 ++ acc.a0
  let sum : BitVec 192 := old + (b.a2 ++ b.a1 ++ b.a0)
  ⟨sum.extractLsb' 0 64, sum.extractLsb' 64 64, sum.extractLsb' 128 64⟩

/-- A clock edge under way: the registers as the blocking assignments have left them,
and the nonblocking assignments in the order in which they will take effect. -/
structure Edge where
  now : BigmulRtl
  nba : List (BigmulRtl → BigmulRtl)

def Edge.commit (e : Edge) : BigmulRtl := e.nba.foldl (fun u assign => assign u) e.now

theorem Edge.commit_append (u : BigmulRtl) (l l' : List (BigmulRtl → BigmulRtl)) :
    Edge.commit ⟨u, l ++ l'⟩ = Edge.commit ⟨Edge.commit ⟨u, l⟩, l'⟩ :=
  List.foldl_append

def clearState (u : BigmulRtl) : BigmulRtl :=
  { u with sDiag := 0, iMin := 0, iMax := 0, kIter := 0, producedTotal := 0, retiredTotal := 0,
           resultCache := .replicate 128 0 }

/-- The branch of `!rstn`. -/
def resetEdge (u : BigmulRtl) : Edge where
  now := { u with acc := .clear }
  nba := [fun u => { u.clearState with busy := false, computeDone := false }]

/-- The branch of `start && !busy`. -/
def startEdge (u : BigmulRtl) : Edge where
  now := { u with acc := .clear }
  nba := [fun u => { u.clearState with busy := true, computeDone := false }]

/-- The variables that the batch loop assigns. -/
structure Batch where
  processed : BitVec 32
  kIter : BitVec 32
  sum : Acc
  producedTotal : BitVec 32

/-- The body of the loop; a cache index out of range loads an `x`. -/
def batchStep (u : BigmulRtl) (b : Batch) : Except Fault Batch :=
  if b.kIter.sle u.iMax then do
    let ii := b.kIter
    let jj := u.sDiag - ii
    let ai ← readAt u.cacheA ii.toInt
    let bj ← readAt u.cacheB jj.toInt
    return ⟨b.processed + 1, b.kIter + 1, b.sum.addProduct ai bj, b.producedTotal + 1⟩
  else .ok b

/-- `for (t = 0; t < BATCH; t = t + 1)`; the argument is `BATCH - t`. -/
def batchLoop (u : BigmulRtl) : Nat → Batch → Except Fault Batch
  | 0, b => .ok b
  | left + 1, b => u.batchStep b >>= u.batchLoop left

def batchEdge (e : Edge) : Except Fault Edge := do
  let b ← e.now.batchLoop 25 ⟨0, e.now.kIter, .clear, e.now.producedTotal⟩
  let u := { e.now with kIter := b.kIter, producedTotal := b.producedTotal }
  if BitVec.slt 0 b.processed then
    let retired := u.retiredTotal + b.processed
    return { now := { u with acc := accAddU192 u.acc b.sum }
             nba := e.nba ++ [fun v => { v with retiredTotal := retired }] }
  else return { now := u, nba := e.nba }

/-- `resultCache[i] <= x`; an index out of range assigns nothing. -/
def assignResult (i : BitVec 32) (x : Word) (u : BigmulRtl) : BigmulRtl :=
  { u with resultCache := u.resultCache.setIfInBounds i.toNat x }

/-- What follows when the current diagonal is finished. Where a signed and an unsigned
operand meet, the comparison is unsigned. -/
def finishEdge (operandSize : BitVec 32) (e : Edge) : Edge :=
  let u := e.now
  if u.iMax.slt u.kIter then
    let nba := e.nba ++ [assignResult u.sDiag u.acc.low64]
    let now := { u with acc := u.acc.shr64 }
    if u.sDiag = operandSize * 2 then
      let nba :=
        if 2 * operandSize + 1 < 128 then
          nba ++ [assignResult (2 * operandSize + 1) now.acc.low64]
        else nba
      { now, nba := nba ++ [fun v => { v with busy := false, computeDone := true }] }
    else
      let sDiag := u.sDiag + 1
      let iMin := if operandSize - 1 < sDiag then sDiag - (operandSize - 1) else 0
      let iMax := if sDiag < operandSize - 1 then sDiag else operandSize - 1
      let kIter := if operandSize - 1 < sDiag then sDiag - (operandSize - 1) else 0
      { now, nba := nba ++ [fun v => { v with sDiag, iMin, iMax, kIter }] }
  else e

/-- The inputs at an edge of the clock. -/
structure Inputs where
  rstn : Bool
  start : Bool

/-- The `always` block at an edge of the clock. -/
def clockEdge (operandSize : BitVec 32) (inputs : Inputs) (u : BigmulRtl) :
    Except Fault BigmulRtl :=
  if !inputs.rstn then .ok u.resetEdge.commit
  else
    let e := if inputs.start && !u.busy then u.startEdge else ⟨u, []⟩
    if !u.busy then .ok e.commit
    else do
      let e ← batchEdge e
      return (finishEdge operandSize e).commit

def run (operandSize : BitVec 32) : List Inputs → BigmulRtl → Except Fault BigmulRtl
  | [], u => .ok u
  | inputs :: rest, u => u.clockEdge operandSize inputs >>= run operandSize rest

theorem append_toNat {m n : Nat} (x : BitVec m) (y : BitVec n) :
    (x ++ y).toNat = x.toNat * 2 ^ n + y.toNat := by
  rw [BitVec.toNat_append, ← Nat.shiftLeft_add_eq_or_of_lt y.isLt, Nat.shiftLeft_eq]

theorem accAddU192_toNat (acc b : Acc) :
    (accAddU192 acc b).toNat = (acc.toNat + b.toNat) % 2 ^ 192 := by
  have hold (c : Acc) : (c.a2 ++ c.a1 ++ c.a0 : BitVec 192).toNat = c.toNat := by
    rw [append_toNat, append_toNat, Acc.toNat]
    ring
  simp only [accAddU192, Acc.toNat, BitVec.extractLsb'_toNat, Nat.shiftRight_eq_div_pow]
  have hsum : ((acc.a2 ++ acc.a1 ++ acc.a0 : BitVec 192) + (b.a2 ++ b.a1 ++ b.a0)).toNat =
      (acc.toNat + b.toNat) % 2 ^ 192 := by
    rw [BitVec.toNat_add, hold, hold]
  rw [hsum]
  simp only [Acc.toNat]
  omega

theorem ofNat_toInt {k : Nat} (h : k < 2 ^ 31) : (BitVec.ofNat 32 k).toInt = k := by
  rw [BitVec.toInt_eq_toNat_of_lt (by rw [BitVec.toNat_ofNat]; omega), BitVec.toNat_ofNat]
  omega

theorem ofNat_sle {j k : Nat} (hj : j < 2 ^ 31) (hk : k < 2 ^ 31) :
    (BitVec.ofNat 32 j).sle (BitVec.ofNat 32 k) = decide (j ≤ k) := by
  rw [BitVec.sle_eq_decide, ofNat_toInt hj, ofNat_toInt hk]
  simp

theorem ofNat_slt {j k : Nat} (hj : j < 2 ^ 31) (hk : k < 2 ^ 31) :
    (BitVec.ofNat 32 j).slt (BitVec.ofNat 32 k) = decide (j < k) := by
  rw [BitVec.slt_eq_decide, ofNat_toInt hj, ofNat_toInt hk]
  simp

theorem ofNat_add_one (k : Nat) : BitVec.ofNat 32 k + 1 = BitVec.ofNat 32 (k + 1) :=
  (BitVec.ofNat_add k 1).symm

variable {u : BigmulRtl} {n s k : Nat}

theorem batchStep_run {b : Batch} (hs : u.sDiag = BitVec.ofNat 32 s) (hs31 : s < 2 ^ 31)
    (hk : b.kIter = BitVec.ofNat 32 k) (hle : b.kIter.sle u.iMax = true) (hks : k ≤ s)
    (hk64 : k < 64) (hj : s - k < 64) (hb : b.sum.toNat + productBound < 2 ^ 192) :
    ∃ sum, u.batchStep b =
        .ok ⟨b.processed + 1, BitVec.ofNat 32 (k + 1), sum, b.producedTotal + 1⟩ ∧
      sum.toNat = b.sum.toNat + limb u.cacheA k * limb u.cacheB (s - k) := by
  have hii : b.kIter.toInt = (k : Int) := by rw [hk, ofNat_toInt (by omega)]
  have hjj : (u.sDiag - b.kIter).toInt = ((s - k : Nat) : Int) := by
    have hsub : BitVec.ofNat 32 s - BitVec.ofNat 32 k = BitVec.ofNat 32 (s - k) := by
      apply BitVec.eq_of_toNat_eq
      rw [BitVec.toNat_sub, BitVec.toNat_ofNat, BitVec.toNat_ofNat, BitVec.toNat_ofNat]
      omega
    rw [hs, hk, hsub, ofNat_toInt (by omega)]
  refine ⟨b.sum.addProduct u.cacheA[k] u.cacheB[s - k], ?_, ?_⟩
  · simp only [batchStep, hle, if_true, hii, hjj, readAt_ofNat _ hk64, readAt_ofNat _ hj,
      Loop.bind_ok]
    rw [hk, ofNat_add_one]
    rfl
  · have hterm := limb_mul_le u.cacheA u.cacheB k (s - k)
    rw [Acc.addProduct_toNat, ← limb_of_lt _ hk64, ← limb_of_lt _ hj]
    exact Nat.mod_eq_of_lt (by omega)

/-- The loop on a diagonal whose remaining indices `k ≤ i < stop` stay inside the caches. -/
theorem batchLoop_run {stop : Nat} (hs : u.sDiag = BitVec.ofNat 32 s) (hs31 : s < 2 ^ 31)
    (hmax : u.iMax = BitVec.ofNat 32 (stop - 1)) (hstop : 0 < stop)
    (hin : ∀ i, i < stop → i ≤ s ∧ i < 64) (hstop31 : stop < 2 ^ 31) (hk31 : k < 2 ^ 31)
    (hj : k < stop → s - k < 64) (left : Nat) (b : Batch) (hk : b.kIter = BitVec.ofNat 32 k)
    (hb : b.sum.toNat + left * productBound < 2 ^ 192) :
    ∃ b', u.batchLoop left b = .ok b' ∧
      b'.kIter = BitVec.ofNat 32 (k + min left (stop - k)) ∧
      b'.processed = b.processed + BitVec.ofNat 32 (min left (stop - k)) ∧
      b'.sum.toNat = b.sum.toNat + partialDiagonal (limb u.cacheA) (limb u.cacheB) s k
        (k + min left (stop - k)) := by
  induction left generalizing k b with
  | zero =>
    refine ⟨b, rfl, ?_, ?_, ?_⟩
    · simpa using hk
    · simp
    · simp [partialDiagonal_self]
  | succ left ih =>
    have hle : b.kIter.sle u.iMax = decide (k ≤ stop - 1) := by
      rw [hk, hmax, ofNat_sle hk31 (by omega)]
    rw [Nat.succ_mul] at hb
    rcases Nat.lt_or_ge k stop with hlt | hge
    · obtain ⟨hks, hk64⟩ := hin k hlt
      rw [decide_eq_true (by omega)] at hle
      obtain ⟨sum, hstep, hsum⟩ := batchStep_run hs hs31 hk hle hks hk64 (hj hlt) (by omega)
      have hterm := limb_mul_le u.cacheA u.cacheB k (s - k)
      obtain ⟨b', hloop, hk', hp', hsum'⟩ := ih (k := k + 1) (by omega)
        (fun _ => by have := hj hlt; omega)
        ⟨b.processed + 1, BitVec.ofNat 32 (k + 1), sum, b.producedTotal + 1⟩ rfl
        (by simp only [hsum]; omega)
      have hcount : min (left + 1) (stop - k) = 1 + min left (stop - (k + 1)) := by omega
      refine ⟨b', ?_, ?_, ?_, ?_⟩
      · rw [batchLoop, hstep]
        exact hloop
      · rw [hk', hcount, Nat.add_assoc]
      · rw [hp', hcount, BitVec.ofNat_add 1, BitVec.add_assoc]
        rfl
      · rw [hsum', hsum, hcount, ← Nat.add_assoc, Nat.add_assoc b.sum.toNat,
          partialDiagonal_split (a := k) (b := k + 1) (by omega) (by omega),
          partialDiagonal_succ (Nat.le_refl k), partialDiagonal_self]
        omega
    · rw [decide_eq_false (by omega)] at hle
      have hzero : min left (stop - k) = 0 := by omega
      have hzero' : min (left + 1) (stop - k) = 0 := by omega
      obtain ⟨b', hloop, hk', hp', hsum'⟩ := ih hk31 hj b hk (by omega)
      rw [hzero] at hk' hp' hsum'
      rw [hzero']
      refine ⟨b', ?_, hk', hp', hsum'⟩
      rw [batchLoop, batchStep, hle]
      exact hloop

/-- The registers between two edges, at index `k` of diagonal `s`. -/
structure Running (n s k : Nat) (u : BigmulRtl) : Prop where
  busy : u.busy = true
  notDone : u.computeDone = false
  sDiag : u.sDiag = BitVec.ofNat 32 s
  iMax : u.iMax = BitVec.ofNat 32 (diagonalStop n s - 1)
  kIter : u.kIter = BitVec.ofNat 32 k
  le_last : s ≤ 2 * n
  start_le : diagonalStart n s ≤ k
  /-- The diagonals `2 * n - 1` and `2 * n` are empty. -/
  inside : k < diagonalStop n s ∨ k = diagonalStart n s
  taken : Taken n s k (limb u.cacheA) (limb u.cacheB) u.resultCache u.acc
  rest : ∀ j, s ≤ j → limb u.resultCache j = 0

/-- The batch of an edge: the index moves on and the products reach the accumulator. -/
theorem Running.batch (h : Running n s k u) (hpos : 0 < n) (h64 : n ≤ 64) :
    ∃ (acc : Acc) (produced : BitVec 32) (retired : BigmulRtl → BitVec 32)
      (nba : List (BigmulRtl → BigmulRtl)),
      batchEdge ⟨u, []⟩ = .ok ⟨{ u with
        kIter := BitVec.ofNat 32 (k + min 25 (diagonalStop n s - k)), acc
        producedTotal := produced }, nba⟩ ∧
      (∀ v, Edge.commit ⟨v, nba⟩ = { v with retiredTotal := retired v }) ∧
      Taken n s (k + min 25 (diagonalStop n s - k)) (limb u.cacheA) (limb u.cacheB) u.resultCache
        acc := by
  have hlast := h.le_last
  have hstart := h.start_le
  have hinside := h.inside
  have hpb : productBound = 340282366920938463426481119284349108225 := rfl
  have hstop : 0 < diagonalStop n s ∧ diagonalStop n s ≤ n := by
    simp only [diagonalStop]
    omega
  have hk : k ≤ 65 := by
    simp only [diagonalStart] at hinside
    omega
  obtain ⟨b, hloop, hkIter, hprocessed, hsum⟩ := batchLoop_run h.sDiag (by omega) h.iMax hstop.1
    (fun i hi => by simp only [diagonalStop] at hi; omega) (by omega) (by omega)
    (fun _ => by simp only [diagonalStart] at hstart; omega) 25
    ⟨0, u.kIter, .clear, u.producedTotal⟩ h.kIter
    (by rw [Acc.toNat_clear, hpb]; decide)
  rw [Acc.toNat_clear, Nat.zero_add] at hsum
  have hbound := h.taken.bound
  have hsumBound := products_le u.cacheA u.cacheB s k (k + min 25 (diagonalStop n s - k))
  have hslt : BitVec.slt 0 b.processed = decide (0 < min 25 (diagonalStop n s - k)) := by
    have hzero : (0 : BitVec 32) + BitVec.ofNat 32 (min 25 (diagonalStop n s - k)) =
        BitVec.ofNat 32 (min 25 (diagonalStop n s - k)) := BitVec.zero_add _
    rw [hprocessed, hzero]
    exact ofNat_slt (j := 0) (by decide) (by omega)
  by_cases hsome : 0 < min 25 (diagonalStop n s - k)
  · refine ⟨accAddU192 u.acc b.sum, b.producedTotal, fun _ => u.retiredTotal + b.processed,
      [fun v => { v with retiredTotal := u.retiredTotal + b.processed }], ?_, fun _ => rfl,
      h.taken.batch hstart (Nat.le_add_right k _) (limb_le _) (limb_le _) ?_⟩
    · rw [decide_eq_true hsome] at hslt
      simp only [batchEdge, hloop, Loop.bind_ok, hslt, hkIter, if_true]
      rfl
    · rw [accAddU192_toNat, hsum]
      apply Nat.mod_eq_of_lt
      have hkn : (k - diagonalStart n s) * productBound ≤ 65 * productBound :=
        Nat.mul_le_mul_right _ (by omega)
      have hm : (k + min 25 (diagonalStop n s - k) - k) * productBound ≤ 25 * productBound :=
        Nat.mul_le_mul_right _ (by omega)
      omega
  · have hzero : min 25 (diagonalStop n s - k) = 0 := by omega
    refine ⟨u.acc, b.producedTotal, fun v => v.retiredTotal, [], ?_, fun _ => rfl, ?_⟩
    · rw [decide_eq_false hsome] at hslt
      simp only [batchEdge, hloop, Loop.bind_ok, hslt, hkIter]
      rfl
    · rw [hzero]
      exact h.taken

/-- The unsigned comparisons of `finishEdge` on operands without overflow. -/
theorem ofNat_lt {j k : Nat} (hj : j < 2 ^ 32) (hk : k < 2 ^ 32) :
    BitVec.ofNat 32 j < BitVec.ofNat 32 k ↔ j < k := by
  rw [BitVec.lt_def, BitVec.toNat_ofNat, BitVec.toNat_ofNat, Nat.mod_eq_of_lt hj,
    Nat.mod_eq_of_lt hk]

theorem ofNat_sub {j k : Nat} (h : k ≤ j) (hj : j < 2 ^ 32) :
    BitVec.ofNat 32 j - BitVec.ofNat 32 k = BitVec.ofNat 32 (j - k) := by
  apply BitVec.eq_of_toNat_eq
  rw [BitVec.toNat_sub, BitVec.toNat_ofNat, BitVec.toNat_ofNat, BitVec.toNat_ofNat]
  omega

/-- The bounds of the next diagonal, as `finishEdge` computes them. -/
theorem next_bounds (hpos : 0 < n) (h64 : n ≤ 64) (hs : s ≤ 2 * n) :
    (if BitVec.ofNat 32 n - 1 < BitVec.ofNat 32 (s + 1) then
        BitVec.ofNat 32 (s + 1) - (BitVec.ofNat 32 n - 1) else 0) =
      BitVec.ofNat 32 (diagonalStart n (s + 1)) ∧
    (if BitVec.ofNat 32 (s + 1) < BitVec.ofNat 32 n - 1 then BitVec.ofNat 32 (s + 1)
        else BitVec.ofNat 32 n - 1) = BitVec.ofNat 32 (diagonalStop n (s + 1) - 1) := by
  have hlim : BitVec.ofNat 32 n - 1 = BitVec.ofNat 32 (n - 1) := ofNat_sub hpos (by omega)
  rw [hlim]
  simp only [ofNat_lt (j := n - 1) (k := s + 1) (by omega) (by omega),
    ofNat_lt (j := s + 1) (k := n - 1) (by omega) (by omega), diagonalStart, diagonalStop]
  constructor
  · by_cases hlt : n - 1 < s + 1
    · rw [if_pos hlt, ofNat_sub (by omega) (by omega)]
      congr 1
      omega
    · rw [if_neg hlt]
      have hzero : s + 1 + 1 - n = 0 := by omega
      rw [hzero]
      rfl
  · by_cases hlt : s + 1 < n - 1
    · rw [if_pos hlt]
      congr 1
      omega
    · rw [if_neg hlt]
      congr 1
      omega

/-- The registers once the product is complete. -/
structure Finished (n : Nat) (u : BigmulRtl) : Prop where
  busy : u.busy = false
  done : u.computeDone = true
  product : limbValue (2 ^ 64) (limb u.resultCache) (2 * n) =
    limbValue (2 ^ 64) (limb u.cacheA) n * limbValue (2 ^ 64) (limb u.cacheB) n
  rest : ∀ j, 2 * n ≤ j → limb u.resultCache j = 0

/-- What an edge does while the unit is busy. -/
theorem clockEdge_busy {operandSize : BitVec 32} {start : Bool} (hbusy : u.busy = true) :
    u.clockEdge operandSize ⟨true, start⟩ =
      batchEdge ⟨u, []⟩ >>= fun e => .ok (finishEdge operandSize e).commit := by
  simp [clockEdge, hbusy]
  rfl

theorem finishEdge_more {operandSize : BitVec 32} {e : Edge}
    (h : e.now.iMax.slt e.now.kIter = false) : finishEdge operandSize e = e := by
  simp [finishEdge, h]

/-- The end of a diagonal that is not the last. -/
theorem finishEdge_next {e : Edge} (hpos : 0 < n) (h64 : n ≤ 64)
    (h : e.now.iMax.slt e.now.kIter = true) (hs : e.now.sDiag = BitVec.ofNat 32 s)
    (hlast : s < 2 * n) :
    finishEdge (BitVec.ofNat 32 n) e =
      ⟨{ e.now with acc := e.now.acc.shr64 },
        e.nba ++ [assignResult (BitVec.ofNat 32 s) e.now.acc.low64, fun v => { v with
          sDiag := BitVec.ofNat 32 (s + 1)
          iMin := BitVec.ofNat 32 (diagonalStart n (s + 1))
          iMax := BitVec.ofNat 32 (diagonalStop n (s + 1) - 1)
          kIter := BitVec.ofNat 32 (diagonalStart n (s + 1)) }]⟩ := by
  have hne : ¬ BitVec.ofNat 32 s = BitVec.ofNat 32 n * 2 := by
    intro heq
    have heq := congrArg BitVec.toNat heq
    rw [BitVec.toNat_mul, BitVec.toNat_ofNat, BitVec.toNat_ofNat] at heq
    change s % 2 ^ 32 = n % 2 ^ 32 * 2 % 2 ^ 32 at heq
    omega
  obtain ⟨hmin, hmax⟩ := next_bounds hpos h64 (Nat.le_of_lt hlast)
  simp only [finishEdge, h, if_true, hs, if_neg hne, ofNat_add_one, hmin, hmax, List.append_assoc]
  rfl

/-- The end of the last diagonal; the second result word is assigned where it exists. -/
theorem finishEdge_last {e : Edge} (h : e.now.iMax.slt e.now.kIter = true) (hs : e.now.sDiag = BitVec.ofNat 32 (2 * n)) :
    ∃ second, (second = [] ∨
        second = [assignResult (2 * BitVec.ofNat 32 n + 1) e.now.acc.shr64.low64]) ∧
      finishEdge (BitVec.ofNat 32 n) e =
        ⟨{ e.now with acc := e.now.acc.shr64 },
          e.nba ++ [assignResult (BitVec.ofNat 32 (2 * n)) e.now.acc.low64] ++ second ++
            [fun v => { v with busy := false, computeDone := true }]⟩ := by
  have heq : BitVec.ofNat 32 (2 * n) = BitVec.ofNat 32 n * 2 := by
    rw [Nat.mul_comm, BitVec.ofNat_mul]
    rfl
  simp only [finishEdge, h, if_true, hs, if_pos heq]
  by_cases hroom : 2 * BitVec.ofNat 32 n + 1 < 128
  · exact ⟨_, .inr rfl, by rw [if_pos hroom]⟩
  · exact ⟨[], .inl rfl, by rw [if_neg hroom, List.append_nil]⟩

theorem limb_assign {i : BitVec 32} {x : Word} {j : Nat} (h : i.toNat ≠ j) :
    limb (u.assignResult i x).resultCache j = limb u.resultCache j :=
  limb_setIfInBounds_ne _ _ h

theorem limb_assign_zero {i : BitVec 32} {j : Nat} (h : limb u.resultCache j = 0) :
    limb (u.assignResult i 0).resultCache j = 0 := by
  by_cases hij : i.toNat = j
  · by_cases hj : j < 128
    · rw [← hij] at hj ⊢
      exact limb_setIfInBounds_self _ _ hj
    · simp [limb, Vector.getElem?_eq_none (Nat.not_lt.mp hj)]
  · rw [limb_assign hij, h]

/-- One edge takes a batch of the diagonal, ends the diagonal, or ends the product. -/
theorem Running.step (start : Bool) (h : Running n s k u) (hpos : 0 < n) (h64 : n ≤ 64) :
    ∃ v, u.clockEdge (BitVec.ofNat 32 n) ⟨true, start⟩ = .ok v ∧
      v.cacheA = u.cacheA ∧ v.cacheB = u.cacheB ∧
      (k + 25 < diagonalStop n s ∧ Running n s (k + 25) v ∨
        diagonalStop n s ≤ k + 25 ∧ s < 2 * n ∧ Running n (s + 1) (diagonalStart n (s + 1)) v ∨
        diagonalStop n s ≤ k + 25 ∧ s = 2 * n ∧ Finished n v) := by
  obtain ⟨acc, produced, retired, nba, hbatch, hnba, htaken⟩ := h.batch hpos h64
  have hlast := h.le_last
  have hstart := h.start_le
  have hinside := h.inside
  have hstop : 0 < diagonalStop n s ∧ diagonalStop n s ≤ n := by
    simp only [diagonalStop]
    omega
  have hk : k ≤ 65 := by
    simp only [diagonalStart] at hinside
    omega
  obtain ⟨now, hnow⟩ : ∃ now : BigmulRtl, now = { u with
    kIter := BitVec.ofNat 32 (k + min 25 (diagonalStop n s - k)), acc
    producedTotal := produced } := ⟨_, rfl⟩
  rw [clockEdge_busy h.busy, hbatch, Loop.bind_ok, ← hnow]
  have hsDiag : now.sDiag = BitVec.ofNat 32 s := by rw [hnow, ← h.sDiag]
  have hslt : now.iMax.slt now.kIter = decide (diagonalStop n s ≤ k + 25) := by
    rw [hnow]
    change u.iMax.slt (BitVec.ofNat 32 _) = _
    rw [h.iMax, ofNat_slt (by omega) (by omega)]
    exact decide_eq_decide.mpr (by omega)
  by_cases hfin : diagonalStop n s ≤ k + 25
  · rw [decide_eq_true hfin] at hslt
    have hwhole : k + min 25 (diagonalStop n s - k) =
        max (diagonalStart n s) (diagonalStop n s) := by omega
    rcases Nat.lt_or_ge s (2 * n) with hnext | hend
    · have hfinish := htaken.finish hwhole (by omega)
      rw [finishEdge_next (e := ⟨now, nba⟩) hpos h64 hslt hsDiag hnext, Edge.commit_append, hnba]
      subst hnow
      refine ⟨_, rfl, rfl, rfl, Or.inr (Or.inl ⟨hfin, hnext, ?_⟩)⟩
      refine ⟨h.busy, h.notDone, rfl, rfl, rfl, hnext, Nat.le_refl _, .inr rfl, ?_, ?_⟩
      · have hindex : (BitVec.ofNat 32 s).toNat = s := by
          rw [BitVec.toNat_ofNat]
          omega
        change Taken _ _ _ _ _ (u.resultCache.setIfInBounds (BitVec.ofNat 32 s).toNat _) _
        rw [hindex]
        exact hfinish
      · intro j hj
        refine (limb_assign ?_).trans (h.rest j (by omega))
        rw [BitVec.toNat_ofNat]
        omega
    · obtain rfl : s = 2 * n := by omega
      have hempty : k + min 25 (diagonalStop n (2 * n) - k) = diagonalStart n (2 * n) := by
        rw [hwhole]
        simp only [diagonalStart, diagonalStop]
        omega
      rw [hempty] at htaken
      obtain ⟨hproduct, hacc⟩ := htaken.product (limb_lt _) (limb_lt _) hpos
      have hlow : acc.low64 = 0 ∧ acc.shr64.low64 = 0 := by
        rw [Acc.toNat] at hacc
        exact ⟨BitVec.eq_of_toNat_eq (by change acc.a0.toNat = 0; omega),
          BitVec.eq_of_toNat_eq (by change acc.a1.toNat = 0; omega)⟩
      obtain ⟨second, hsecond, hfinish⟩ := finishEdge_last (e := ⟨now, nba⟩) hslt hsDiag
      rw [hfinish, List.append_assoc, List.append_assoc, Edge.commit_append, hnba]
      subst hnow
      have hfirst : (BitVec.ofNat 32 (2 * n)).toNat = 2 * n := by
        rw [BitVec.toNat_ofNat]
        omega
      have hnext : (2 * BitVec.ofNat 32 n + 1).toNat = 2 * n + 1 := by
        rw [BitVec.toNat_add, BitVec.toNat_mul, BitVec.toNat_ofNat]
        change (2 * (n % 2 ^ 32) % 2 ^ 32 + 1) % 2 ^ 32 = _
        omega
      have hrest : ∀ j, 2 * n ≤ j → limb u.resultCache j = 0 := h.rest
      rcases hsecond with rfl | rfl
      · refine ⟨_, rfl, rfl, rfl, Or.inr (Or.inr ⟨hfin, rfl, rfl, rfl, ?_, fun j hj => ?_⟩)⟩
        · refine (limbValue_congr fun j hj => ?_).trans hproduct
          exact limb_assign (by omega)
        · change limb (assignResult _ acc.low64 _).resultCache j = 0
          rw [hlow.1]
          exact limb_assign_zero (hrest j hj)
      · refine ⟨_, rfl, rfl, rfl, Or.inr (Or.inr ⟨hfin, rfl, rfl, rfl, ?_, fun j hj => ?_⟩)⟩
        · refine (limbValue_congr fun j hj => ?_).trans hproduct
          exact (limb_assign (by omega)).trans (limb_assign (by omega))
        · change limb (assignResult _ acc.shr64.low64 (assignResult _ acc.low64 _)).resultCache j = 0
          rw [hlow.1, hlow.2]
          exact limb_assign_zero (limb_assign_zero (hrest j hj))
  · rw [decide_eq_false hfin] at hslt
    have hmore : k + min 25 (diagonalStop n s - k) = k + 25 := by omega
    rw [hmore] at hnow htaken
    rw [finishEdge_more (e := ⟨now, nba⟩) hslt, hnba]
    subst hnow
    refine ⟨_, rfl, rfl, rfl, Or.inl ⟨by omega, ?_⟩⟩
    exact ⟨h.busy, h.notDone, h.sDiag, h.iMax, rfl, h.le_last, by omega, by omega, htaken, h.rest⟩

/-- The edges left at index `k` of diagonal `s`: one for each empty diagonal. -/
def edgesLeft (n s k : Nat) : Nat := cyclesLeft n s k + min 2 (2 * n + 1 - s)

theorem cyclesLeft_diagonalStart (n s : Nat) :
    cyclesLeft n s (diagonalStart n s) = ∑ d ∈ Ico s (2 * n - 1), diagonalCycles n d := by
  rcases Nat.lt_or_ge s (2 * n - 1) with hlt | hge
  · exact cyclesLeft_start hlt
  · rw [cyclesLeft, diagonal_length, Ico_eq_empty_of_le hge, Ico_eq_empty_of_le (by omega),
      Nat.sub_eq_zero_of_le hge]
    simp

theorem edgesLeft_next (hstart : diagonalStart n s ≤ k)
    (hinside : k < diagonalStop n s ∨ k = diagonalStart n s)
    (hfin : diagonalStop n s ≤ k + 25) (hlast : s < 2 * n) :
    edgesLeft n s k = edgesLeft n (s + 1) (diagonalStart n (s + 1)) + 1 := by
  rw [edgesLeft, edgesLeft, cyclesLeft_diagonalStart]
  rcases Nat.lt_or_ge k (diagonalStop n s) with hlt | hge
  · have hs : s + 2 ≤ 2 * n := by
      simp only [diagonalStart] at hstart
      simp only [diagonalStop] at hlt
      omega
    rw [cyclesLeft_finish hlt hfin]
    omega
  · obtain rfl : k = diagonalStart n s := hinside.resolve_left (Nat.not_lt.mpr hge)
    have hs : 2 * n - 1 ≤ s := by
      simp only [diagonalStart, diagonalStop] at hge
      omega
    rw [cyclesLeft_diagonalStart, Ico_eq_empty_of_le hs, Ico_eq_empty_of_le (by omega)]
    simp only [sum_empty]
    omega

/-- The edges of a run on which `rstn` is high and `start` is low. -/
def idle (t : Nat) : List Inputs := List.replicate t ⟨true, false⟩

theorem run_append (operandSize : BitVec 32) (l l' : List Inputs) (u : BigmulRtl) :
    run operandSize (l ++ l') u = run operandSize l u >>= run operandSize l' := by
  induction l generalizing u with
  | nil => rfl
  | cons inputs l ih =>
    simp only [List.cons_append, run]
    cases u.clockEdge operandSize inputs with
    | error e => rfl
    | ok v => exact ih v

/-- A run from the middle of a product, by induction on the edges left. -/
theorem Running.run {r : Nat} (h : Running n s k u) (hpos : 0 < n) (h64 : n ≤ 64)
    (hr : edgesLeft n s k = r) :
    (∀ t < r, ∃ v s' k', BigmulRtl.run (BitVec.ofNat 32 n) (idle t) u = .ok v ∧
      Running n s' k' v) ∧
    ∃ v, BigmulRtl.run (BitVec.ofNat 32 n) (idle r) u = .ok v ∧ Finished n v ∧
      v.cacheA = u.cacheA ∧ v.cacheB = u.cacheB := by
  induction r generalizing s k u with
  | zero =>
    have hlast := h.le_last
    simp only [edgesLeft] at hr
    omega
  | succ r ih =>
    obtain ⟨v, hv, hA, hB, hcases⟩ := h.step false hpos h64
    have htail : (∀ t < r, ∃ w s' k', BigmulRtl.run (BitVec.ofNat 32 n) (idle t) v = .ok w ∧
          Running n s' k' w) ∧
        ∃ w, BigmulRtl.run (BitVec.ofNat 32 n) (idle r) v = .ok w ∧ Finished n w ∧
          w.cacheA = v.cacheA ∧ w.cacheB = v.cacheB := by
      rcases hcases with ⟨hlt, hrun⟩ | ⟨hfin, hnext, hrun⟩ | ⟨hfin, rfl, hdone⟩
      · have hleft := cyclesLeft_batch hlt
        refine ih hrun ?_
        simp only [edgesLeft] at hr ⊢
        omega
      · have hleft := edgesLeft_next h.start_le h.inside hfin hnext
        exact ih hrun (by omega)
      · obtain rfl : r = 0 := by
          have hstart := h.start_le
          simp only [edgesLeft, cyclesLeft, diagonalStart, diagonalStop] at hr hstart
          rw [Ico_eq_empty_of_le (by omega), sum_empty, Nat.sub_eq_zero_of_le (by omega)] at hr
          simp only [zero_ceilDiv] at hr
          omega
        exact ⟨fun t ht => absurd ht (Nat.not_lt_zero t), v, rfl, hdone, rfl, rfl⟩
    obtain ⟨hmid, w, hw, hfinished, hA', hB'⟩ := htail
    have hrun (t : Nat) : BigmulRtl.run (BitVec.ofNat 32 n) (idle (t + 1)) u =
        BigmulRtl.run (BitVec.ofNat 32 n) (idle t) v := by
      rw [idle, List.replicate_succ, BigmulRtl.run, hv]
      rfl
    refine ⟨fun t ht => ?_, w, (hrun r).trans hw, hfinished, hA'.trans hA, hB'.trans hB⟩
    cases t with
    | zero => exact ⟨u, s, k, rfl, h⟩
    | succ t =>
      obtain ⟨x, s', k', hx, hrunning⟩ := hmid t (by omega)
      exact ⟨x, s', k', (hrun t).trans hx, hrunning⟩

/-- The edges of a run on which `rstn` is low. -/
def resets (t : Nat) : List Inputs := List.replicate t ⟨false, false⟩

/-- Reset, then some idle edges, then the start pulse. -/
def startPulse (resetEdges idleEdges : Nat) : List Inputs :=
  resets (resetEdges + 1) ++ idle idleEdges ++ [⟨true, true⟩]

theorem run_resets (operandSize : BitVec 32) (t : Nat) (u : BigmulRtl) :
    run operandSize (resets (t + 1)) u = .ok u.resetEdge.commit := by
  induction t generalizing u with
  | zero => rfl
  | succ t ih =>
    rw [resets, List.replicate_succ]
    exact ih u.resetEdge.commit

theorem run_idle {operandSize : BitVec 32} (hbusy : u.busy = false) (t : Nat) :
    run operandSize (idle t) u = .ok u := by
  induction t with
  | zero => rfl
  | succ t ih =>
    have hedge : u.clockEdge operandSize ⟨true, false⟩ = .ok u := by
      simp [clockEdge, hbusy, Edge.commit]
    rw [idle, List.replicate_succ, run, hedge]
    exact ih

theorem run_startPulse (operandSize : BitVec 32) (r t : Nat) (u : BigmulRtl) :
    run operandSize (startPulse r t) u = .ok u.startEdge.commit := by
  have hbusy : u.resetEdge.commit.busy = false := rfl
  rw [startPulse, run_append, run_append, run_resets, Loop.bind_ok, run_idle hbusy, Loop.bind_ok]
  rfl

theorem startEdge_running (hpos : 0 < n) : Running n 0 0 u.startEdge.commit where
  busy := rfl
  notDone := rfl
  sDiag := rfl
  iMax := by
    have hstop : diagonalStop n 0 = 1 := by
      simp only [diagonalStop]
      omega
    rw [hstop]
    rfl
  kIter := rfl
  le_last := Nat.zero_le _
  start_le := by
    simp only [diagonalStart]
    omega
  inside := .inl (by
    simp only [diagonalStop]
    omega)
  taken := by
    have hstart : diagonalStart n 0 = 0 := by
      simp only [diagonalStart]
      omega
    refine ⟨?_, Nat.zero_le _⟩
    rw [hstart, partialDiagonal_self]
    rfl
  rest := fun j _ => by
    change limb (Vector.replicate 128 (0 : Word)) j = 0
    by_cases hj : j < 128
    · simp [limb, hj]
    · simp [limb, Nat.not_lt.mp hj]

/-- The result words below the current diagonal and the accumulator hold exactly the
partial products taken so far: no carry has been lost. -/
def AccExact (n : Nat) (u : BigmulRtl) : Prop :=
  ∃ s k : Nat, u.sDiag = BitVec.ofNat 32 s ∧ u.kIter = BitVec.ofNat 32 k ∧
    limbValue (2 ^ 64) (limb u.resultCache) s + u.acc.toNat * (2 ^ 64) ^ s =
      limbValue (2 ^ 64) (diagonal (limb u.cacheA) (limb u.cacheB) n) s +
        partialDiagonal (limb u.cacheA) (limb u.cacheB) s (diagonalStart n s) k * (2 ^ 64) ^ s

theorem eq_of_limb_eq {v w : Vector Word 128} {k : Nat} (h : limb v k = limb w k) :
    v[k]? = w[k]? := by
  by_cases hk : k < 128
  · rw [limb_of_lt v hk, limb_of_lt w hk] at h
    rw [Vector.getElem?_eq_getElem hk, Vector.getElem?_eq_getElem hk, BitVec.eq_of_toNat_eq h]
  · rw [Vector.getElem?_eq_none (Nat.not_lt.mp hk), Vector.getElem?_eq_none (Nat.not_lt.mp hk)]

/-- After a reset and a start pulse the module is busy for two edges more than
`singlecycle` has cycles, with an exact accumulator and no load outside the caches, and
then holds the result words of `singlecycle`, the product, and zeros above it. -/
theorem run_refines_singlecycle (size : OperandSize) (h64 : size.toNat ≤ 64) (u : BigmulRtl)
    (r t : Nat) :
    ∃ started w, run (BitVec.ofNat 32 size.toNat) (startPulse r t) u = .ok started ∧
      Loop.iter BigmulUnit.executeBigmul (computeCycles size.toNat)
        (startedUnit size u.cacheA u.cacheB) = .ok w ∧ w.writeDone = false ∧
      (∀ j < computeCycles size.toNat + 2,
        ∃ v, run (BitVec.ofNat 32 size.toNat) (idle j) started = .ok v ∧ v.busy = true ∧
          v.computeDone = false ∧ AccExact size.toNat v) ∧
      ∀ j, computeCycles size.toNat + 2 ≤ j →
        ∃ v, run (BitVec.ofNat 32 size.toNat) (idle j) started = .ok v ∧ v.busy = false ∧
          v.computeDone = true ∧
          (∀ k < 2 * size.toNat, v.resultCache[k]? = w.resultCache[k]?) ∧
          (∀ k, 2 * size.toNat ≤ k → k < 128 → v.resultCache[k]? = some 0) ∧
          ∑ k ∈ range (2 * size.toNat), limb v.resultCache k * 2 ^ (64 * k) =
            (∑ i ∈ range size.toNat, limb u.cacheA i * 2 ^ (64 * i)) *
              ∑ i ∈ range size.toNat, limb u.cacheB i * 2 ^ (64 * i) := by
  have hpos : 0 < size.toNat := size.pos
  have hedges : edgesLeft size.toNat 0 0 = computeCycles size.toNat + 2 := by
    rw [edgesLeft, computeCycles_eq hpos]
    omega
  obtain ⟨hmid, v, hv, hfinished, hA, hB⟩ := (startEdge_running (u := u) hpos).run hpos h64 hedges
  obtain ⟨-, w, hw, hcomputed, hsame, -⟩ :=
    compute_run (n := size.toNat) (u := startedUnit size u.cacheA u.cacheB) rfl hpos h64 rfl rfl rfl
  have hA' : v.cacheA = u.cacheA := hA
  have hB' : v.cacheB = u.cacheB := hB
  have hproduct : limbValue (2 ^ 64) (limb v.resultCache) (2 * size.toNat) =
      limbValue (2 ^ 64) (limb u.cacheA) size.toNat *
        limbValue (2 ^ 64) (limb u.cacheB) size.toNat := by
    rw [hfinished.product, hA', hB']
  have hwords : limbValue (2 ^ 64) (limb v.resultCache) (2 * size.toNat) =
      limbValue (2 ^ 64) (limb w.resultCache) (2 * size.toNat) := by
    rw [hproduct, hcomputed.product, hsame.cacheA, hsame.cacheB]
    rfl
  refine ⟨u.startEdge.commit, w, run_startPulse _ r t u, hw, hcomputed.writeDone, ?_, ?_⟩
  · intro j hj
    obtain ⟨x, s, k, hx, hrunning⟩ := hmid j hj
    exact ⟨x, hx, hrunning.busy, hrunning.notDone, s, k, hrunning.sDiag, hrunning.kIter,
      hrunning.taken.exact⟩
  · intro j hj
    obtain ⟨d, rfl⟩ := Nat.exists_eq_add_of_le hj
    refine ⟨v, ?_, hfinished.busy, hfinished.done, fun k hk => ?_, fun k hk hk128 => ?_, ?_⟩
    · rw [idle, List.replicate_add, run_append]
      exact (congrArg (· >>= _) hv).trans (run_idle hfinished.busy d)
    · exact eq_of_limb_eq (limbValue_injective (limb_lt _) (limb_lt _) hwords k hk)
    · have hzero := hfinished.rest k hk
      rw [limb_of_lt _ hk128] at hzero
      rw [Vector.getElem?_eq_getElem hk128]
      exact congrArg some (BitVec.eq_of_toNat_eq hzero)
    · rw [← limbValue_eq_sum, ← limbValue_eq_sum, ← limbValue_eq_sum, hproduct]

/-- The square of the greatest 64-word number, whose last assignments are out of range. -/
theorem run_refines_singlecycle_full :
    let u := { initial with cacheA := .replicate 64 (-1), cacheB := .replicate 64 (-1) }
    ∃ started v, run 64 (startPulse 0 0) u = .ok started ∧
      run 64 (idle (computeCycles 64 + 2)) started = .ok v ∧ v.computeDone = true ∧
      ∑ k ∈ range 128, limb v.resultCache k * 2 ^ (64 * k) = (2 ^ 4096 - 1) * (2 ^ 4096 - 1) := by
  intro u
  obtain ⟨started, w, hstarted, -, -, -, hdone⟩ :=
    run_refines_singlecycle .default (by decide) u 0 0
  obtain ⟨v, hv, -, hcompute, -, -, hproduct⟩ := hdone _ (Nat.le_refl _)
  have hlimbs : ∑ i ∈ range 64, limb u.cacheA i * 2 ^ (64 * i) = 2 ^ 4096 - 1 := by decide +kernel
  exact ⟨started, v, hstarted, hv, hcompute, hproduct.trans (congrArg (fun x => x * x) hlimbs)⟩

end BigmulRtl

end RiscvSim
