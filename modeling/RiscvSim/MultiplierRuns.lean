import RiscvSim.BigmulRtl
import RiscvSim.Simulation

/-! The Verilog multiplier over any sequence of clock edges and cache writes, against the
multiplier that its ports show. -/

namespace RiscvSim

open Limbs Finset

namespace BigmulRtl

/-- `write_cacheA` -/
def writeCacheA (addr : BitVec 32) (val : Word) (u : BigmulRtl) : BigmulRtl :=
  if BitVec.sle 0 addr && addr.slt 64 then
    { u with cacheA := u.cacheA.setIfInBounds addr.toNat val }
  else u

/-- `write_cacheB` -/
def writeCacheB (addr : BitVec 32) (val : Word) (u : BigmulRtl) : BigmulRtl :=
  if BitVec.sle 0 addr && addr.slt 64 then
    { u with cacheB := u.cacheB.setIfInBounds addr.toNat val }
  else u

/-- `read_result`; the value of an address out of range is an `x`. -/
def readResult (addr : BitVec 32) (u : BigmulRtl) : Except Fault Word :=
  if BitVec.sle 0 addr && addr.slt 128 then readAt u.resultCache addr.toInt
  else .error .arrayIndex

/-- What the surroundings of the module do. -/
inductive Action where
  | edge (operandSize : BitVec 32) (inputs : Inputs)
  | writeCacheA (addr : BitVec 32) (val : Word)
  | writeCacheB (addr : BitVec 32) (val : Word)

def perform (u : BigmulRtl) : Action → Except Fault BigmulRtl
  | .edge operandSize inputs => u.clockEdge operandSize inputs
  | .writeCacheA addr val => .ok (u.writeCacheA addr val)
  | .writeCacheB addr val => .ok (u.writeCacheB addr val)

end BigmulRtl

/-- A multiplier is ready, has a number of edges to go, or holds a product. -/
inductive Phase where
  | ready
  | working (size left : Nat)
  | done (product : Nat)
  deriving DecidableEq

namespace Phase

def busy : Phase → Bool
  | working _ _ => true
  | _ => false

def computeDone : Phase → Bool
  | done _ => true
  | _ => false

/-- The number in the result cache. -/
def result : Phase → Option Nat
  | ready => some 0
  | working _ _ => none
  | done product => some product

end Phase

/-- The module as its surroundings see it. -/
structure Multiplier where
  a : Vector Word 64
  b : Vector Word 64
  phase : Phase

namespace Multiplier

def initial : Multiplier := ⟨.replicate 64 0, .replicate 64 0, .ready⟩

/-- The product of the low `n` doublewords. -/
def product (m : Multiplier) (n : Nat) : Nat :=
  (∑ i ∈ range n, limb m.a i * 2 ^ (64 * i)) * ∑ i ∈ range n, limb m.b i * 2 ^ (64 * i)

/-- An edge while no product is under way. -/
def pulse (operandSize : BitVec 32) (start : Bool) (m : Multiplier) : Option Multiplier :=
  if !start then some m
  else if 0 < operandSize.toNat ∧ operandSize.toNat ≤ 64 then
    some { m with phase := .working operandSize.toNat (computeCycles operandSize.toNat + 2) }
  else none

/-- The surroundings keep the operands and their size while a product is under way. -/
def next (m : Multiplier) : BigmulRtl.Action → Option Multiplier
  | .edge operandSize inputs =>
    if !inputs.rstn then some { m with phase := .ready }
    else
      match m.phase with
      | .working size left =>
        if operandSize.toNat = size then
          some { m with phase := if left = 1 then .done (m.product size) else .working size (left - 1) }
        else none
      | _ => m.pulse operandSize inputs.start
  | .writeCacheA addr val =>
    if m.phase.busy then none else some { m with a := m.a.setIfInBounds addr.toNat val }
  | .writeCacheB addr val =>
    if m.phase.busy then none else some { m with b := m.b.setIfInBounds addr.toNat val }

end Multiplier

namespace BigmulRtl

/-- What the ports and the caches show. -/
structure Shows (m : Multiplier) (u : BigmulRtl) : Prop where
  cacheA : u.cacheA = m.a
  cacheB : u.cacheB = m.b
  busy : u.busy = m.phase.busy
  computeDone : u.computeDone = m.phase.computeDone
  result : ∀ value, m.phase.result = some value → ∀ j < 128,
    u.readResult (BitVec.ofNat 32 j) = .ok (BitVec.ofNat 64 (value / 2 ^ (64 * j)))

variable {m m' : Multiplier} {u : BigmulRtl} {n s k : Nat}

theorem address_check (addr : BitVec 32) {size : Nat} (hsize : size < 2 ^ 31) :
    (BitVec.sle 0 addr && addr.slt (BitVec.ofNat 32 size)) = decide (addr.toNat < size) := by
  have hlt := addr.isLt
  have hzero : (0 : BitVec 32).toInt = 0 := rfl
  have haddr := BitVec.toInt_eq_toNat_cond addr
  rw [BitVec.sle_eq_decide, BitVec.slt_eq_decide, ofNat_toInt hsize, hzero, ← Bool.decide_and]
  refine decide_eq_decide.mpr ?_
  split at haddr <;> omega

theorem setIfInBounds_eq_self {v : Vector Word n} {i : Nat} {x : Word} (h : n ≤ i) :
    v.setIfInBounds i x = v := by
  ext j hj
  rw [Vector.getElem_setIfInBounds_ne hj (by omega)]

/-- A write out of range is none. -/
theorem writeCacheA_eq (addr : BitVec 32) (val : Word) (u : BigmulRtl) :
    u.writeCacheA addr val = { u with cacheA := u.cacheA.setIfInBounds addr.toNat val } := by
  have hcheck := address_check addr (by decide : 64 < 2 ^ 31)
  by_cases hin : addr.toNat < 64
  · rw [decide_eq_true hin] at hcheck
    exact if_pos hcheck
  · rw [decide_eq_false hin] at hcheck
    rw [setIfInBounds_eq_self (Nat.not_lt.mp hin)]
    exact if_neg fun h => Bool.false_ne_true (hcheck.symm.trans h)

theorem writeCacheB_eq (addr : BitVec 32) (val : Word) (u : BigmulRtl) :
    u.writeCacheB addr val = { u with cacheB := u.cacheB.setIfInBounds addr.toNat val } := by
  have hcheck := address_check addr (by decide : 64 < 2 ^ 31)
  by_cases hin : addr.toNat < 64
  · rw [decide_eq_true hin] at hcheck
    exact if_pos hcheck
  · rw [decide_eq_false hin] at hcheck
    rw [setIfInBounds_eq_self (Nat.not_lt.mp hin)]
    exact if_neg fun h => Bool.false_ne_true (hcheck.symm.trans h)

/-- The doublewords of the number in the result cache. -/
theorem readResult_digit {value : Nat} (h : limbValue (2 ^ 64) (limb u.resultCache) 128 = value)
    {j : Nat} (hj : j < 128) :
    u.readResult (BitVec.ofNat 32 j) = .ok (BitVec.ofNat 64 (value / 2 ^ (64 * j))) := by
  have hsmall : (BitVec.ofNat 32 j).toNat < 128 := by
    rw [BitVec.toNat_ofNat]
    omega
  have hcheck := address_check (BitVec.ofNat 32 j) (by decide : 128 < 2 ^ 31)
  rw [decide_eq_true hsmall] at hcheck
  have hlow : limbValue (2 ^ 64) (limb u.resultCache) j / (2 ^ 64) ^ j = 0 :=
    Nat.div_eq_of_lt (limbValue_lt (limb_lt _) j)
  have hdigit : value / 2 ^ (64 * j) % 2 ^ 64 = limb u.resultCache j := by
    rw [← h, pow_mul, limbValue_div_mod _ (by decide) hj, hlow, Nat.zero_add,
      Nat.mod_eq_of_lt (limb_lt _ j)]
  have hread : u.readResult (BitVec.ofNat 32 j) = readAt u.resultCache (BitVec.ofNat 32 j).toInt :=
    if_pos hcheck
  rw [hread, ofNat_toInt (by omega), readAt_ofNat _ hj]
  refine congrArg Except.ok (BitVec.eq_of_toNat_eq ?_)
  rw [BitVec.toNat_ofNat, hdigit, limb_of_lt _ hj]

/-- The registers of the module in each phase. -/
inductive Follows : Multiplier → BigmulRtl → Prop
  | ready {u : BigmulRtl} (hbusy : u.busy = false) (hdone : u.computeDone = false)
      (hzero : limbValue (2 ^ 64) (limb u.resultCache) 128 = 0) :
      Follows ⟨u.cacheA, u.cacheB, .ready⟩ u
  | working {u : BigmulRtl} {n s k : Nat} (hpos : 0 < n) (h64 : n ≤ 64) (hrunning : Running n s k u) :
      Follows ⟨u.cacheA, u.cacheB, .working n (edgesLeft n s k)⟩ u
  | done {u : BigmulRtl} {product : Nat} (hbusy : u.busy = false) (hdone : u.computeDone = true)
      (hproduct : limbValue (2 ^ 64) (limb u.resultCache) 128 = product) :
      Follows ⟨u.cacheA, u.cacheB, .done product⟩ u

theorem Follows.shows (h : Follows m u) : Shows m u := by
  cases h with
  | ready hbusy hdone hzero =>
    refine ⟨rfl, rfl, hbusy, hdone, fun value hvalue j hj => ?_⟩
    exact readResult_digit (hzero.trans (Option.some.inj hvalue)) hj
  | working hpos h64 hrunning =>
    exact ⟨rfl, rfl, hrunning.busy, hrunning.notDone, fun value hvalue => by cases hvalue⟩
  | done hbusy hdone hproduct =>
    refine ⟨rfl, rfl, hbusy, hdone, fun value hvalue j hj => ?_⟩
    exact readResult_digit (hproduct.trans (Option.some.inj hvalue)) hj

theorem cleared_value (h : u.resultCache = .replicate 128 0) :
    limbValue (2 ^ 64) (limb u.resultCache) 128 = 0 := by
  refine sum_eq_zero fun j hj => ?_
  rw [h, limb_of_lt _ (mem_range.mp hj), Vector.getElem_replicate]
  exact Nat.zero_mul _

theorem Follows.start : Follows .initial initial :=
  .ready (u := initial) rfl rfl (cleared_value rfl)

theorem Follows.reset (h : Follows m u) : Follows { m with phase := .ready } u.resetEdge.commit := by
  have hready : Follows ⟨u.cacheA, u.cacheB, .ready⟩ u.resetEdge.commit :=
    .ready (u := u.resetEdge.commit) rfl rfl (cleared_value rfl)
  rw [h.shows.cacheA, h.shows.cacheB] at hready
  exact hready

/-- The limbs above a number are zeros. -/
theorem limbValue_of_zeros {B n l : Nat} {f : Nat → Nat} (hzero : ∀ j, n ≤ j → f j = 0)
    (hle : n ≤ l) : limbValue B f l = limbValue B f n := by
  induction l, hle using Nat.le_induction with
  | base => rfl
  | succ l hle ih => rw [limbValue_succ, hzero l hle, Nat.zero_mul, Nat.add_zero, ih]

/-- One edge takes one off the edges left, and the last one completes the product. -/
theorem Running.edge (start : Bool) (h : Running n s k u) (hpos : 0 < n) (h64 : n ≤ 64) :
    ∃ v, u.clockEdge (BitVec.ofNat 32 n) ⟨true, start⟩ = .ok v ∧
      v.cacheA = u.cacheA ∧ v.cacheB = u.cacheB ∧
      (edgesLeft n s k ≠ 1 ∧
          (∃ s' k', Running n s' k' v ∧ edgesLeft n s' k' = edgesLeft n s k - 1) ∨
        edgesLeft n s k = 1 ∧ Finished n v) := by
  obtain ⟨v, hv, hA, hB, hcases⟩ := h.step start hpos h64
  refine ⟨v, hv, hA, hB, ?_⟩
  have hsome {s k : Nat} (hrunning : Running n s k v) : 0 < edgesLeft n s k := by
    have hlast := hrunning.le_last
    simp only [edgesLeft]
    omega
  rcases hcases with ⟨hlt, hrunning⟩ | ⟨hfin, hnext, hrunning⟩ | ⟨hfin, rfl, hfinished⟩
  · have hleft : edgesLeft n s k = edgesLeft n s (k + 25) + 1 := by
      have hcycles := cyclesLeft_batch hlt
      simp only [edgesLeft]
      omega
    have hpositive := hsome hrunning
    exact .inl ⟨by omega, s, k + 25, hrunning, by omega⟩
  · have hleft := edgesLeft_next h.start_le h.inside hfin hnext
    have hpositive := hsome hrunning
    exact .inl ⟨by omega, s + 1, diagonalStart n (s + 1), hrunning, by omega⟩
  · refine .inr ⟨?_, hfinished⟩
    have hstart := h.start_le
    simp only [edgesLeft, cyclesLeft, diagonalStart, diagonalStop] at hstart ⊢
    rw [Ico_eq_empty_of_le (by omega), sum_empty, Nat.sub_eq_zero_of_le (by omega)]
    simp only [zero_ceilDiv]
    omega

/-- An edge that finds no product under way. -/
theorem Follows.pulse {operandSize : BitVec 32} {start : Bool} (h : Follows m u)
    (hidle : u.busy = false) (hnext : m.pulse operandSize start = some m') :
    ∃ v, u.clockEdge operandSize ⟨true, start⟩ = .ok v ∧ Follows m' v := by
  cases start with
  | false =>
    obtain rfl : m = m' := Option.some.inj hnext
    exact ⟨u, by simp [clockEdge, hidle, Edge.commit], h⟩
  | true =>
    simp only [Multiplier.pulse, Bool.not_true, Bool.false_eq_true, if_false,
      Option.ite_none_right_eq_some] at hnext
    obtain ⟨⟨hpos, h64⟩, hm⟩ := hnext
    obtain rfl := Option.some.inj hm
    refine ⟨u.startEdge.commit, by simp [clockEdge, hidle], ?_⟩
    have hworking : Follows ⟨u.cacheA, u.cacheB, .working operandSize.toNat
        (edgesLeft operandSize.toNat 0 0)⟩ u.startEdge.commit :=
      .working hpos h64 (startEdge_running hpos)
    have hedges : edgesLeft operandSize.toNat 0 0 = computeCycles operandSize.toNat + 2 := by
      rw [edgesLeft, computeCycles_eq hpos]
      omega
    rw [hedges, h.shows.cacheA, h.shows.cacheB] at hworking
    exact hworking

theorem Follows.edge {operandSize : BitVec 32} {inputs : Inputs} (h : Follows m u)
    (hnext : m.next (.edge operandSize inputs) = some m') :
    ∃ v, u.clockEdge operandSize inputs = .ok v ∧ Follows m' v := by
  obtain ⟨rstn, start⟩ := inputs
  cases rstn with
  | false =>
    obtain rfl := Option.some.inj hnext
    exact ⟨u.resetEdge.commit, rfl, h.reset⟩
  | true =>
    cases h with
    | ready hbusy hdone hzero => exact (Follows.ready hbusy hdone hzero).pulse hbusy hnext
    | done hbusy hdone hproduct => exact (Follows.done hbusy hdone hproduct).pulse hbusy hnext
    | @working _ n s k hpos h64 hrunning =>
      simp only [Multiplier.next, Bool.not_true, Bool.false_eq_true, if_false,
        Option.ite_none_right_eq_some] at hnext
      obtain ⟨hsize, hm⟩ := hnext
      obtain rfl := Option.some.inj hm
      obtain rfl : operandSize = BitVec.ofNat 32 n := by
        rw [← hsize, BitVec.ofNat_toNat, BitVec.setWidth_eq]
      obtain ⟨v, hv, hA, hB, hcases⟩ := hrunning.edge start hpos h64
      refine ⟨v, hv, ?_⟩
      rw [← hA, ← hB]
      rcases hcases with ⟨hmore, s', k', hrunning', hleft⟩ | ⟨hlast, hfinished⟩
      · rw [if_neg hmore, ← hleft]
        exact .working hpos h64 hrunning'
      · rw [if_pos hlast]
        refine .done hfinished.busy hfinished.done ?_
        rw [limbValue_of_zeros hfinished.rest (by omega), hfinished.product, limbValue_eq_sum,
          limbValue_eq_sum, hA, hB]
        rfl

theorem Follows.write {v : BigmulRtl} (h : Follows m u) (hidle : m.phase.busy = false)
    (hbusy : v.busy = u.busy) (hdone : v.computeDone = u.computeDone)
    (hresult : v.resultCache = u.resultCache) : Follows ⟨v.cacheA, v.cacheB, m.phase⟩ v := by
  cases h with
  | ready hb hd hzero => exact .ready (hbusy.trans hb) (hdone.trans hd) (hresult ▸ hzero)
  | working hpos h64 hrunning => cases hidle
  | done hb hd hproduct => exact .done (hbusy.trans hb) (hdone.trans hd) (hresult ▸ hproduct)

/-- What the surroundings do to the module, they do to the multiplier. -/
theorem Follows.step {action : Action} (h : Follows m u) (hnext : m.next action = some m') :
    ∃ v, u.perform action = .ok v ∧ Follows m' v := by
  cases action with
  | edge operandSize inputs => exact h.edge hnext
  | writeCacheA addr val =>
    simp only [Multiplier.next, Option.ite_none_left_eq_some, Bool.not_eq_true] at hnext
    obtain ⟨hidle, hm⟩ := hnext
    obtain rfl := Option.some.inj hm
    refine ⟨_, congrArg Except.ok (writeCacheA_eq addr val u), ?_⟩
    rw [← h.shows.cacheA, ← h.shows.cacheB]
    exact h.write (v := { u with cacheA := u.cacheA.setIfInBounds addr.toNat val }) hidle rfl rfl rfl
  | writeCacheB addr val =>
    simp only [Multiplier.next, Option.ite_none_left_eq_some, Bool.not_eq_true] at hnext
    obtain ⟨hidle, hm⟩ := hnext
    obtain rfl := Option.some.inj hm
    refine ⟨_, congrArg Except.ok (writeCacheB_eq addr val u), ?_⟩
    rw [← h.shows.cacheA, ← h.shows.cacheB]
    exact h.write (v := { u with cacheB := u.cacheB.setIfInBounds addr.toNat val }) hidle rfl rfl rfl

/-- Over any sequence of resets, start pulses, edges and writes in which the operands and their
size are kept while the module is busy, it shows the multiplier: no load leaves the
caches, a pulse while it is busy is ignored, and what is read after the last edge is the product. -/
theorem follows_multiplier {actions : List Action}
    (h : actions.foldlM Multiplier.next .initial = some m) :
    ∃ u, actions.foldlM perform .initial = .ok u ∧ Shows m u := by
  obtain ⟨u, hu, hfollows⟩ := Simulation.foldlM_follows
    (fun m u action m' hm hnext => hm.step hnext) Follows.start h
  exact ⟨u, hu, hfollows.shows⟩

/-- A product of one doubleword each that a reset cuts off, and the one that is computed instead. -/
theorem follows_multiplier_reset :
    let edge (start : Bool) : Action := .edge 1 ⟨true, start⟩
    ∃ u, [.writeCacheA 0 3, .writeCacheB 0 5, edge true, edge true, .edge 1 ⟨false, true⟩,
        .writeCacheA 0 7, .writeCacheA (-1) 9, edge true, edge false, edge true, edge false].foldlM
          perform .initial = .ok u ∧
      u.computeDone = true ∧ u.readResult 0 = .ok 35 ∧ u.readResult 1 = .ok 0 := by
  intro edge
  have hrun : [.writeCacheA 0 3, .writeCacheB 0 5, edge true, edge true, .edge 1 ⟨false, true⟩,
      .writeCacheA 0 7, .writeCacheA (-1) 9, edge true, edge false, edge true, edge false].foldlM
        Multiplier.next .initial = some ⟨(Vector.replicate 64 0).setIfInBounds 0 7,
          (Vector.replicate 64 0).setIfInBounds 0 5, .done 35⟩ := rfl
  obtain ⟨u, hu, hshows⟩ := follows_multiplier hrun
  exact ⟨u, hu, hshows.computeDone, hshows.result 35 rfl 0 (by decide),
    hshows.result 35 rfl 1 (by decide)⟩

end BigmulRtl

end RiscvSim
