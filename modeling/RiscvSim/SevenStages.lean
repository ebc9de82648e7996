import RiscvSim.ThreeStages
import Mathlib.Algebra.Order.Floor.Div

/-! `stage7pipeline` against `singlecycle`. Behind the multiplier a batch waits in a queue for as
long as its adder tree is deep. A diagonal has at most three batches, so the queue never fills. -/

namespace RiscvSim

open Limbs Finset

namespace Pipeline

/-- The items of the delay queue, the oldest first. -/
def queue (p : Pipeline) : List DelayItem := p.dq.toList.take p.dqLen.toNat

theorem queue_length {p : Pipeline} {q : Nat} (h : p.dqLen = q) (hq : q ≤ 5) :
    p.queue.length = q := by
  simp [queue, h, hq]

theorem queue_getElem? (p : Pipeline) (i : Nat) :
    p.queue[i]? = if i < p.dqLen.toNat then p.dq[i]? else none := by
  simp [queue, List.getElem?_take]

/-- `dq_pop_front` drops the oldest item. -/
theorem queue_dqPopFront {p : Pipeline} {q : Nat} (h : p.dqLen = (q + 1 : Nat)) (hq : q + 1 ≤ 5) :
    p.dqPopFront.dqLen = q ∧ p.dqPopFront.queue = p.queue.tail := by
  have hlen : p.dqPopFront.dqLen = q := by
    rw [dqPopFront, if_neg (by omega)]
    change p.dqLen - 1 = _
    omega
  refine ⟨hlen, List.ext_getElem? fun i => ?_⟩
  rw [List.getElem?_tail, queue_getElem?, queue_getElem?, hlen, h]
  simp only [Int.toNat_natCast]
  by_cases hi : i < q
  · rw [if_pos hi, if_pos (by omega)]
    have hne : ¬ p.dqLen = 0 := by omega
    have hi5 : i < 5 := by omega
    have hi5' : i + 1 < 5 := by omega
    simp only [dqPopFront, if_neg hne]
    simp [h, hi, hi5, hi5']
  · rw [if_neg hi, if_neg (by omega)]

/-- `dq_push` appends an item to a queue that is not full. -/
theorem queue_dqPush {p : Pipeline} {q : Nat} (h : p.dqLen = q) (hq : q < 5) (mb : MulBatch)
    {remain : Int} (hremain : 0 < remain) :
    (p.dqPush mb remain).dqLen = (q + 1 : Nat) ∧
      (p.dqPush mb remain).queue = p.queue ++ [⟨mb, remain, true⟩] := by
  have hpush : p.dqPush mb remain = { p with
      dq := p.dq.setIfInBounds q ⟨mb, remain, true⟩
      dqLen := (q : Int) + 1 } := by
    rw [dqPush, if_neg (by omega), if_neg (by omega), h]
    rfl
  rw [hpush]
  refine ⟨rfl, List.ext_getElem? fun i => ?_⟩
  have hlen := queue_length h (Nat.le_of_lt hq)
  rw [queue_getElem?, show ((q : Int) + 1).toNat = q + 1 by omega]
  rcases Nat.lt_trichotomy i q with hi | rfl | hi
  · rw [if_pos (by omega), List.getElem?_append_left (by omega), queue_getElem?, h, if_pos (by omega),
      Vector.getElem?_setIfInBounds_ne (by omega)]
  · rw [if_pos (by omega), List.getElem?_append_right (by omega), hlen, Nat.sub_self]
    simp [hq]
  · rw [if_neg (by omega), List.getElem?_eq_none (by simp [hlen]; omega)]

/-- An item that waits comes one stage closer. -/
def closer (item : DelayItem) : DelayItem :=
  if item.valid ∧ item.remain > 0 then { item with remain := item.remain - 1 } else item

theorem queue_dqAdvance {p : Pipeline} {q : Nat} (h : p.dqLen = q) (hq : q ≤ 5) :
    p.dqAdvance.queue = p.queue.map closer := by
  refine List.ext_getElem? fun i => ?_
  rw [List.getElem?_map, queue_getElem?, queue_getElem?]
  change (if i < p.dqLen.toNat then _ else _) = _
  by_cases hi : i < p.dqLen.toNat
  · have hi5 : i < 5 := by omega
    have hlt : (i : Int) < p.dqLen := by omega
    rw [if_pos hi, if_pos hi]
    simp [dqAdvance, closer, hi5, hlt]
  · rw [if_neg hi, if_neg hi]
    rfl

end Pipeline

namespace MulBatch

def toNat (b : MulBatch) : Nat := (Acc.mk b.lo b.hi b.hi2).toNat

end MulBatch

/-- The sums that wait in a queue. -/
def queueSum (q : List DelayItem) : Nat := (q.map fun item => item.mb.toNat).sum

/-- A bound on the calls until a queue is empty. -/
def queueCost (q : List DelayItem) : Nat := (q.map fun item => item.remain.toNat + 1).sum

@[simp] theorem queueSum_nil : queueSum [] = 0 := rfl

@[simp] theorem queueCost_nil : queueCost [] = 0 := rfl

@[simp] theorem queueSum_cons (item : DelayItem) (q : List DelayItem) :
    queueSum (item :: q) = item.mb.toNat + queueSum q := by
  simp [queueSum]

@[simp] theorem queueCost_cons (item : DelayItem) (q : List DelayItem) :
    queueCost (item :: q) = item.remain.toNat + 1 + queueCost q := by
  simp [queueCost]

@[simp] theorem queueSum_append (q r : List DelayItem) :
    queueSum (q ++ r) = queueSum q + queueSum r := by
  simp [queueSum]

@[simp] theorem queueCost_append (q r : List DelayItem) :
    queueCost (q ++ r) = queueCost q + queueCost r := by
  simp [queueCost]

/-- An item of the queue is a batch that still has a stage to pass or is due. -/
def Waits (item : DelayItem) : Prop := item.valid = true ∧ 0 ≤ item.remain

theorem Waits.closer {item : DelayItem} (h : Waits item) : Waits (Pipeline.closer item) := by
  unfold Pipeline.closer
  split
  · rename_i hpos
    refine ⟨h.1, ?_⟩
    change 0 ≤ item.remain - 1
    omega
  · exact h

theorem queueSum_closer (q : List DelayItem) : queueSum (q.map Pipeline.closer) = queueSum q := by
  induction q with
  | nil => rfl
  | cons item q ih =>
    have hmb : (Pipeline.closer item).mb = item.mb := by
      unfold Pipeline.closer
      split <;> rfl
    simp [hmb, ih]

theorem queueCost_closer_le (q : List DelayItem) :
    queueCost (q.map Pipeline.closer) ≤ queueCost q := by
  induction q with
  | nil => exact le_rfl
  | cons item q ih =>
    have hremain : (Pipeline.closer item).remain.toNat ≤ item.remain.toNat := by
      unfold Pipeline.closer
      split
      · change (item.remain - 1).toNat ≤ _
        omega
      · exact le_rfl
    simp only [List.map_cons, queueCost_cons]
    omega

/-- A call moves a queue on: its head leaves it when due, and the others come closer. -/
def shiftQueue : List DelayItem → List DelayItem
  | [] => []
  | item :: q => if item.remain = 0 then q.map Pipeline.closer else (item :: q).map Pipeline.closer

theorem shiftQueue_length_le (q : List DelayItem) : (shiftQueue q).length ≤ q.length := by
  cases q with
  | nil => exact le_rfl
  | cons item q =>
    simp only [shiftQueue]
    split <;> simp

theorem shiftQueue_waits {q : List DelayItem} (h : ∀ item ∈ q, Waits item) :
    ∀ item ∈ shiftQueue q, Waits item := by
  cases q with
  | nil => exact h
  | cons head q =>
    intro item hitem
    simp only [shiftQueue] at hitem
    split at hitem
    · obtain ⟨old, hold, rfl⟩ := List.mem_map.mp hitem
      exact (h old (List.mem_cons_of_mem head hold)).closer
    · obtain ⟨old, hold, rfl⟩ := List.mem_map.mp hitem
      exact (h old hold).closer

theorem shiftQueue_cost {q : List DelayItem} (h : ∀ item ∈ q, Waits item) :
    queueCost (shiftQueue q) + (if q = [] then 0 else 1) ≤ queueCost q := by
  cases q with
  | nil => exact le_rfl
  | cons head q =>
    have hcost := queueCost_closer_le q
    simp only [shiftQueue, queueCost_cons, reduceCtorEq, if_false]
    split
    · omega
    · rename_i hremain
      obtain ⟨hvalid, hpos⟩ := h head List.mem_cons_self
      have hcloser : Pipeline.closer head = { head with remain := head.remain - 1 } :=
        if_pos ⟨hvalid, by omega⟩
      simp only [List.map_cons, queueCost_cons, hcloser]
      omega

section

variable {n q : Nat} {m : Marks} {A B : Vector Word 64} {u : BigmulUnit}

/-- The number of an empty or of a filled register. -/
def filled (lo hi : Nat) : Nat := if lo < hi then 1 else 0

/-- The head of the queue is retired when due, and the other batches come closer. -/
theorem shiftQueue_eq {total : Nat} (hq : u.pipeline.dqLen = u.pipeline.queue.length)
    (hwaits : ∀ item ∈ u.pipeline.queue, Waits item)
    (htotal : total = u.acc.toNat + queueSum u.pipeline.queue) (hlt : total < 2 ^ 192) :
    ∃ acc dq dqLen, { u.retireHead with pipeline := u.retireHead.pipeline.dqAdvance } =
        { u with acc := acc, pipeline := { u.pipeline with dq := dq, dqLen := dqLen } } ∧
      ({ u.pipeline with dq := dq, dqLen := dqLen } : Pipeline).queue =
        shiftQueue u.pipeline.queue ∧
      dqLen = (shiftQueue u.pipeline.queue).length ∧
      acc.toNat + queueSum (shiftQueue u.pipeline.queue) = total := by
  have hfive : u.pipeline.queue.length ≤ 5 := by simp [Pipeline.queue]
  have hadvance := Pipeline.queue_dqAdvance hq hfive
  cases hqueue : u.pipeline.queue with
  | nil =>
    rw [hqueue] at hq hadvance htotal
    have hretire : u.retireHead = u := by
      rw [BigmulUnit.retireHead, if_neg]
      rw [hq]
      simp
    rw [hretire]
    exact ⟨u.acc, u.pipeline.dqAdvance.dq, u.pipeline.dqLen, rfl, hadvance, hq, htotal.symm⟩
  | cons head rest =>
    have hhead : u.pipeline.dq[0] = head := by
      have hget := u.pipeline.queue_getElem? 0
      rw [hqueue, hq, hqueue] at hget
      simpa using hget.symm
    rw [hqueue] at hq hfive hadvance htotal
    simp only [List.length_cons] at hq hfive
    by_cases hdue : head.remain = 0
    · have hretire : u.retireHead =
          { u.retire head.mb with pipeline := u.pipeline.dqPopFront } := by
        have hcond : u.pipeline.dqLen > 0 ∧ u.pipeline.dq[0].valid = true ∧
            u.pipeline.dq[0].remain = 0 := by
          rw [hhead, hq]
          exact ⟨by omega, (hwaits head (by simp [hqueue])).1, hdue⟩
        rw [BigmulUnit.retireHead, if_pos hcond, hhead]
      obtain ⟨hlen, hpop⟩ := Pipeline.queue_dqPopFront hq hfive
      rw [hqueue, List.tail_cons] at hpop
      have hmap := Pipeline.queue_dqAdvance hlen (by omega)
      have hshift : shiftQueue (head :: rest) = rest.map Pipeline.closer := if_pos hdue
      rw [hpop] at hmap
      rw [hretire, hshift]
      refine ⟨u.acc.addU192 head.mb.lo head.mb.hi head.mb.hi2, u.pipeline.dqPopFront.dqAdvance.dq,
        u.pipeline.dqPopFront.dqLen, ?_, hmap, ?_, ?_⟩
      · rw [BigmulUnit.retire, Pipeline.dqAdvance, Pipeline.dqPopFront, if_neg (by omega)]
      · rw [hlen, List.length_map]
      · have hacc : (u.acc.addU192 head.mb.lo head.mb.hi head.mb.hi2).toNat =
            (u.acc.toNat + head.mb.toNat) % 2 ^ 192 := Acc.addU192_toNat _ _ _ _
        rw [queueSum_cons] at htotal
        rw [queueSum_closer, hacc, Nat.mod_eq_of_lt (by omega)]
        omega
    · have hretire : u.retireHead = u := by
        rw [BigmulUnit.retireHead, if_neg]
        rw [hhead]
        exact fun hcond => hdue hcond.2.2
      have hshift : shiftQueue (head :: rest) = (head :: rest).map Pipeline.closer := if_neg hdue
      rw [hretire, hshift]
      refine ⟨u.acc, u.pipeline.dqAdvance.dq, u.pipeline.dqLen, rfl, hadvance, ?_, ?_⟩
      · rw [hq, List.length_map, List.length_cons]
      · rw [queueSum_closer, htotal]

/-- The batch behind the multiplier enters the queue, or goes past it when it need not wait. -/
theorem queueMul_eq {s lo hi total : Nat} (hq : u.pipeline.dqLen = u.pipeline.queue.length)
    (hwaits : ∀ item ∈ u.pipeline.queue, Waits item) (hmul : MulHolds s lo hi A B u.pipeline.pMUL)
    (hle : lo ≤ hi) (hroom : lo < hi → u.pipeline.queue.length < 5)
    (hdepth : lo < hi → u.pendingDepthForPMUL ≤ 4)
    (htotal : total = u.acc.toNat + queueSum u.pipeline.queue + partialDiagonal (limb A) (limb B) s
      lo hi) (hlt : total < 2 ^ 192) :
    ∃ acc dq dqLen, u.queueMul =
        { u with acc := acc, pipeline := { u.pipeline with dq := dq, dqLen := dqLen } } ∧
      ∃ q, ({ u.pipeline with dq := dq, dqLen := dqLen } : Pipeline).queue = q ∧
        dqLen = q.length ∧ acc.toNat + queueSum q = total ∧ (∀ item ∈ q, Waits item) ∧
        q.length ≤ u.pipeline.queue.length + filled lo hi ∧
        queueCost q ≤ queueCost u.pipeline.queue + 5 * filled lo hi := by
  by_cases hlohi : lo < hi
  · have hvalid : u.pipeline.pMUL.valid = true := by rw [hmul.valid, decide_eq_true hlohi]
    have hfilled : filled lo hi = 1 := if_pos hlohi
    have hsum : u.pipeline.pMUL.toNat = partialDiagonal (limb A) (limb B) s lo hi := hmul.sum
    rw [hfilled]
    by_cases hzero : u.pendingDepthForPMUL ≤ 0
    · have hcall : u.queueMul = u.retire u.pipeline.pMUL := by
        rw [BigmulUnit.queueMul, if_pos hvalid, if_pos hzero]
      have hacc : (u.acc.addU192 u.pipeline.pMUL.lo u.pipeline.pMUL.hi u.pipeline.pMUL.hi2).toNat =
          (u.acc.toNat + u.pipeline.pMUL.toNat) % 2 ^ 192 := Acc.addU192_toNat _ _ _ _
      refine ⟨u.acc.addU192 u.pipeline.pMUL.lo u.pipeline.pMUL.hi u.pipeline.pMUL.hi2,
        u.pipeline.dq, u.pipeline.dqLen, hcall, u.pipeline.queue, rfl, hq, ?_, hwaits, ?_, ?_⟩
      · rw [hacc, Nat.mod_eq_of_lt (by omega)]
        omega
      · exact Nat.le_add_right _ _
      · exact Nat.le_add_right _ _
    · have hcall : u.queueMul = { u with
          pipeline := u.pipeline.dqPush u.pipeline.pMUL u.pendingDepthForPMUL } := by
        rw [BigmulUnit.queueMul, if_pos hvalid, if_neg hzero]
      obtain ⟨hlen, hpush⟩ := Pipeline.queue_dqPush hq (hroom hlohi) u.pipeline.pMUL
        (Int.not_le.mp hzero)
      refine ⟨u.acc, (u.pipeline.dqPush u.pipeline.pMUL u.pendingDepthForPMUL).dq,
        (u.pipeline.dqPush u.pipeline.pMUL u.pendingDepthForPMUL).dqLen, ?_, _, hpush, ?_, ?_, ?_,
        ?_, ?_⟩
      · rw [hcall, Pipeline.dqPush, if_neg hzero, if_neg]
        have hfive := hroom hlohi
        omega
      · rw [hlen, List.length_append, List.length_singleton]
      · simp only [queueSum_append, queueSum_cons, queueSum_nil]
        omega
      · intro item hitem
        rcases List.mem_append.mp hitem with hold | hnew
        · exact hwaits item hold
        · obtain rfl := List.mem_singleton.mp hnew
          exact ⟨rfl, Int.le_of_lt (Int.not_le.mp hzero)⟩
      · simp
      · have hfour := hdepth hlohi
        simp only [queueCost_append, queueCost_cons, queueCost_nil]
        omega
  · have hvalid : ¬ u.pipeline.pMUL.valid = true := by
      rw [hmul.valid, decide_eq_false hlohi]
      simp
    obtain rfl : lo = hi := by omega
    rw [partialDiagonal_self] at htotal
    refine ⟨u.acc, u.pipeline.dq, u.pipeline.dqLen, if_neg hvalid, u.pipeline.queue, rfl, hq,
      htotal.symm, hwaits, Nat.le_add_right _ _, Nat.le_add_right _ _⟩

theorem csaDepthForCount_mem (count : Int) :
    0 ≤ csaDepthForCount count ∧ csaDepthForCount count ≤ 4 := by
  unfold csaDepthForCount
  split <;> omega

theorem multiply_eq {s lo hi : Nat} {l : LoadBatch} (h : LoadHolds s lo hi A B l)
    (hlen : hi ≤ lo + 25) (hle : lo ≤ hi) :
    ∃ b d, BigmulUnit.multiply l = .ok (b, d) ∧ MulHolds s lo hi A B b ∧
      (lo < hi → d = csaDepthForCount (hi - lo : Nat)) := by
  by_cases hlt : lo < hi
  · obtain ⟨b, hb, hsum⟩ := mulLoop_eq h hlen (p := hi - lo) le_rfl
    rw [Nat.add_sub_cancel' hle] at hsum
    have hvalid : l.valid = true := by rw [h.valid, decide_eq_true hlt]
    have hpos : decide (l.count > 0) = decide (lo < hi) := by
      rw [h.count]
      exact decide_eq_decide.mpr (by omega)
    refine ⟨⟨b.a0, b.a1, b.a2, decide (lo < hi)⟩, csaDepthForCount l.count, ?_, ⟨rfl, hsum⟩,
      fun _ => by rw [h.count]⟩
    rw [BigmulUnit.multiply, if_pos hvalid, hpos, h.count, Int.toNat_natCast, hb, Loop.bind_ok]
    rfl
  · have hvalid : ¬ l.valid = true := by
      rw [h.valid, decide_eq_false hlt]
      simp
    refine ⟨makeEmptyMul, 0, by rw [BigmulUnit.multiply, if_neg hvalid]; rfl,
      mulHolds_empty (by omega), fun h => absurd h hlt⟩

theorem loadStage_eq {s lo hi : Nat} {g : GenBatch} (h : GenHolds s lo hi g) :
    u.loadStage g = u.nextLoad g := by
  by_cases hlt : lo < hi
  · have hvalid : g.valid = true := by rw [h.valid, decide_eq_true hlt]
    have hpos : g.count > 0 := by
      rw [h.count]
      omega
    rw [BigmulUnit.loadStage, BigmulUnit.nextLoad, if_pos hvalid, if_pos ⟨hvalid, hpos⟩]
    simp only [decide_eq_true hpos]
  · have hvalid : ¬ g.valid = true := by
      rw [h.valid, decide_eq_false hlt]
      simp
    rw [BigmulUnit.loadStage, BigmulUnit.nextLoad, if_neg hvalid, if_neg fun hv => hvalid hv.1]

/-- The batches of a diagonal that are not retired yet. -/
def openBatches (n : Nat) (m : Marks) (q : List DelayItem) : Nat :=
  q.length + filled m.past m.loaded + filled m.loaded m.generated + filled m.generated m.next +
    (diagonalStop n m.diag - m.next) ⌈/⌉ 25

/-- A unit between two calls of `stage7pipeline`: the accumulator and the queue hold the products
behind the multiplier, each once. -/
structure SevenState (n : Nat) (m : Marks) (A B : Vector Word 64) (u : BigmulUnit) : Prop
    extends Staged n m A B u where
  dqLen : u.pipeline.dqLen = u.pipeline.queue.length
  waits : ∀ item ∈ u.pipeline.queue, Waits item
  depth : m.past < m.loaded → u.pendingDepthForPMUL = csaDepthForCount (m.loaded - m.past : Nat)
  room : openBatches n m u.pipeline.queue ≤ 3
  busy : m.past < diagonalStop n m.diag ∨ u.pipeline.queue ≠ []
  collected : Collected n m.diag m.past (limb A) (limb B) u.resultCache
    (u.acc.toNat + queueSum u.pipeline.queue)

def sevenPotential (n : Nat) (m : Marks) (q : List DelayItem) : Nat :=
  (2 * n - 2 - m.diag) * 1000 + 9 * (diagonalStop n m.diag - m.next) +
    8 * filled m.generated m.next + 7 * filled m.loaded m.generated +
      6 * filled m.past m.loaded + queueCost q

/-- Generating a batch does not change the number of open batches. -/
theorem filled_advance {stop next : Nat} (h : next ≤ stop) :
    filled next (min stop (next + 25)) + (stop - min stop (next + 25)) ⌈/⌉ 25 =
      (stop - next) ⌈/⌉ 25 := by
  simp only [filled, Nat.ceilDiv_eq_add_pred_div]
  split <;> omega

/-- The batch behind the multiplier leaves its register for the queue or the accumulator. -/
theorem openBatches_advance {r r' : List DelayItem} (hnext : m.next ≤ diagonalStop n m.diag)
    (hr : r'.length ≤ r.length + filled m.past m.loaded) :
    openBatches n (m.advance n) r' ≤ openBatches n m r := by
  have hadvance := filled_advance hnext
  simp only [openBatches, Marks.advance]
  omega

theorem sevenPotential_advance {r r' : List DelayItem} (hnext : m.next ≤ diagonalStop n m.diag)
    (hpast : m.past ≤ m.loaded) (hloaded : m.loaded ≤ m.generated)
    (hgenerated : m.generated ≤ m.next)
    (hr : queueCost r' + (if r = [] then 0 else 1) ≤ queueCost r + 5 * filled m.past m.loaded)
    (hbusy : m.past < diagonalStop n m.diag ∨ r ≠ []) :
    sevenPotential n (m.advance n) r' < sevenPotential n m r := by
  have hgen : 8 * filled m.next (m.advance n).next +
      9 * (diagonalStop n m.diag - (m.advance n).next) + (if m.next < diagonalStop n m.diag then 1
        else 0) ≤ 9 * (diagonalStop n m.diag - m.next) := by
    have hmin : (m.advance n).next = min (diagonalStop n m.diag) (m.next + 25) := rfl
    simp only [filled]
    split_ifs <;> omega
  have hmoved : sevenPotential n (m.advance n) r' = (2 * n - 2 - m.diag) * 1000 +
      9 * (diagonalStop n m.diag - (m.advance n).next) + 8 * filled m.next (m.advance n).next +
        7 * filled m.generated m.next + 6 * filled m.loaded m.generated + queueCost r' := rfl
  rw [hmoved, sevenPotential]
  by_cases hnil : r = []
  · rw [if_pos hnil] at hr
    have hlt : m.past < diagonalStop n m.diag := hbusy.resolve_right (not_not_intro hnil)
    simp only [filled] at hgen hr ⊢
    split_ifs at hgen hr ⊢ <;> omega
  · rw [if_neg hnil] at hr
    omega

/-- The queue in a call: what is due leaves it, and the batch behind the multiplier enters it. -/
theorem SevenState.drain (h : SevenState n m A B u) (hn : n ≤ 64) :
    ∃ acc dq dqLen, BigmulUnit.queueMul
          { u.retireHead with pipeline := u.retireHead.pipeline.dqAdvance } =
        { u with acc := acc, pipeline := { u.pipeline with dq := dq, dqLen := dqLen } } ∧
      ∃ q, ({ u.pipeline with dq := dq, dqLen := dqLen } : Pipeline).queue = q ∧
        dqLen = q.length ∧ (∀ item ∈ q, Waits item) ∧
        q.length ≤ u.pipeline.queue.length + filled m.past m.loaded ∧
        queueCost q + (if u.pipeline.queue = [] then 0 else 1) ≤
          queueCost u.pipeline.queue + 5 * filled m.past m.loaded ∧
        Collected n m.diag m.loaded (limb A) (limb B) u.resultCache
          (acc.toNat + queueSum q) := by
  have hloaded : m.loaded ≤ diagonalStop n m.diag :=
    h.loaded_le.trans (h.generated_le.trans h.next_le)
  have hstop : m.past ≤ diagonalStop n m.diag := h.past_le.trans hloaded
  have hall := h.collected.batch h.start_le h.past_le (limb_le A) (limb_le B)
  obtain ⟨acc, dq, dqLen, hshift, hqueue, hlen, htotal⟩ :=
    shiftQueue_eq h.dqLen h.waits rfl (h.collected.lt hn hstop)
  have hcost := shiftQueue_cost h.waits
  have hlength := shiftQueue_length_le u.pipeline.queue
  have hroom := h.room
  simp only [openBatches] at hroom
  rw [hshift]
  obtain ⟨acc', dq', dqLen', hmul, q, hq, hqlen, hqtotal, hwaits, hlength', hcost'⟩ :=
    queueMul_eq (u := { u with acc := acc, pipeline := { u.pipeline with dq := dq, dqLen := dqLen } })
      (by rw [hqueue]; exact hlen) (by rw [hqueue]; exact shiftQueue_waits h.waits) h.mul h.past_le
      (fun _ => by rw [hqueue]; omega) (fun hlt => h.depth hlt ▸ (csaDepthForCount_mem _).2)
      (by rw [hqueue, htotal]) (hall.lt hn hloaded)
  rw [hqueue] at hlength' hcost'
  refine ⟨acc', dq', dqLen', hmul, q, hq, hqlen, hwaits, by omega, by omega, ?_⟩
  rw [hqtotal]
  exact hall

/-- A diagonal begins with at most three batches to generate. -/
theorem firstMarks_open (s : Nat) :
    openBatches 64 (.first 64 s) [] ≤ 3 ∧
      sevenPotential 64 (.first 64 s) [] ≤ (2 * 64 - 2 - s) * 1000 + 576 := by
  have hstop : diagonalStop 64 s ≤ 64 := by
    simp only [diagonalStop]
    omega
  simp only [openBatches, sevenPotential, Marks.first, filled, Nat.lt_irrefl, if_false,
    List.length_nil, queueCost_nil, Nat.ceilDiv_eq_add_pred_div]
  omega

/-- A call moves the batches on by one register, and ends a diagonal behind its last one. -/
theorem SevenState.step (h : SevenState 64 m A B u) :
    ∃ v, u.stage7pipeline = .ok v ∧
      ((∃ m', SevenState 64 m' A B v ∧
          sevenPotential 64 m' v.pipeline.queue < sevenPotential 64 m u.pipeline.queue) ∨
        Multiplied 64 A B v) := by
  obtain ⟨acc, dq, dqLen, hdrain, q, hq, hqlen, hwaits, hlength, hcost, hcollected⟩ :=
    h.drain le_rfl
  have hdrained : Staged 64 m A B
      { u with acc := acc, pipeline := { u.pipeline with dq := dq, dqLen := dqLen } } :=
    ⟨⟨h.size, h.notDone, h.started, h.writeDone, h.sDiag, h.iMax, h.le_last, h.cacheA, h.cacheB⟩,
      h.kIter, h.genDone, h.start_le, h.past_le, h.loaded_le, h.generated_le, h.next_le, h.batch,
      h.mul, h.load, h.gen⟩
  obtain ⟨-, pLOAD, -, hpLOAD, -, hLOAD⟩ := hdrained.stages le_rfl
  obtain ⟨pMUL, depth, hpMUL, hMUL, hdepth⟩ := multiply_eq h.load h.batch.2.1 h.loaded_le
  have hon : OnDiagonal 64 m.diag A B { u with
      acc := acc
      pendingDepthForPMUL := depth
      pipeline := { u.pipeline with dq := dq, dqLen := dqLen, pMUL := pMUL, pLOAD := pLOAD } } :=
    ⟨h.size, h.notDone, h.started, h.writeDone, h.sDiag, h.iMax, h.le_last, h.cacheA, h.cacheB⟩
  obtain ⟨pGEN, hGEN, hgenerate⟩ := hon.generate_eq h.kIter h.genDone h.next_le
  let v : BigmulUnit := { u with
    acc := acc
    pendingDepthForPMUL := depth
    kIter := (((m.advance 64).next : Nat) : Int)
    genDoneThisDiag := decide ((m.advance 64).next = diagonalStop 64 m.diag)
    pipeline := { u.pipeline with
      dq := dq, dqLen := dqLen, pGEN := pGEN, pMUL := pMUL, pLOAD := pLOAD } }
  have hvon : OnDiagonal 64 m.diag A B v :=
    ⟨h.size, h.notDone, h.started, h.writeDone, h.sDiag, h.iMax, h.le_last, h.cacheA, h.cacheB⟩
  have hv : Staged 64 (m.advance 64) A B v := hdrained.advance hvon rfl rfl hMUL hLOAD hGEN
  have hvq : v.pipeline.queue = q := hq
  have hcall : u.stage7pipeline =
      if m.loaded = diagonalStop 64 m.diag ∧ q = [] then v.emitDiagonal 126 63 BigmulUnit.stage7Next
      else .ok v := by
    have hnd : ¬ (u.bigmulDone = true) := by simp [h.notDone]
    have hempty := hv.empty_iff
    have hend : (v.genDoneThisDiag && (decide ((m.advance 64).past = (m.advance 64).next) &&
        v.pipeline.dqLen == 0)) = decide (m.loaded = diagonalStop 64 m.diag ∧ q = []) := by
      have hbounds : m.loaded ≤ (m.advance 64).next :=
        hv.past_le.trans (hv.loaded_le.trans hv.generated_le)
      have hnext : (m.advance 64).next ≤ diagonalStop 64 m.diag := hv.next_le
      have hpast : (m.advance 64).past = m.loaded := rfl
      have hnil : q = [] ↔ dqLen = 0 := by
        rw [hqlen, Int.natCast_eq_zero, List.length_eq_zero_iff]
      have hv0 : v.genDoneThisDiag = decide ((m.advance 64).next = diagonalStop 64 m.diag) := rfl
      have hv1 : v.pipeline.dqLen = dqLen := rfl
      rw [hpast, Bool.eq_iff_iff, hv0, hv1]
      simp only [Bool.and_eq_true, decide_eq_true_eq, beq_iff_eq, hnil]
      omega
    simp only [BigmulUnit.stage7pipeline, if_neg hnd, h.started_eq, hdrain, hpMUL, Loop.bind_ok,
      loadStage_eq hdrained.gen, hpLOAD, hgenerate]
    change (if v.genDoneThisDiag && (_ && v.pipeline.dqLen == 0) then
      v.emitDiagonal 126 63 BigmulUnit.stage7Next else pure v) = _
    rw [hempty, hend]
    simp only [decide_eq_true_eq]
    rfl
  have hloaded : m.loaded ≤ diagonalStop 64 m.diag :=
    h.loaded_le.trans (h.generated_le.trans h.next_le)
  by_cases hend : m.loaded = diagonalStop 64 m.diag ∧ q = []
  · rw [if_pos hend] at hcall
    obtain ⟨hend, rfl⟩ := hend
    rw [hend] at hcollected
    rcases hvon.emit BigmulUnit.stage7Next le_rfl (hcollected.taken rfl) rfl rfl with
      ⟨w, hw, hlt, hwon, hwk, hwtaken, -, -⟩ | ⟨w, hw, hproduct⟩
    · have hnew : Staged 64 (.first 64 (m.diag + 1)) A B w.stage7Next :=
        first_staged (d := 0) (k := 0) ⟨hwon.size, hwon.notDone, hwon.started, hwon.writeDone,
          hwon.sDiag, hwon.iMax, hwon.le_last, hwon.cacheA, hwon.cacheB⟩ hwk rfl (mulHolds_empty rfl)
          (loadHolds_empty rfl) (genHolds_empty rfl)
      have hempty : w.stage7Next.pipeline.queue = [] := rfl
      have hfirst := firstMarks_open (m.diag + 1)
      refine ⟨_, hcall.trans hw, .inl ⟨.first 64 (m.diag + 1), ⟨hnew, rfl, ?_, ?_, ?_, ?_, ?_⟩, ?_⟩⟩
      · rw [hempty]
        exact nofun
      · exact fun hlt => absurd hlt (Nat.lt_irrefl _)
      · rw [hempty]
        exact hfirst.1
      · exact .inl (diagonalStart_lt_stop hwon.le_last)
      · exact hwtaken.collected
      · rw [hempty]
        have hpotential : (2 * 64 - 2 - m.diag) * 1000 ≤
            sevenPotential 64 m u.pipeline.queue := by
          simp only [sevenPotential]
          omega
        have hsecond := hfirst.2
        omega
    · exact ⟨w, hcall.trans hw, .inr hproduct⟩
  · rw [if_neg hend] at hcall
    refine ⟨v, hcall, .inl ⟨m.advance 64, ⟨hv, ?_, ?_, hdepth, ?_, ?_, ?_⟩, ?_⟩⟩
    · rw [hvq]
      exact hqlen
    · rw [hvq]
      exact hwaits
    · rw [hvq]
      exact (openBatches_advance h.next_le hlength).trans h.room
    · rw [hvq]
      rcases Nat.lt_or_ge m.loaded (diagonalStop 64 m.diag) with hlt | hge
      · exact .inl hlt
      · exact .inr fun hnil => hend ⟨Nat.le_antisymm hloaded hge, hnil⟩
    · rw [hvq]
      exact hcollected
    · rw [hvq]
      exact sevenPotential_advance h.next_le h.past_le h.loaded_le h.generated_le hcost h.busy

/-- When a batch behind the multiplier has to wait, the queue takes it, with its delay. -/
def PushKept (u : BigmulUnit) : Prop :=
  u.pipeline.pMUL.valid = true → 0 < u.pendingDepthForPMUL →
    u.retireHead.pipeline.dqAdvance.dqLen < 5 ∧
      (u.retireHead.pipeline.dqAdvance.dqPush u.pipeline.pMUL u.pendingDepthForPMUL).queue =
        u.retireHead.pipeline.dqAdvance.queue ++ [⟨u.pipeline.pMUL, u.pendingDepthForPMUL, true⟩]

theorem SevenState.pushKept (h : SevenState n m A B u) (hn : n ≤ 64) : PushKept u := by
  intro hvalid hdepth
  have hstop : m.past ≤ diagonalStop n m.diag :=
    h.past_le.trans (h.loaded_le.trans (h.generated_le.trans h.next_le))
  obtain ⟨acc, dq, dqLen, hshift, hqueue, hlen, -⟩ :=
    shiftQueue_eq h.dqLen h.waits rfl (h.collected.lt hn hstop)
  have hpipe : u.retireHead.pipeline.dqAdvance = { u.pipeline with dq := dq, dqLen := dqLen } :=
    congrArg BigmulUnit.pipeline hshift
  have hlength := shiftQueue_length_le u.pipeline.queue
  have hroom := h.room
  simp only [openBatches] at hroom
  rw [hpipe]
  have hlt : (shiftQueue u.pipeline.queue).length < 5 := by omega
  refine ⟨?_, (Pipeline.queue_dqPush hlen hlt _ hdepth).2⟩
  change dqLen < 5
  omega

end

theorem startBigmul_sevenState {u : BigmulUnit} (hn : u.sizeOfOperand.toNat = 64) :
    SevenState 64 (.first 64 0) u.cacheA u.cacheB u.startBigmul := by
  have h := startBigmul_threeState hn
  have hqueue : u.startBigmul.pipeline.queue = [] := rfl
  refine ⟨h.toStaged, rfl, nofun, fun hlt => absurd hlt (Nat.lt_irrefl _), ?_, .inl h.busy, ?_⟩
  · rw [hqueue]
    exact (firstMarks_open 0).1
  · rw [hqueue]
    exact h.taken.collected

/-- A running unit with its potential. -/
def SevenRunning (A B : Vector Word 64) (p : Nat) (u : BigmulUnit) : Prop :=
  ∃ m, SevenState 64 m A B u ∧ sevenPotential 64 m u.pipeline.queue = p

/-- The pipeline of seven stages leaves what `singlecycle` leaves. No batch is lost on the way to
its queue, and between two calls the accumulator and the queue together hold every product behind
the multiplier once. -/
theorem stage7pipeline_agrees (u : BigmulUnit) (hn : u.sizeOfOperand.toNat = 64)
    (hdone : u.bigmulDone = false) (hprog : u.bigmulProg = 0) (hwrite : u.writeDone = true) :
    ∃ N v w, Loop.iter BigmulUnit.stage7pipeline N u = .ok v ∧ v.writeDone = false ∧
      (∀ t < N, ∃ x, Loop.iter BigmulUnit.stage7pipeline t u = .ok x ∧ x.writeDone = true ∧
        (0 < t → PushKept x ∧ ∃ m, SevenState 64 m u.cacheA u.cacheB x)) ∧
      Completes BigmulUnit.singlecycle u w ∧
      ∀ k < 128, v.resultCache[k]? = w.resultCache[k]? := by
  have hfirst : u.stage7pipeline = u.startBigmul.stage7pipeline := by
    have hnd : ¬ (u.bigmulDone = true) := by simp [hdone]
    simp only [BigmulUnit.stage7pipeline, BigmulUnit.started, if_neg hnd, if_pos hprog]
    rfl
  have hstep : ∀ p v, SevenRunning u.cacheA u.cacheB p v → ∃ w, v.stage7pipeline = .ok w ∧
      ((∃ r < p, SevenRunning u.cacheA u.cacheB r w) ∨ Multiplied 64 u.cacheA u.cacheB w) := by
    rintro p v ⟨m, h, rfl⟩
    obtain ⟨w, hw, ⟨m', h', hlt⟩ | hend⟩ := h.step
    · exact ⟨w, hw, .inl ⟨_, hlt, m', h', rfl⟩⟩
    · exact ⟨w, hw, .inr hend⟩
  obtain ⟨N, v, w, hv, hvw, hrun, hw, heq⟩ := engine_agrees (SevenRunning u.cacheA u.cacheB) hn
    le_rfl hdone hprog hwrite hfirst ⟨_, _, startBigmul_sevenState hn, rfl⟩
    (fun _ _ h => h.choose_spec.1.writeDone) hstep
  refine ⟨N, v, w, hv, hvw, fun t ht => ?_, hw, heq⟩
  obtain ⟨x, hx, hxw, hinv⟩ := hrun t ht
  refine ⟨x, hx, hxw, fun hpos => ?_⟩
  obtain ⟨p, m, h, -⟩ := hinv hpos
  exact ⟨h.pushKept le_rfl, m, h⟩

/-- The square of the greatest operand. -/
theorem stage7pipeline_agrees_greatest :
    let u := startedUnit .default (.replicate 64 (-1)) (.replicate 64 (-1))
    ∃ v w, Completes BigmulUnit.stage7pipeline u v ∧ Completes BigmulUnit.singlecycle u w ∧
      ∀ k < 128, v.resultCache[k]? = w.resultCache[k]? := by
  intro u
  obtain ⟨N, v, w, hv, hvw, hrun, hw, heq⟩ := stage7pipeline_agrees u rfl rfl rfl rfl
  refine ⟨v, w, ⟨N, hv, hvw, fun t ht => ?_⟩, hw, heq⟩
  obtain ⟨x, hx, hxw, -⟩ := hrun t ht
  exact ⟨x, hx, hxw⟩

end RiscvSim
