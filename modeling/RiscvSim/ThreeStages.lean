import RiscvSim.EngineRuns

/-! The registers between the stages that generate, load and multiply the index pairs of a
diagonal, and `staged3pipeline` against `singlecycle`. Every register holds the pairs of one
interval of the diagonal, and a call moves the intervals on by one register. -/

namespace RiscvSim

open Limbs Finset

/-- The batch of the pairs of diagonal `s` with first index from `lo` up to `hi`. -/
structure GenHolds (s lo hi : Nat) (g : GenBatch) : Prop where
  count : g.count = (hi - lo : Nat)
  valid : g.valid = decide (lo < hi)
  pairs : ∀ t < hi - lo, readAt g.i (t : Nat) = .ok ((lo + t : Nat) : Int) ∧
    readAt g.j (t : Nat) = .ok ((s - (lo + t) : Nat) : Int)

structure LoadHolds (s lo hi : Nat) (A B : Vector Word 64) (l : LoadBatch) : Prop where
  count : l.count = (hi - lo : Nat)
  valid : l.valid = decide (lo < hi)
  words : ∀ t < hi - lo, readAt l.ai (t : Nat) = .ok (A[lo + t]?.getD 0) ∧
    readAt l.bj (t : Nat) = .ok (B[s - (lo + t)]?.getD 0)

structure MulHolds (s lo hi : Nat) (A B : Vector Word 64) (b : MulBatch) : Prop where
  valid : b.valid = decide (lo < hi)
  sum : (Acc.mk b.lo b.hi b.hi2).toNat = partialDiagonal (limb A) (limb B) s lo hi

/-- Where the pairs of a diagonal are: below `past` behind the multiplier, and from there up to
`loaded`, `generated` and `next` in its registers. -/
structure Marks where
  diag : Nat
  past : Nat
  loaded : Nat
  generated : Nat
  next : Nat

namespace Marks

/-- Nothing of diagonal `s` is generated. -/
def first (n s : Nat) : Marks :=
  ⟨s, diagonalStart n s, diagonalStart n s, diagonalStart n s, diagonalStart n s⟩

/-- Every batch moves on by one register, and the next one is generated. -/
def advance (n : Nat) (m : Marks) : Marks :=
  ⟨m.diag, m.loaded, m.generated, m.next, min (diagonalStop n m.diag) (m.next + 25)⟩

/-- As `advance`, with the next diagonal right behind the last batch. -/
def move (n : Nat) (m : Marks) : Marks :=
  if (m.advance n).past = diagonalStop n m.diag then first n (m.diag + 1) else m.advance n

/-- The calls until the last batch of a diagonal is multiplied. -/
def cost (n : Nat) (m : Marks) : Nat :=
  4 * (diagonalStop n m.diag - m.next) + (if m.generated < m.next then 3 else 0) +
    (if m.loaded < m.generated then 2 else 0) + if m.past < m.loaded then 1 else 0

theorem first_cost {n s : Nat} (hn : n ≤ 64) : (first n s).cost n ≤ 256 := by
  simp only [cost, first, Nat.lt_irrefl, if_false]
  have hstop : diagonalStop n s ≤ 64 := by
    simp only [diagonalStop]
    omega
  omega

end Marks

/-- A unit whose three registers hold the batches between the marks. -/
structure Staged (n : Nat) (m : Marks) (A B : Vector Word 64) (u : BigmulUnit) : Prop
    extends OnDiagonal n m.diag A B u where
  kIter : u.kIter = m.next
  genDone : u.genDoneThisDiag = decide (m.next = diagonalStop n m.diag)
  start_le : diagonalStart n m.diag ≤ m.past
  past_le : m.past ≤ m.loaded
  loaded_le : m.loaded ≤ m.generated
  generated_le : m.generated ≤ m.next
  next_le : m.next ≤ diagonalStop n m.diag
  batch : m.loaded ≤ m.past + 25 ∧ m.generated ≤ m.loaded + 25 ∧ m.next ≤ m.generated + 25
  mul : MulHolds m.diag m.past m.loaded A B u.pipeline.pMUL
  load : LoadHolds m.diag m.loaded m.generated A B u.pipeline.pLOAD
  gen : GenHolds m.diag m.generated m.next u.pipeline.pGEN

theorem readAt_getD {n i : Nat} (v : Vector Word n) (h : i < n) :
    readAt v (i : Int) = .ok (v[i]?.getD 0) := by
  rw [readAt_ofNat v h, Vector.getElem?_eq_getElem h]
  rfl

theorem readAt_set_self {α : Type} {n i : Nat} (v : Vector α n) (x : α) (h : i < n) :
    readAt (v.setIfInBounds i x) (i : Int) = .ok x := by
  rw [readAt_ofNat _ h]
  simp

theorem readAt_set_ne {α : Type} {n i j : Nat} (v : Vector α n) (x : α) (h : i ≠ j) :
    readAt (v.setIfInBounds i x) (j : Int) = readAt v (j : Int) := by
  have hget : (v.setIfInBounds i x)[j]? = v[j]? := Vector.getElem?_setIfInBounds_ne h
  show readAt _ (.ofNat j) = readAt _ (.ofNat j)
  simp only [readAt, hget]

section

variable {n s lo hi : Nat} {A B : Vector Word 64} {u : BigmulUnit}

theorem genHolds_empty (h : lo = hi) : GenHolds s lo hi makeEmptyGen := by
  subst h
  refine ⟨by simp [makeEmptyGen], by simp [makeEmptyGen], fun t ht => ?_⟩
  omega

theorem loadHolds_empty (h : lo = hi) : LoadHolds s lo hi A B makeEmptyLoad := by
  subst h
  refine ⟨by simp [makeEmptyLoad], by simp [makeEmptyLoad], fun t ht => ?_⟩
  omega

theorem mulHolds_empty (h : lo = hi) : MulHolds s lo hi A B makeEmptyMul := by
  subst h
  exact ⟨by simp [makeEmptyMul], by rw [partialDiagonal_self]; rfl⟩

/-- An empty register is empty on every diagonal. -/
theorem GenHolds.again {s' lo' : Nat} {g : GenBatch} (h : GenHolds s lo lo g) :
    GenHolds s' lo' lo' g := by
  refine ⟨?_, ?_, fun t ht => ?_⟩
  · simpa using h.count
  · simpa using h.valid
  · omega

theorem LoadHolds.again {s' lo' : Nat} {l : LoadBatch} (h : LoadHolds s lo lo A B l) :
    LoadHolds s' lo' lo' A B l := by
  refine ⟨?_, ?_, fun t ht => ?_⟩
  · simpa using h.count
  · simpa using h.valid
  · omega

theorem MulHolds.again {s' lo' : Nat} {b : MulBatch} (h : MulHolds s lo lo A B b) :
    MulHolds s' lo' lo' A B b := by
  refine ⟨?_, ?_⟩
  · simpa using h.valid
  · rw [h.sum, partialDiagonal_self, partialDiagonal_self]

/-- The generating loop, `p` pairs of whose batch are there. -/
theorem genLoop_eq {stop p left : Nat} {g : GenBatch} (hs : u.sDiag = s)
    (hmax : u.iMax = (stop : Int) - 1) (hstop : stop ≤ s + 1) (hp : p + left = 25)
    (hle : lo + p ≤ stop)
    (hg : ∀ t < p, readAt g.i (t : Nat) = .ok ((lo + t : Nat) : Int) ∧
      readAt g.j (t : Nat) = .ok ((s - (lo + t) : Nat) : Int)) :
    ∃ g', u.genLoop left p (lo + p : Nat) g = (((min stop (lo + 25) : Nat) : Int), g') ∧
      GenHolds s lo (min stop (lo + 25)) g' := by
  induction left generalizing p g with
  | zero =>
    have hend : min stop (lo + 25) = lo + p := by omega
    rw [hend]
    refine ⟨_, rfl, ?_, ?_, ?_⟩
    · change (p : Int) = _
      omega
    · exact decide_eq_decide.mpr (by omega)
    · intro t ht
      exact hg t (by omega)
  | succ left ih =>
    simp only [BigmulUnit.genLoop, hs, hmax]
    by_cases hlt : lo + p < stop
    · rw [if_pos (by omega)]
      refine ih (p := p + 1) (by omega) (by omega) ?_
      intro t ht
      have hp25 : p < 25 := by omega
      rcases Nat.lt_succ_iff_lt_or_eq.mp ht with hlt' | rfl
      · rw [readAt_set_ne _ _ (by omega), readAt_set_ne _ _ (by omega)]
        exact hg t hlt'
      · rw [readAt_set_self _ _ hp25, readAt_set_self _ _ hp25]
        refine ⟨rfl, congrArg Except.ok ?_⟩
        omega
    · rw [if_neg (by omega)]
      have hend : min stop (lo + 25) = lo + p := by omega
      rw [hend]
      refine ⟨_, rfl, ?_, ?_, ?_⟩
      · change (p : Int) = _
        omega
      · exact decide_eq_decide.mpr (by omega)
      · intro t ht
        exact hg t (by omega)

/-- The loading loop after `p` pairs. -/
theorem loadLoop_eq {g : GenBatch} (h : GenHolds s lo hi g) (hlen : hi ≤ lo + 25)
    (hin : ∀ k, lo ≤ k → k < hi → k < 64 ∧ s - k < 64) {p : Nat} (hp : p ≤ hi - lo) :
    ∃ l, u.loadLoop g p makeEmptyLoad = .ok l ∧
      ∀ t < p, readAt l.ai (t : Nat) = .ok (u.cacheA[lo + t]?.getD 0) ∧
        readAt l.bj (t : Nat) = .ok (u.cacheB[s - (lo + t)]?.getD 0) := by
  induction p with
  | zero => exact ⟨makeEmptyLoad, rfl, nofun⟩
  | succ p ih =>
    obtain ⟨l, hl, hwords⟩ := ih (by omega)
    obtain ⟨hi', hj'⟩ := h.pairs p (by omega)
    obtain ⟨hA, hB⟩ := hin (lo + p) (by omega) (by omega)
    have hp25 : p < 25 := by omega
    refine ⟨{ l with
      ai := l.ai.setIfInBounds p (u.cacheA[lo + p]?.getD 0)
      bj := l.bj.setIfInBounds p (u.cacheB[s - (lo + p)]?.getD 0) }, ?_, ?_⟩
    · simp only [BigmulUnit.loadLoop, hl, hi', hj', readAt_getD _ hA, readAt_getD _ hB, Loop.bind_ok]
      rfl
    · intro t ht
      rcases Nat.lt_succ_iff_lt_or_eq.mp ht with hlt | rfl
      · rw [readAt_set_ne _ _ (by omega), readAt_set_ne _ _ (by omega)]
        exact hwords t hlt
      · rw [readAt_set_self _ _ hp25, readAt_set_self _ _ hp25]
        exact ⟨rfl, rfl⟩

/-- The multiplying loop after `p` products. -/
theorem mulLoop_eq {l : LoadBatch} (h : LoadHolds s lo hi A B l) (hlen : hi ≤ lo + 25) {p : Nat}
    (hp : p ≤ hi - lo) :
    ∃ b, BigmulUnit.mulLoop l p = .ok b ∧
      b.toNat = partialDiagonal (limb A) (limb B) s lo (lo + p) := by
  induction p with
  | zero => exact ⟨.clear, rfl, by rw [Nat.add_zero, partialDiagonal_self]; rfl⟩
  | succ p ih =>
    obtain ⟨b, hb, hsum⟩ := ih (by omega)
    obtain ⟨hA, hB⟩ := h.words p (by omega)
    refine ⟨b.addProduct (A[lo + p]?.getD 0) (B[s - (lo + p)]?.getD 0), ?_, ?_⟩
    · simp only [BigmulUnit.mulLoop, hb, hA, hB, Loop.bind_ok]
      rfl
    · have hterm := limb_mul_le A B (lo + p) (s - (lo + p))
      have hprev := products_le A B s lo (lo + p)
      have hcount : (lo + p - lo) * productBound ≤ 24 * productBound := by
        apply Nat.mul_le_mul_right
        omega
      have hpb : productBound = 340282366920938463426481119284349108225 := rfl
      rw [Acc.addProduct_toNat, hsum, ← Nat.add_assoc, partialDiagonal_succ (by omega)]
      change (_ + limb A (lo + p) * limb B (s - (lo + p))) % 2 ^ 192 = _
      apply Nat.mod_eq_of_lt
      omega

theorem nextLoad_eq {g : GenBatch} (h : GenHolds s lo hi g) (hlen : hi ≤ lo + 25)
    (hin : ∀ k, lo ≤ k → k < hi → k < 64 ∧ s - k < 64) :
    ∃ l, u.nextLoad g = .ok l ∧ LoadHolds s lo hi u.cacheA u.cacheB l := by
  by_cases hlt : lo < hi
  · obtain ⟨l, hl, hwords⟩ := loadLoop_eq (u := u) h hlen hin (p := hi - lo) le_rfl
    refine ⟨{ l with count := g.count, valid := true }, ?_, h.count, ?_, hwords⟩
    · have hpos : g.valid = true ∧ g.count > 0 := by
        rw [h.valid, h.count]
        exact ⟨decide_eq_true hlt, by omega⟩
      rw [BigmulUnit.nextLoad, if_pos hpos, h.count, Int.toNat_natCast, hl, Loop.bind_ok]
      rfl
    · rw [decide_eq_true hlt]
  · have hinvalid : ¬ (g.valid = true ∧ g.count > 0) := by
      rw [h.count]
      omega
    refine ⟨makeEmptyLoad, by rw [BigmulUnit.nextLoad, if_neg hinvalid]; rfl, ?_, ?_, ?_⟩
    · change (0 : Int) = _
      omega
    · exact (decide_eq_false hlt).symm
    · intro t ht
      omega

theorem nextMul_eq {l : LoadBatch} (h : LoadHolds s lo hi A B l) (hlen : hi ≤ lo + 25)
    (hle : lo ≤ hi) :
    ∃ b, BigmulUnit.nextMul l = .ok b ∧ MulHolds s lo hi A B b := by
  by_cases hlt : lo < hi
  · obtain ⟨b, hb, hsum⟩ := mulLoop_eq h hlen (p := hi - lo) le_rfl
    rw [Nat.add_sub_cancel' hle] at hsum
    refine ⟨⟨b.a0, b.a1, b.a2, true⟩, ?_, (decide_eq_true hlt).symm, hsum⟩
    have hpos : l.valid = true ∧ l.count > 0 := by
      rw [h.valid, h.count]
      exact ⟨decide_eq_true hlt, by omega⟩
    rw [BigmulUnit.nextMul, if_pos hpos, h.count, Int.toNat_natCast, hb, Loop.bind_ok]
    rfl
  · have hinvalid : ¬ (l.valid = true ∧ l.count > 0) := by
      rw [h.count]
      omega
    refine ⟨makeEmptyMul, by rw [BigmulUnit.nextMul, if_neg hinvalid]; rfl, ?_⟩
    exact mulHolds_empty (by omega)

/-- The generating stage at index `lo` of a diagonal. -/
theorem generate_eq {stop : Nat} (hs : u.sDiag = s) (hmax : u.iMax = (stop : Int) - 1)
    (hstop : stop ≤ s + 1) (hk : u.kIter = lo) (hle : lo ≤ stop)
    (hgen : u.genDoneThisDiag = decide (lo = stop)) :
    ∃ g, GenHolds s lo (min stop (lo + 25)) g ∧
      u.generate = { u with
        kIter := ((min stop (lo + 25) : Nat) : Int)
        genDoneThisDiag := decide (min stop (lo + 25) = stop)
        pipeline := { u.pipeline with pGEN := g } } := by
  by_cases hend : lo = stop
  · rw [decide_eq_true hend] at hgen
    have hmin : min stop (lo + 25) = lo := by omega
    refine ⟨makeEmptyGen, genHolds_empty hmin.symm, ?_⟩
    rw [BigmulUnit.generate, if_pos hgen, hmin, ← hk, decide_eq_true hend, ← hgen]
  · rw [decide_eq_false hend] at hgen
    obtain ⟨g, hloop, hg⟩ := genLoop_eq (g := makeEmptyGen) hs hmax hstop (Nat.zero_add 25)
      (by omega) (fun t ht => absurd ht (Nat.not_lt_zero t))
    rw [Nat.add_zero] at hloop
    have hdone : decide (((min stop (lo + 25) : Nat) : Int) > u.iMax) =
        decide (min stop (lo + 25) = stop) := decide_eq_decide.mpr (by omega)
    refine ⟨g, hg, ?_⟩
    rw [BigmulUnit.generate, hgen, if_neg (by simp), hk, BigmulUnit.batchSize, hloop]
    simp only [hdone]

end

section

variable {n : Nat} {m : Marks} {A B : Vector Word 64} {u : BigmulUnit}

theorem first_staged {s d k : Nat} (h : OnDiagonal n s A B u)
    (hk : u.kIter = (diagonalStart n s : Nat)) (hgen : u.genDoneThisDiag = false)
    (hMUL : MulHolds d k k A B u.pipeline.pMUL) (hLOAD : LoadHolds d k k A B u.pipeline.pLOAD)
    (hGEN : GenHolds d k k u.pipeline.pGEN) :
    Staged n (.first n s) A B u := by
  have hlt := diagonalStart_lt_stop h.le_last
  refine ⟨h, hk, ?_, le_rfl, le_rfl, le_rfl, le_rfl, Nat.le_of_lt hlt, ?_, hMUL.again, hLOAD.again,
    hGEN.again⟩
  · rw [hgen]
    exact (decide_eq_false (Nat.ne_of_lt hlt)).symm
  · simp only [Marks.first]
    omega

theorem Staged.index_lt (h : Staged n m A B u) (hn : n ≤ 64) {k : Nat}
    (hk : m.generated ≤ k) (hnext : k < m.next) : k < 64 ∧ m.diag - k < 64 := by
  have hstart := h.start_le
  have hpast := h.past_le
  have hloaded := h.loaded_le
  have hstop := h.next_le
  exact (h.toOnDiagonal.index_lt hn (by omega) (by omega)).2

/-- What the loading and the multiplying stage make of their registers. -/
theorem Staged.stages (h : Staged n m A B u) (hn : n ≤ 64) :
    ∃ pMUL pLOAD, BigmulUnit.nextMul u.pipeline.pLOAD = .ok pMUL ∧
      u.nextLoad u.pipeline.pGEN = .ok pLOAD ∧
      MulHolds m.diag m.loaded m.generated A B pMUL ∧
      LoadHolds m.diag m.generated m.next A B pLOAD := by
  obtain ⟨hmul, hload, hgen⟩ := h.batch
  obtain ⟨pMUL, hpMUL, hMUL⟩ := nextMul_eq h.load hload h.loaded_le
  obtain ⟨pLOAD, hpLOAD, hLOAD⟩ := nextLoad_eq (u := u) h.gen hgen fun k => h.index_lt hn
  rw [h.cacheA, h.cacheB] at hLOAD
  exact ⟨pMUL, pLOAD, hpMUL, hpLOAD, hMUL, hLOAD⟩

/-- What the generating stage does to a unit. -/
theorem OnDiagonal.generate_eq (h : OnDiagonal n m.diag A B u) (hk : u.kIter = m.next)
    (hgen : u.genDoneThisDiag = decide (m.next = diagonalStop n m.diag))
    (hnext : m.next ≤ diagonalStop n m.diag) :
    ∃ pGEN, GenHolds m.diag m.next (m.advance n).next pGEN ∧
      u.generate = { u with
        kIter := (((m.advance n).next : Nat) : Int)
        genDoneThisDiag := decide ((m.advance n).next = diagonalStop n m.diag)
        pipeline := { u.pipeline with pGEN := pGEN } } := by
  have hstop : diagonalStop n m.diag ≤ m.diag + 1 := by
    simp only [diagonalStop]
    omega
  exact RiscvSim.generate_eq h.sDiag h.iMax hstop hk hnext hgen

/-- The registers after a call. -/
theorem Staged.advance (h : Staged n m A B u) {v : BigmulUnit} (hv : OnDiagonal n m.diag A B v)
    (hk : v.kIter = (m.advance n).next)
    (hgen : v.genDoneThisDiag = decide ((m.advance n).next = diagonalStop n m.diag))
    (hMUL : MulHolds m.diag m.loaded m.generated A B v.pipeline.pMUL)
    (hLOAD : LoadHolds m.diag m.generated m.next A B v.pipeline.pLOAD)
    (hGEN : GenHolds m.diag m.next (m.advance n).next v.pipeline.pGEN) :
    Staged n (m.advance n) A B v := by
  have hstart := h.start_le
  have hpast := h.past_le
  have hnext := h.next_le
  obtain ⟨hmul, hload, hgen'⟩ := h.batch
  refine ⟨hv, hk, hgen, ?_, h.loaded_le, h.generated_le, ?_, ?_, ⟨hload, hgen', ?_⟩, hMUL, hLOAD,
    hGEN⟩
  all_goals simp only [Marks.advance]
  all_goals omega

/-- The tests for empty registers. -/
theorem Staged.empty_iff (h : Staged n m A B u) :
    (!u.pipeline.pGEN.valid && !u.pipeline.pLOAD.valid && !u.pipeline.pMUL.valid) =
      decide (m.past = m.next) := by
  have hpast := h.past_le
  have hloaded := h.loaded_le
  have hgenerated := h.generated_le
  rw [h.gen.valid, h.load.valid, h.mul.valid, Bool.eq_iff_iff]
  simp only [Bool.and_eq_true, Bool.not_eq_true', decide_eq_false_iff_not, decide_eq_true_eq]
  omega

/-- A call takes a batch out of every register it fills, unless all is empty. -/
theorem Staged.cost_lt (h : Staged n m A B u) (hbusy : m.past < diagonalStop n m.diag) :
    (m.advance n).cost n < m.cost n := by
  have hpast := h.past_le
  have hloaded := h.loaded_le
  have hgenerated := h.generated_le
  have hnext := h.next_le
  have hnext' : (m.advance n).next = min (diagonalStop n m.diag) (m.next + 25) := rfl
  have hcost : (m.advance n).cost n = 4 * (diagonalStop n m.diag - (m.advance n).next) +
      (if m.next < (m.advance n).next then 3 else 0) + (if m.generated < m.next then 2 else 0) +
        if m.loaded < m.generated then 1 else 0 := rfl
  rw [hcost, Marks.cost]
  split_ifs <;> omega

/-- A unit between two calls of `staged3pipeline`, all products behind the multiplier in the
accumulator. -/
structure ThreeState (n : Nat) (m : Marks) (A B : Vector Word 64) (u : BigmulUnit) : Prop
    extends Staged n m A B u where
  busy : m.past < diagonalStop n m.diag
  taken : Taken n m.diag m.past (limb A) (limb B) u.resultCache u.acc

def threePotential (n : Nat) (m : Marks) : Nat := (2 * n - 2 - m.diag) * 1000 + m.cost n

/-- The batch behind the multiplier reaches the accumulator. -/
theorem ThreeState.retire (h : ThreeState n m A B u) (hn : n ≤ 64) :
    ∃ acc, (if u.pipeline.pMUL.valid then u.retire u.pipeline.pMUL else u) =
        { u with acc := acc } ∧
      Taken n m.diag m.loaded (limb A) (limb B) u.resultCache acc := by
  have hloaded : m.loaded ≤ diagonalStop n m.diag :=
    h.loaded_le.trans (h.generated_le.trans h.next_le)
  have hall := h.taken.collected.batch h.start_le h.past_le (limb_le A) (limb_le B)
  rw [← h.mul.sum] at hall
  by_cases hlt : m.past < m.loaded
  · have hvalid : u.pipeline.pMUL.valid = true := by rw [h.mul.valid, decide_eq_true hlt]
    rw [if_pos hvalid]
    have hacc := hall.retire u.acc
      (x := ⟨u.pipeline.pMUL.lo, u.pipeline.pMUL.hi, u.pipeline.pMUL.hi2⟩) hn hloaded
      (by rw [Nat.add_zero])
    exact ⟨u.acc.addU192 u.pipeline.pMUL.lo u.pipeline.pMUL.hi u.pipeline.pMUL.hi2, rfl,
      hall.taken hacc⟩
  · have hvalid : ¬ u.pipeline.pMUL.valid = true := by rw [h.mul.valid, decide_eq_false hlt]; simp
    rw [if_neg hvalid]
    refine ⟨u.acc, rfl, ?_⟩
    rw [show m.loaded = m.past from Nat.le_antisymm (Nat.le_of_not_lt hlt) h.past_le]
    exact h.taken

/-- A call moves the batches on by one register, and ends the diagonal behind the last one. -/
theorem ThreeState.step (h : ThreeState 64 m A B u) :
    ∃ v, u.staged3pipeline = .ok v ∧
      (ThreeState 64 (m.move 64) A B v ∧ threePotential 64 (m.move 64) < threePotential 64 m ∨
        Multiplied 64 A B v) := by
  obtain ⟨acc, hretire, htaken⟩ := h.retire le_rfl
  have hon : OnDiagonal 64 m.diag A B { u with acc := acc } :=
    ⟨h.size, h.notDone, h.started, h.writeDone, h.sDiag, h.iMax, h.le_last, h.cacheA, h.cacheB⟩
  have hstaged : Staged 64 m A B { u with acc := acc } :=
    ⟨hon, h.kIter, h.genDone, h.start_le, h.past_le, h.loaded_le, h.generated_le, h.next_le,
      h.batch, h.mul, h.load, h.gen⟩
  obtain ⟨pMUL, pLOAD, hpMUL, hpLOAD, hMUL, hLOAD⟩ := hstaged.stages le_rfl
  obtain ⟨pGEN, hGEN, hgenerate⟩ := hon.generate_eq h.kIter h.genDone h.next_le
  let v : BigmulUnit := { u with
    acc := acc
    kIter := (((m.advance 64).next : Nat) : Int)
    genDoneThisDiag := decide ((m.advance 64).next = diagonalStop 64 m.diag)
    pipeline := { u.pipeline with pGEN := pGEN, pMUL := pMUL, pLOAD := pLOAD } }
  have hvon : OnDiagonal 64 m.diag A B v :=
    ⟨h.size, h.notDone, h.started, h.writeDone, h.sDiag, h.iMax, h.le_last, h.cacheA, h.cacheB⟩
  have hv : Staged 64 (m.advance 64) A B v := hstaged.advance hvon rfl rfl hMUL hLOAD hGEN
  have hcost := h.toStaged.cost_lt h.busy
  have hcall : u.staged3pipeline =
      if m.loaded = diagonalStop 64 m.diag then
        v.emitDiagonal 126 63 fun u => { u with genDoneThisDiag := false }
      else .ok v := by
    have hnd : ¬ (u.bigmulDone = true) := by simp [h.notDone]
    have hempty := hv.empty_iff
    have hend : (v.genDoneThisDiag && decide ((m.advance 64).past = (m.advance 64).next)) =
        decide (m.loaded = diagonalStop 64 m.diag) := by
      have hbounds : m.loaded ≤ (m.advance 64).next :=
        hv.past_le.trans (hv.loaded_le.trans hv.generated_le)
      have hnext : (m.advance 64).next ≤ diagonalStop 64 m.diag := hv.next_le
      have hpast : (m.advance 64).past = m.loaded := rfl
      rw [← Bool.decide_and, hpast]
      exact decide_eq_decide.mpr (by omega)
    simp only [BigmulUnit.staged3pipeline, if_neg hnd, h.started_eq, hretire, hpMUL, Loop.bind_ok,
      hpLOAD, hgenerate]
    change (if v.genDoneThisDiag && _ then v.emitDiagonal 126 63 _ else pure v) = _
    rw [hempty, hend]
    simp only [decide_eq_true_eq]
    rfl
  by_cases hend : m.loaded = diagonalStop 64 m.diag
  · rw [if_pos hend] at hcall
    have hmove : m.move 64 = .first 64 (m.diag + 1) := if_pos hend
    -- the last batch has just been added, so all three registers are empty
    have hgenerated : m.generated = m.loaded := by
      have hle := h.loaded_le
      have hstop := h.generated_le.trans h.next_le
      omega
    have hnext : m.next = m.loaded := by
      have hle := h.generated_le
      have hstop := h.next_le
      omega
    have hadvanced : (m.advance 64).next = m.loaded := by
      simp only [Marks.advance]
      omega
    rw [hend] at htaken
    rcases hvon.emit (fun u => { u with genDoneThisDiag := false }) le_rfl htaken rfl rfl with
      ⟨w, hw, hlt, hwon, hwk, hwtaken, -, hwpipe⟩ | ⟨w, hw, hproduct⟩
    · have hstart := diagonalStart_lt_stop hwon.le_last
      rw [hgenerated] at hMUL
      rw [hgenerated, hnext] at hLOAD
      rw [hadvanced, hnext] at hGEN
      have hnew : Staged 64 (.first 64 (m.diag + 1)) A B { w with genDoneThisDiag := false } := by
        refine first_staged (d := m.diag) (k := m.loaded) ⟨hwon.size, hwon.notDone, hwon.started,
          hwon.writeDone, hwon.sDiag, hwon.iMax, hwon.le_last, hwon.cacheA, hwon.cacheB⟩ hwk rfl
          ?_ ?_ ?_
        all_goals rw [hwpipe]
        · exact hMUL
        · exact hLOAD
        · exact hGEN
      refine ⟨_, hcall.trans hw, .inl ⟨?_, ?_⟩⟩
      · rw [hmove]
        exact ⟨hnew, hstart, hwtaken⟩
      · rw [hmove]
        have hfirst := Marks.first_cost (n := 64) (s := m.diag + 1) le_rfl
        simp only [threePotential, Marks.first] at hfirst ⊢
        omega
    · exact ⟨w, hcall.trans hw, .inr hproduct⟩
  · rw [if_neg hend] at hcall
    have hmove : m.move 64 = m.advance 64 := if_neg hend
    refine ⟨v, hcall, .inl ⟨?_, ?_⟩⟩
    · rw [hmove]
      have hle : m.loaded ≤ diagonalStop 64 m.diag :=
        h.loaded_le.trans (h.generated_le.trans h.next_le)
      exact ⟨hv, Nat.lt_of_le_of_ne hle hend, htaken⟩
    · rw [hmove]
      exact Nat.add_lt_add_left hcost _

end

theorem startBigmul_threeState {u : BigmulUnit} {n : Nat} (hn : u.sizeOfOperand.toNat = n) :
    ThreeState n (.first n 0) u.cacheA u.cacheB u.startBigmul := by
  have hpos : 0 < n := hn ▸ u.sizeOfOperand.pos
  have hon := startBigmul_onDiagonal hn hpos
  have hzero := diagonalStart_zero hpos
  refine ⟨first_staged (d := 0) (k := 0) hon (by rw [hzero]; rfl) rfl (mulHolds_empty rfl)
    (loadHolds_empty rfl) (genHolds_empty rfl), diagonalStart_lt_stop hon.le_last, ?_⟩
  have hcollected := startBigmul_collected hn hpos
  rw [show (Marks.first n 0).past = 0 from hzero]
  exact hcollected.taken rfl

/-- A running unit with its potential. -/
def ThreeRunning (A B : Vector Word 64) (p : Nat) (u : BigmulUnit) : Prop :=
  ∃ m, ThreeState 64 m A B u ∧ threePotential 64 m = p

/-- The pipeline of three stages leaves what `singlecycle` leaves. After `t` calls its registers
hold the batches between the marks that `t` moves lead to, so every pair of a diagonal passes the
three registers once, and is in the accumulator when the diagonal ends. -/
theorem staged3pipeline_agrees (u : BigmulUnit) (hn : u.sizeOfOperand.toNat = 64)
    (hdone : u.bigmulDone = false) (hprog : u.bigmulProg = 0) (hwrite : u.writeDone = true) :
    ∃ N v w, Loop.iter BigmulUnit.staged3pipeline N u = .ok v ∧ v.writeDone = false ∧
      (∀ t < N, ∃ x, Loop.iter BigmulUnit.staged3pipeline t u = .ok x ∧ x.writeDone = true ∧
        (0 < t → ThreeState 64 ((Marks.move 64)^[t] (.first 64 0)) u.cacheA u.cacheB x)) ∧
      Completes BigmulUnit.singlecycle u w ∧
      ∀ k < 128, v.resultCache[k]? = w.resultCache[k]? := by
  have hfirst : u.staged3pipeline = u.startBigmul.staged3pipeline := by
    have hnd : ¬ (u.bigmulDone = true) := by simp [hdone]
    simp only [BigmulUnit.staged3pipeline, BigmulUnit.started, if_neg hnd, if_pos hprog]
    rfl
  have hstart := startBigmul_threeState hn
  have hstep : ∀ p v, ThreeRunning u.cacheA u.cacheB p v → ∃ w, v.staged3pipeline = .ok w ∧
      ((∃ r < p, ThreeRunning u.cacheA u.cacheB r w) ∨ Multiplied 64 u.cacheA u.cacheB w) := by
    rintro p v ⟨m, h, rfl⟩
    obtain ⟨w, hw, ⟨h', hlt⟩ | hend⟩ := h.step
    · exact ⟨w, hw, .inl ⟨_, hlt, _, h', rfl⟩⟩
    · exact ⟨w, hw, .inr hend⟩
  obtain ⟨N, v, w, hv, hvw, hrun, hw, heq⟩ := engine_agrees (ThreeRunning u.cacheA u.cacheB) hn
    le_rfl hdone hprog hwrite hfirst ⟨_, _, hstart, rfl⟩ (fun p v ⟨m, h, _⟩ => h.writeDone) hstep
  refine ⟨N, v, w, hv, hvw, fun t ht => ?_, hw, heq⟩
  obtain ⟨x, hx, hxw, -⟩ := hrun t ht
  refine ⟨x, hx, hxw, fun hpos => ?_⟩
  rw [Loop.iter_congr_first hfirst hpos] at hx
  refine Loop.iter_track (fun m y => ThreeState 64 m u.cacheA u.cacheB y)
    (fun y => y.writeDone = false) (Marks.move 64) ?_ hstart hx ?_
  · intro m y z h hz hbusy
    obtain ⟨z', hz', ⟨h', -⟩ | hend⟩ := h.step
    · obtain rfl := Except.ok.inj (hz.symm.trans hz')
      exact h'
    · obtain rfl := Except.ok.inj (hz.symm.trans hz')
      exact absurd hend.1 hbusy
  · intro k hk y hy
    rcases Nat.eq_zero_or_pos k with rfl | hk'
    · obtain rfl := Except.ok.inj hy
      simp [BigmulUnit.startBigmul]
    · rw [← Loop.iter_congr_first hfirst hk'] at hy
      obtain ⟨y', hy', hyw, -⟩ := hrun k (by omega)
      obtain rfl := Except.ok.inj (hy.symm.trans hy')
      simp [hyw]

/-- The square of the greatest operand. -/
theorem staged3pipeline_agrees_greatest :
    let u := startedUnit .default (.replicate 64 (-1)) (.replicate 64 (-1))
    ∃ v w, Completes BigmulUnit.staged3pipeline u v ∧ Completes BigmulUnit.singlecycle u w ∧
      ∀ k < 128, v.resultCache[k]? = w.resultCache[k]? := by
  intro u
  obtain ⟨N, v, w, hv, hvw, hrun, hw, heq⟩ := staged3pipeline_agrees u rfl rfl rfl rfl
  refine ⟨v, w, ⟨N, hv, hvw, fun t ht => ?_⟩, hw, heq⟩
  obtain ⟨x, hx, hxw, -⟩ := hrun t ht
  exact ⟨x, hx, hxw⟩

end RiscvSim
