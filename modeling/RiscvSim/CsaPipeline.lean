import RiscvSim.EngineRuns

/-! `csa_only_pipeline` against `singlecycle`. At every call the accumulator and the four stages of
the delay line together hold the partial products of the diagonal up to the next index. -/

namespace RiscvSim

open Limbs Finset

/-- A unit between two calls, the products of diagonal `s` below index `k` taken. -/
structure CsaState (n s k : Nat) (A B : Vector Word 64) (u : BigmulUnit) : Prop
    extends OnDiagonal n s A B u where
  kIter : u.kIter = k
  start_le : diagonalStart n s ≤ k
  le_stop : k ≤ diagonalStop n s
  genDone : u.genDoneThisDiag = decide (k = diagonalStop n s)
  busy : k = diagonalStop n s → BigmulUnit.csaPipeEmpty u.pipeline = false
  collected : Collected n s k (limb A) (limb B) u.resultCache
    (u.acc.toNat + u.pipeline.inFlight)

def csaPotential (n s k : Nat) (p : Pipeline) : Nat :=
  (2 * n - 2 - s) * 1000 + 5 * (diagonalStop n s - k) + p.lineCost

section

variable {n s k : Nat} {A B : Vector Word 64} {u : BigmulUnit}

theorem csaShift_inFlight (hlt : u.acc.toNat + u.pipeline.inFlight < 2 ^ 192) :
    u.csaShift.acc.toNat + u.csaShift.pipeline.inFlight =
      u.acc.toNat + u.pipeline.inFlight := by
  have hretire := Acc.addU192_toNat u.acc u.pipeline.accum[3].a0 u.pipeline.accum[3].a1
    u.pipeline.accum[3].a2
  change _ = (u.acc.toNat + u.pipeline.accum[3].toNat) % 2 ^ 192 at hretire
  cases h0 : u.pipeline.accumValid[0] <;> cases h1 : u.pipeline.accumValid[1] <;>
    cases h2 : u.pipeline.accumValid[2] <;> cases h3 : u.pipeline.accumValid[3] <;>
    simp [BigmulUnit.csaShift, Pipeline.inFlight, Pipeline.stageSum, h0, h1, h2, h3] at hlt ⊢ <;>
    omega

theorem csaShift_lineCost :
    u.csaShift.pipeline.lineCost + (if BigmulUnit.csaPipeEmpty u.pipeline then 0 else 1) ≤
      u.pipeline.lineCost := by
  cases h0 : u.pipeline.accumValid[0] <;> cases h1 : u.pipeline.accumValid[1] <;>
    cases h2 : u.pipeline.accumValid[2] <;> cases h3 : u.pipeline.accumValid[3] <;>
    simp [BigmulUnit.csaShift, Pipeline.lineCost, Pipeline.stageCost, BigmulUnit.csaPipeEmpty, h0,
      h1, h2, h3]

theorem OnDiagonal.csaShift (h : OnDiagonal n s A B u) : OnDiagonal n s A B u.csaShift :=
  ⟨h.size, h.notDone, h.started, h.writeDone, h.sDiag, h.iMax, h.le_last, h.cacheA, h.cacheB⟩

theorem OnDiagonal.csaInsert (h : OnDiagonal n s A B u) (b : BigmulUnit.Batch) :
    OnDiagonal n s A B (u.csaInsert b) :=
  ⟨h.size, h.notDone, h.started, h.writeDone, h.sDiag, h.iMax, h.le_last, h.cacheA, h.cacheB⟩

/-- A batch sum enters the free stage 0. -/
theorem csaInsert_batch {b : BigmulUnit.Batch} (hb : 0 < b.processed)
    (hfree : u.pipeline.accumValid[0] = false) :
    (u.csaInsert b).pipeline.inFlight = b.sum.toNat + u.pipeline.inFlight ∧
      (u.csaInsert b).pipeline.lineCost = 4 + u.pipeline.lineCost ∧
      BigmulUnit.csaPipeEmpty (u.csaInsert b).pipeline = false := by
  simp [BigmulUnit.csaInsert, hb, hfree, Pipeline.inFlight, Pipeline.stageSum, Pipeline.lineCost,
    Pipeline.stageCost, BigmulUnit.csaPipeEmpty]

theorem csaInsert_none {b : BigmulUnit.Batch} (hb : b.processed = 0) :
    (u.csaInsert b).pipeline = u.pipeline := by
  simp [BigmulUnit.csaInsert, hb]

/-- An empty delay line carries nothing. -/
theorem inFlight_of_empty {p : Pipeline} (h : BigmulUnit.csaPipeEmpty p = true) :
    p.inFlight = 0 := by
  simp [BigmulUnit.csaPipeEmpty] at h
  simp [Pipeline.inFlight, Pipeline.stageSum, h]

theorem csaNext_empty :
    u.csaNext.pipeline.inFlight = 0 ∧ u.csaNext.pipeline.lineCost = 0 := by
  simp [BigmulUnit.csaNext, Pipeline.inFlight, Pipeline.stageSum, Pipeline.lineCost,
    Pipeline.stageCost]

/-- One call up to its end-of-diagonal test. -/
theorem CsaState.csaOnlyPipeline_eq (h : CsaState n s k A B u) (hn : n ≤ 64) :
    ∃ b : BigmulUnit.Batch, b.processed = min 25 (diagonalStop n s - k) ∧
      b.kIter = (k + b.processed : Nat) ∧
      b.sum.toNat = partialDiagonal (limb A) (limb B) s k (k + b.processed) ∧
      u.csaOnlyPipeline =
        if (u.csaShift.csaInsert b).genDoneThisDiag &&
            BigmulUnit.csaPipeEmpty (u.csaShift.csaInsert b).pipeline then
          (u.csaShift.csaInsert b).emitDiagonal (n * 2 - 2) (n - 1) BigmulUnit.csaNext
        else .ok (u.csaShift.csaInsert b) := by
  obtain ⟨sum, hloop, hsum⟩ := h.toOnDiagonal.csaShift.batchLoop hn h.start_le h.le_stop
  refine ⟨⟨min 25 (diagonalStop n s - k), (k + min 25 (diagonalStop n s - k) : Nat), sum⟩, rfl, rfl,
    hsum, ?_⟩
  have hnd : ¬ (u.bigmulDone = true) := by simp [h.notDone]
  have hk : u.csaShift.kIter = k := h.kIter
  have hsize : (u.csaShift.csaInsert ⟨min 25 (diagonalStop n s - k),
      (k + min 25 (diagonalStop n s - k) : Nat), sum⟩).sizeOfOperand.toNat = n := h.size
  simp only [BigmulUnit.csaOnlyPipeline, if_neg hnd, h.started_eq, hk, hloop, Loop.bind_ok, hsize]
  rfl

/-- A call takes the next batch, or moves the line on, or ends the diagonal. -/
theorem CsaState.step (h : CsaState n s k A B u) (hn : n ≤ 64) :
    ∃ v, u.csaOnlyPipeline = .ok v ∧
      ((∃ s' k', CsaState n s' k' A B v ∧
          csaPotential n s' k' v.pipeline < csaPotential n s k u.pipeline) ∨
        Multiplied n A B v) := by
  obtain ⟨b, hcount, hkIter, hsum, hcall⟩ := h.csaOnlyPipeline_eq hn
  have hon := h.toOnDiagonal.csaShift.csaInsert b
  have hshift := csaShift_inFlight (h.collected.lt hn h.le_stop)
  have hcost := csaShift_lineCost (u := u)
  have hbatch := h.collected.batch h.start_le (Nat.le_add_right k b.processed) (limb_le A)
    (limb_le B)
  have hiMax : u.csaShift.iMax = (diagonalStop n s : Int) - 1 := h.iMax
  rcases Nat.lt_or_ge k (diagonalStop n s) with hlt | hge
  · -- the batch keeps the line busy
    have hpos : 0 < b.processed := by omega
    obtain ⟨hflight, hline, hbusy⟩ := csaInsert_batch (u := u.csaShift) hpos
      (by simp [BigmulUnit.csaShift])
    rw [hbusy, Bool.and_false] at hcall
    refine ⟨_, hcall, .inl ⟨s, k + b.processed, ⟨hon, hkIter, ?_, by omega, ?_, fun _ => hbusy, ?_⟩,
      ?_⟩⟩
    · exact h.start_le.trans (Nat.le_add_right k _)
    · have hgen : u.csaShift.genDoneThisDiag = false := by
        simp [BigmulUnit.csaShift, h.genDone, Nat.ne_of_lt hlt]
      simp only [BigmulUnit.csaInsert, hgen, Bool.false_or, hkIter, hiMax]
      exact decide_eq_decide.mpr (by omega)
    · have htotal : (u.csaShift.csaInsert b).acc.toNat +
          (u.csaShift.csaInsert b).pipeline.inFlight = u.acc.toNat + u.pipeline.inFlight +
            partialDiagonal (limb A) (limb B) s k (k + b.processed) := by
        rw [hflight, ← hsum, ← hshift]
        change u.csaShift.acc.toNat + _ = _
        omega
      rw [htotal]
      exact hbatch
    · simp only [csaPotential, hline]
      omega
  · -- nothing is left to take
    obtain rfl : k = diagonalStop n s := Nat.le_antisymm h.le_stop hge
    have hzero : b.processed = 0 := by omega
    have hpipe := csaInsert_none (u := u.csaShift) hzero
    have hgen : (u.csaShift.csaInsert b).genDoneThisDiag = true := by
      simp [BigmulUnit.csaInsert, BigmulUnit.csaShift, h.genDone]
    rw [h.busy rfl] at hcost
    simp only [hgen, Bool.true_and, hpipe] at hcall
    cases hempty : BigmulUnit.csaPipeEmpty u.csaShift.pipeline with
    | false =>
      rw [hempty] at hcall
      refine ⟨_, hcall, .inl ⟨s, diagonalStop n s, ⟨hon, ?_, h.start_le, le_rfl, ?_, ?_, ?_⟩, ?_⟩⟩
      · rw [hzero, Nat.add_zero] at hkIter
        exact hkIter
      · rw [hgen, decide_eq_true rfl]
      · intro _
        rw [hpipe, hempty]
      · rw [hpipe]
        change Collected n s _ _ _ _ (u.csaShift.acc.toNat + _)
        rw [hshift]
        exact h.collected
      · rw [hpipe]
        simp only [csaPotential, Bool.false_eq_true, if_false] at hcost ⊢
        omega
    | true =>
      rw [hempty, if_pos rfl] at hcall
      have htotal := inFlight_of_empty hempty
      rw [htotal, Nat.add_zero] at hshift
      have htaken : Taken n s (diagonalStop n s) (limb A) (limb B)
          (u.csaShift.csaInsert b).resultCache (u.csaShift.csaInsert b).acc :=
        h.collected.taken hshift
      rcases hon.emit BigmulUnit.csaNext hn htaken rfl rfl with
        ⟨v, hv, hnext, hvon, hvk, hvtaken, -, -⟩ | ⟨v, hv, hproduct⟩
      · have hstart := diagonalStart_lt_stop hvon.le_last
        obtain ⟨hflight, hline⟩ := csaNext_empty (u := v)
        refine ⟨_, hcall.trans hv, .inl ⟨s + 1, diagonalStart n (s + 1), ⟨?_, hvk, le_rfl, by omega,
          ?_, by omega, ?_⟩, ?_⟩⟩
        · exact ⟨hvon.size, hvon.notDone, hvon.started, hvon.writeDone, hvon.sDiag, hvon.iMax,
            hvon.le_last, hvon.cacheA, hvon.cacheB⟩
        · simp [BigmulUnit.csaNext, Nat.ne_of_lt hstart]
        · rw [hflight]
          exact hvtaken.collected
        · simp only [csaPotential, hline, Bool.false_eq_true, if_false] at hcost ⊢
          have hlen : diagonalStop n (s + 1) ≤ 64 := by simp only [diagonalStop]; omega
          omega
      · exact ⟨v, hcall.trans hv, .inr hproduct⟩

end

/-- A running unit with its potential. -/
def CsaRunning (n : Nat) (A B : Vector Word 64) (m : Nat) (u : BigmulUnit) : Prop :=
  ∃ s k, CsaState n s k A B u ∧ csaPotential n s k u.pipeline = m

theorem CsaRunning.step {n m : Nat} {A B : Vector Word 64} {u : BigmulUnit}
    (h : CsaRunning n A B m u) (hn : n ≤ 64) :
    ∃ v, u.csaOnlyPipeline = .ok v ∧ ((∃ r < m, CsaRunning n A B r v) ∨ Multiplied n A B v) := by
  obtain ⟨s, k, h, rfl⟩ := h
  obtain ⟨v, hv, ⟨s', k', h', hlt⟩ | hend⟩ := h.step hn
  · exact ⟨v, hv, .inl ⟨_, hlt, s', k', h', rfl⟩⟩
  · exact ⟨v, hv, .inr hend⟩

theorem startBigmul_csaState {u : BigmulUnit} {n : Nat} (hn : u.sizeOfOperand.toNat = n) :
    CsaState n 0 0 u.cacheA u.cacheB u.startBigmul := by
  have hpos : 0 < n := hn ▸ u.sizeOfOperand.pos
  have hon := startBigmul_onDiagonal hn hpos
  have hstop : 0 < diagonalStop n 0 := by
    have hlt := diagonalStart_lt_stop hon.le_last
    omega
  refine ⟨hon, rfl, ?_, by omega, ?_, by omega, startBigmul_collected hn hpos⟩
  · rw [diagonalStart_zero hpos]
  · simp [BigmulUnit.startBigmul, Nat.ne_of_lt hstop]

/-- The result words, the accumulator and the delay line of a unit hold the partial products it
has taken, each once and on its own diagonal. -/
def CsaExact (n : Nat) (u : BigmulUnit) : Prop :=
  ∃ s k : Nat, u.sDiag = s ∧ u.kIter = k ∧
    limbValue (2 ^ 64) (limb u.resultCache) s +
        (u.acc.toNat + u.pipeline.inFlight) * (2 ^ 64) ^ s =
      limbValue (2 ^ 64) (diagonal (limb u.cacheA) (limb u.cacheB) n) s +
        partialDiagonal (limb u.cacheA) (limb u.cacheB) s (diagonalStart n s) k * (2 ^ 64) ^ s

theorem CsaState.exact {n s k : Nat} {A B : Vector Word 64} {u : BigmulUnit}
    (h : CsaState n s k A B u) : CsaExact n u := by
  refine ⟨s, k, h.sDiag, h.kIter, ?_⟩
  rw [h.cacheA, h.cacheB]
  exact h.collected.exact

/-- The delay line behind the batch adder changes nothing in the result: it loses no batch sum and
adds none twice or to another diagonal. -/
theorem csaOnlyPipeline_agrees (u : BigmulUnit) (n : Nat) (hn : u.sizeOfOperand.toNat = n)
    (h64 : n ≤ 64) (hdone : u.bigmulDone = false) (hprog : u.bigmulProg = 0)
    (hwrite : u.writeDone = true) :
    ∃ N v w, Loop.iter BigmulUnit.csaOnlyPipeline N u = .ok v ∧ v.writeDone = false ∧
      (∀ t < N, ∃ x, Loop.iter BigmulUnit.csaOnlyPipeline t u = .ok x ∧ x.writeDone = true ∧
        (0 < t → CsaExact n x)) ∧
      Completes BigmulUnit.singlecycle u w ∧
      ∀ k < 2 * n, v.resultCache[k]? = w.resultCache[k]? := by
  have hfirst : u.csaOnlyPipeline = u.startBigmul.csaOnlyPipeline := by
    have hnd : ¬ (u.bigmulDone = true) := by simp [hdone]
    simp only [BigmulUnit.csaOnlyPipeline, BigmulUnit.started, if_neg hnd, if_pos hprog]
    rfl
  obtain ⟨N, v, w, hv, hvw, hrun, hw, heq⟩ := engine_agrees (CsaRunning n u.cacheA u.cacheB) hn h64
    hdone hprog hwrite hfirst ⟨_, 0, 0, startBigmul_csaState hn, rfl⟩
    (fun m v ⟨s, k, h, _⟩ => h.writeDone) (fun m v h => h.step h64)
  refine ⟨N, v, w, hv, hvw, fun t ht => ?_, hw, heq⟩
  obtain ⟨x, hx, hxw, hinv⟩ := hrun t ht
  refine ⟨x, hx, hxw, fun hpos => ?_⟩
  obtain ⟨m, s, k, h, -⟩ := hinv hpos
  exact h.exact

/-- The square of the greatest three-word number. -/
theorem csaOnlyPipeline_agrees_three :
    let u := startedUnit ⟨3, by decide, by decide⟩ (.replicate 64 (-1)) (.replicate 64 (-1))
    ∃ v w, Completes BigmulUnit.csaOnlyPipeline u v ∧ Completes BigmulUnit.singlecycle u w ∧
      ∀ k < 6, v.resultCache[k]? = w.resultCache[k]? := by
  intro u
  obtain ⟨N, v, w, hv, hvw, hrun, hw, heq⟩ :=
    csaOnlyPipeline_agrees u 3 rfl (by decide) rfl rfl rfl
  refine ⟨v, w, ⟨N, hv, hvw, fun t ht => ?_⟩, hw, heq⟩
  obtain ⟨x, hx, hxw, -⟩ := hrun t ht
  exact ⟨x, hx, hxw⟩

end RiscvSim
