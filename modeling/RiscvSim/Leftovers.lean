import RiscvSim.Stages

/-! What a reset leaves behind: the operand size of the unit and the pending input. An
instruction that looks at neither does the same with any of them. -/

namespace RiscvSim

namespace Core

/-- The state with another operand size and other pending input. -/
def withLeftovers (c : Core) (n : OperandSize) (q : List (List Byte)) : Core :=
  { c with bigmul := { c.bigmul with sizeOfOperand := n }, inputQueue := q }

variable {c d : Core} {n : OperandSize} {q : List (List Byte)} {changes : Changes}

@[simp] theorem withLeftovers_currentInstruction :
    (c.withLeftovers n q).currentInstruction = c.currentInstruction := rfl

@[simp] theorem withLeftovers_controlUnit :
    (c.withLeftovers n q).controlUnit = c.controlUnit := rfl

@[simp] theorem withLeftovers_registers :
    (c.withLeftovers n q).registers = c.registers := rfl

@[simp] theorem withLeftovers_memory : (c.withLeftovers n q).memory = c.memory := rfl

@[simp] theorem withLeftovers_executionResult :
    (c.withLeftovers n q).executionResult = c.executionResult := rfl

@[simp] theorem withLeftovers_branchFlag :
    (c.withLeftovers n q).branchFlag = c.branchFlag := rfl

/-- Only these two parts differ: with the values of the state itself nothing changes. -/
theorem withLeftovers_self : c.withLeftovers c.bigmul.sizeOfOperand c.inputQueue = c := rfl

theorem fetch_leftovers :
    (c.withLeftovers n q).fetch = c.fetch.map (withLeftovers · n q) := by
  change c.memory.readWord c.programCounter >>= _ = Except.map _ (c.memory.readWord _ >>= _)
  cases c.memory.readWord c.programCounter with
  | error e => rfl
  | ok w => rfl

/-- The first three assignments of a jump. -/
def beforeJump (c : Core) (back forth : Word) : Core :=
  let c := { c with nextPc := c.programCounter }
  let c := c.updateProgramCounter back
  { c with returnAddress := c.programCounter + forth }

/-- The last assignment of a jump. -/
def jumpTarget (c : Core) (imm : Word) : Core :=
  if c.currentInstruction.opcode = 0b1100111#7 then
    c.updateProgramCounter (-c.programCounter + c.executionResult)
  else c.updateProgramCounter imm

theorem jumpTarget_leftovers (imm : Word) :
    (c.withLeftovers n q).jumpTarget imm = (c.jumpTarget imm).withLeftovers n q := by
  by_cases h : c.currentInstruction.opcode = 0b1100111#7
  · simp only [jumpTarget, updateProgramCounter, withLeftovers, h, if_true]
  · simp only [jumpTarget, updateProgramCounter, withLeftovers, h, if_false]

theorem jump_leftovers (imm : Word) :
    (c.withLeftovers n q).jump imm = (c.jump imm).withLeftovers n q := by
  have hjump (c : Core) : c.jump imm = (c.beforeJump (-4) 4).jumpTarget imm := rfl
  have hbefore (back forth : Word) : (c.withLeftovers n q).beforeJump back forth =
      (c.beforeJump back forth).withLeftovers n q := rfl
  rw [hjump, hjump, hbefore, jumpTarget_leftovers]

theorem executeBranch_leftovers (imm : Word) :
    (c.withLeftovers n q).executeBranch imm =
      (c.executeBranch imm).withLeftovers n q := by
  simp only [executeBranch, withLeftovers_currentInstruction, withLeftovers_controlUnit,
    withLeftovers_executionResult, withLeftovers_branchFlag, jump_leftovers]
  by_cases hbranch : c.controlUnit.branch = true
  · by_cases hop : c.currentInstruction.opcode = 0b1100111#7 ∨
        c.currentInstruction.opcode = 0b1101111#7
    · simp only [hbranch, hop, if_true]
    · by_cases hb : c.currentInstruction.opcode = 0b1100011#7
      · simp [hbranch, hb]
        rfl
      · simp [hbranch, hop, hb]
  · simp only [hbranch]
    rfl

theorem takeBranch_leftovers (imm : Word) :
    (c.withLeftovers n q).takeBranch imm = (c.takeBranch imm).withLeftovers n q := by
  by_cases h : c.branchFlag ∧ c.currentInstruction.opcode = 0b1100011#7
  · simp only [takeBranch, updateProgramCounter, withLeftovers, h, and_self, if_true]
  · simp only [takeBranch, withLeftovers, h, if_false]

theorem addUpperImmediate_leftovers (imm : BitVec 32) :
    (c.withLeftovers n q).addUpperImmediate imm =
      (c.addUpperImmediate imm).withLeftovers n q := by
  by_cases h : c.currentInstruction.opcode = 0b0010111#7
  · simp only [addUpperImmediate, withLeftovers, h, if_true]
  · simp only [addUpperImmediate, withLeftovers, h, if_false]

/-- What the integer unit computes on. -/
def aluResult (c : Core) : Except Fault (Word × Bool) :=
  Alu.execute (ControlUnit.getAluSignal c.currentInstruction)
    (c.registers.readGpr c.currentInstruction.rs1)
    (if c.controlUnit.aluSrc then (immGenerator c.currentInstruction).signExtend 64
      else c.registers.readGpr c.currentInstruction.rs2)

def withResult (c : Core) (result : Word) : Core := { c with executionResult := result }

theorem executeInteger_eq (c : Core) : c.executeInteger = c.aluResult >>= fun r =>
    .ok ((((c.withResult r.1).executeBranch ((immGenerator c.currentInstruction).signExtend 64)).takeBranch
      ((immGenerator c.currentInstruction).signExtend 64)).addUpperImmediate
        (immGenerator c.currentInstruction)) := rfl

theorem executeInteger_leftovers (h : c.executeInteger = .ok d) :
    (c.withLeftovers n q).executeInteger = .ok (d.withLeftovers n q) := by
  rw [executeInteger_eq] at h ⊢
  obtain ⟨result, hresult, h⟩ := Loop.bind_eq_ok h
  obtain rfl := Except.ok.inj h
  have hresult' : (c.withLeftovers n q).aluResult = .ok result := hresult
  have hwith : (c.withLeftovers n q).withResult result.1 =
      (c.withResult result.1).withLeftovers n q := rfl
  rw [hresult', Loop.bind_ok, withLeftovers_currentInstruction, hwith, executeBranch_leftovers,
    takeBranch_leftovers, addUpperImmediate_leftovers]

theorem executeInteger_inputQueue (h : c.executeInteger = .ok d) :
    d.inputQueue = c.inputQueue := by
  have hsame : c.executeInteger = .ok (d.withLeftovers c.bigmul.sizeOfOperand c.inputQueue) :=
    executeInteger_leftovers h
  rw [h] at hsame
  have hqueue := congrArg Core.inputQueue (Except.ok.inj hsame)
  exact hqueue

/-- The next instruction is a read system call on the standard input. -/
def ReadsInput (c : Core) (w : Instr) : Prop :=
  w.opcode = 0b1110011#7 ∧ w.funct3 = 0b000#3 ∧ c.registers.readGpr 17 = 63 ∧
    c.registers.readGpr 10 = 0

theorem syscallRead_leftovers (h : c.syscallRead = .ok (d, changes)) :
    (c.withLeftovers n c.inputQueue).syscallRead =
      .ok (d.withLeftovers n d.inputQueue, changes) := by
  unfold syscallRead at h ⊢
  dsimp only at h ⊢
  have hinput : (c.withLeftovers n c.inputQueue).inputQueue = c.inputQueue := rfl
  rw [hinput]
  cases hqueue : c.inputQueue with
  | nil =>
    rw [hqueue] at h
    exact nomatch h
  | cons line rest =>
    rw [hqueue] at h
    obtain ⟨oldBytes, hold, h⟩ := Loop.bind_eq_ok h
    obtain ⟨m, hm, h⟩ := Loop.bind_eq_ok h
    obtain ⟨m', hm', h⟩ := Loop.bind_eq_ok h
    obtain ⟨newBytes, hnew, h⟩ := Loop.bind_eq_ok h
    obtain ⟨rfl, rfl⟩ := Prod.mk.inj (Except.ok.inj h)
    simp only [withLeftovers_registers, withLeftovers_memory, hold, hm, Loop.bind_ok]
    by_cases hshort : line.length < (c.registers.readGpr 12).toNat
    · rw [if_pos hshort] at hm'
      simp only [hshort, if_true, hm', hnew, Loop.bind_ok]
      rfl
    · rw [if_neg hshort] at hm'
      obtain rfl := Except.ok.inj hm'
      simp only [hshort, if_false, hnew, Loop.bind_ok]
      rfl

theorem handleSyscall_leftovers (h : c.handleSyscall = .ok (d, changes))
    (hread : c.registers.readGpr 17 = 63 → c.registers.readGpr 10 = 0 → q = c.inputQueue) :
    ∃ rest, (c.withLeftovers n q).handleSyscall = .ok (d.withLeftovers n rest, changes) ∧
      (q = c.inputQueue → rest = d.inputQueue) := by
  unfold handleSyscall at h ⊢
  dsimp only [withLeftovers_registers, withLeftovers_memory] at h ⊢
  split at h
  case h_1 =>
    obtain ⟨u, hprint, h⟩ := Loop.bind_eq_ok h
    obtain ⟨rfl, rfl⟩ := Prod.mk.inj (Except.ok.inj h)
    exact ⟨q, by rw [hprint]; rfl, id⟩
  case h_2 => exact nomatch h
  case h_3 hcode =>
    by_cases hzero : c.registers.readGpr 10 = 0
    · rw [if_pos hzero] at h ⊢
      rw [hread hcode hzero]
      exact ⟨d.inputQueue, syscallRead_leftovers h, fun _ => rfl⟩
    · rw [if_neg hzero] at h ⊢
      obtain ⟨rfl, rfl⟩ := Prod.mk.inj (Except.ok.inj h)
      exact ⟨q, rfl, id⟩
  case h_4 =>
    by_cases hone : c.registers.readGpr 10 = 1
    · rw [if_pos hone] at h ⊢
      obtain ⟨bytes, hbytes, h⟩ := Loop.bind_eq_ok h
      obtain ⟨rfl, rfl⟩ := Prod.mk.inj (Except.ok.inj h)
      refine ⟨q, ?_, id⟩
      simp only [syscallWrite, withLeftovers_registers, withLeftovers_memory, hbytes, Loop.bind_ok]
      rfl
    · rw [if_neg hone] at h ⊢
      obtain ⟨rfl, rfl⟩ := Prod.mk.inj (Except.ok.inj h)
      exact ⟨q, rfl, id⟩
  case h_5 =>
    obtain ⟨rfl, rfl⟩ := Prod.mk.inj (Except.ok.inj h)
    exact ⟨q, rfl, id⟩

theorem execute_leftovers {fpu : Fpu} (h : c.execute fpu = .ok (d, changes))
    (hread : c.ReadsInput c.currentInstruction → q = c.inputQueue) :
    ∃ rest, (c.withLeftovers n q).execute fpu = .ok (d.withLeftovers n rest, changes) ∧
      (q = c.inputQueue → rest = d.inputQueue) := by
  unfold execute at h ⊢
  dsimp only [withLeftovers_currentInstruction] at h ⊢
  by_cases hsystem : c.currentInstruction.opcode = 0b1110011#7 ∧ c.currentInstruction.funct3 = 0b000#3
  · rw [if_pos hsystem] at h ⊢
    exact handleSyscall_leftovers h fun hcode hzero =>
      hread ⟨hsystem.1, hsystem.2, hcode, hzero⟩
  · rw [if_neg hsystem] at h ⊢
    by_cases hf : isFInstruction c.currentInstruction = true
    · rw [if_pos hf] at h ⊢
      obtain ⟨rfl, rfl⟩ := Prod.mk.inj (Except.ok.inj h)
      exact ⟨q, rfl, id⟩
    · rw [if_neg hf] at h ⊢
      by_cases hd : isDInstruction c.currentInstruction = true
      · rw [if_pos hd] at h ⊢
        obtain ⟨rfl, rfl⟩ := Prod.mk.inj (Except.ok.inj h)
        exact ⟨q, rfl, id⟩
      · rw [if_neg hd] at h ⊢
        by_cases hcsr : c.currentInstruction.opcode = 0b1110011#7
        · rw [if_pos hcsr] at h ⊢
          obtain ⟨rfl, rfl⟩ := Prod.mk.inj (Except.ok.inj h)
          exact ⟨q, rfl, id⟩
        · rw [if_neg hcsr] at h ⊢
          obtain ⟨e, hexec, h⟩ := Loop.bind_eq_ok h
          obtain ⟨rfl, rfl⟩ := Prod.mk.inj (Except.ok.inj h)
          refine ⟨q, by rw [executeInteger_leftovers hexec]; rfl, fun hsame => ?_⟩
          exact hsame.trans (executeInteger_inputQueue hexec).symm

/-- The part of an LDBM cycle that loads. -/
def ldbmLoad (m : Memory) (u : BigmulUnit) : Except Fault BigmulUnit :=
  if u.ldbmOffset < 64 then do
    return { u with cacheA := ← loadWords m u.baseAddrA u.ldbmOffset u.cacheA 8 }
  else if u.ldbmOffset < 128 then do
    return { u with cacheB := ← loadWords m u.baseAddrB (u.ldbmOffset - 64) u.cacheB 8 }
  else .ok u

/-- The part of an LDBM cycle that moves on. -/
def ldbmNext (u : BigmulUnit) : BigmulUnit :=
  let u := { u with ldbmOffset := u.ldbmOffset + 8 }
  if u.ldbmOffset ≥ 128 then { u with ldbmDone := true } else u

theorem ldbmCycle_leftovers {m : Memory} {u u' : BigmulUnit} (h : ldbmCycle m u = .ok u') :
    ldbmCycle m { u with sizeOfOperand := n } = .ok { u' with sizeOfOperand := n } := by
  have hcycle (u : BigmulUnit) : ldbmCycle m u = ldbmLoad m u >>= fun v => .ok (ldbmNext v) := rfl
  have hnext (v : BigmulUnit) : ldbmNext { v with sizeOfOperand := n } =
      { ldbmNext v with sizeOfOperand := n } := by
    simp only [ldbmNext]
    split <;> rfl
  rw [hcycle] at h ⊢
  obtain ⟨v, hv, h⟩ := Loop.bind_eq_ok h
  obtain rfl := Except.ok.inj h
  have hload : ldbmLoad m { u with sizeOfOperand := n } = .ok { v with sizeOfOperand := n } := by
    unfold ldbmLoad at hv ⊢
    dsimp only at hv ⊢
    by_cases hA : u.ldbmOffset < 64
    · rw [if_pos hA] at hv ⊢
      obtain ⟨cache, hcache, hv⟩ := Loop.bind_eq_ok hv
      obtain rfl := Except.ok.inj hv
      rw [hcache]
      rfl
    · rw [if_neg hA] at hv ⊢
      by_cases hB : u.ldbmOffset < 128
      · rw [if_pos hB] at hv ⊢
        obtain ⟨cache, hcache, hv⟩ := Loop.bind_eq_ok hv
        obtain rfl := Except.ok.inj hv
        rw [hcache]
        rfl
      · rw [if_neg hB] at hv ⊢
        obtain rfl := Except.ok.inj hv
        rfl
  rw [hload, Loop.bind_ok, hnext]

theorem ldbmCycle_size {m : Memory} {u u' : BigmulUnit} (h : ldbmCycle m u = .ok u') :
    u'.sizeOfOperand = u.sizeOfOperand := by
  have hsame : ldbmCycle m u = .ok { u' with sizeOfOperand := u.sizeOfOperand } :=
    ldbmCycle_leftovers h
  rw [h] at hsame
  have hunit := congrArg BigmulUnit.sizeOfOperand (Except.ok.inj hsame)
  exact hunit

/-- A write-back cycle leaves the operand size alone. -/
theorem bigmulWriteCycle_size {m m' : Memory} {u u' : BigmulUnit}
    (h : bigmulWriteCycle m u = .ok (m', u')) : u'.sizeOfOperand = u.sizeOfOperand := by
  have hfinish {m m' : Memory} {u u' : BigmulUnit} (h : finishWriteBack m u = .ok (m', u')) :
      u'.sizeOfOperand = u.sizeOfOperand := by
    unfold finishWriteBack at h
    dsimp only at h
    split at h
    · split at h
      · obtain ⟨rfl, rfl⟩ := Prod.mk.inj (Except.ok.inj h)
        rfl
      · exact nomatch h
    · obtain ⟨rfl, rfl⟩ := Prod.mk.inj (Except.ok.inj h)
      rfl
  unfold bigmulWriteCycle at h
  dsimp only at h
  split at h
  · obtain ⟨m₁, -, h⟩ := Loop.bind_eq_ok h
    have hsize := hfinish h
    exact hsize
  · exact hfinish h

theorem writeMemoryFloat_leftovers (h : c.writeMemoryFloat = .ok (d, changes)) :
    (c.withLeftovers n q).writeMemoryFloat = .ok (d.withLeftovers n q, changes) ∧
      d.bigmul = c.bigmul := by
  unfold writeMemoryFloat at h ⊢
  dsimp only at h ⊢
  obtain ⟨loaded, hloaded, h⟩ := Loop.bind_eq_ok h
  by_cases hwrite : c.controlUnit.memWrite = true
  · rw [if_pos hwrite] at h
    obtain ⟨⟨m, stored⟩, hstore, h⟩ := Loop.bind_eq_ok h
    obtain ⟨rfl, rfl⟩ := Prod.mk.inj (Except.ok.inj h)
    exact ⟨(Loop.bind_of_eq_ok hloaded _).trans ((if_pos hwrite).trans
      (Loop.bind_of_eq_ok hstore _)), rfl⟩
  · rw [if_neg hwrite] at h
    obtain ⟨rfl, rfl⟩ := Prod.mk.inj (Except.ok.inj h)
    exact ⟨(Loop.bind_of_eq_ok hloaded _).trans (if_neg hwrite), rfl⟩

theorem writeMemoryDouble_leftovers (h : c.writeMemoryDouble = .ok (d, changes)) :
    (c.withLeftovers n q).writeMemoryDouble = .ok (d.withLeftovers n q, changes) ∧
      d.bigmul = c.bigmul := by
  unfold writeMemoryDouble at h ⊢
  dsimp only at h ⊢
  obtain ⟨loaded, hloaded, h⟩ := Loop.bind_eq_ok h
  by_cases hwrite : c.controlUnit.memWrite = true
  · rw [if_pos hwrite] at h
    obtain ⟨⟨m, stored⟩, hstore, h⟩ := Loop.bind_eq_ok h
    obtain ⟨rfl, rfl⟩ := Prod.mk.inj (Except.ok.inj h)
    exact ⟨(Loop.bind_of_eq_ok hloaded _).trans ((if_pos hwrite).trans
      (Loop.bind_of_eq_ok hstore _)), rfl⟩
  · rw [if_neg hwrite] at h
    obtain ⟨rfl, rfl⟩ := Prod.mk.inj (Except.ok.inj h)
    exact ⟨(Loop.bind_of_eq_ok hloaded _).trans (if_neg hwrite), rfl⟩

/-- While a product is under way its operand size has to be the same. -/
theorem writeMemoryInteger_leftovers (h : c.writeMemoryInteger = .ok (d, changes))
    (hsize : c.bigmul.bigmulDone = false → n = c.bigmul.sizeOfOperand) :
    (c.withLeftovers n q).writeMemoryInteger = .ok (d.withLeftovers n q, changes) ∧
      (d.bigmul.bigmulDone = false → n = d.bigmul.sizeOfOperand) := by
  unfold writeMemoryInteger at h ⊢
  dsimp only at h ⊢
  obtain ⟨loaded, hloaded, h⟩ := Loop.bind_eq_ok h
  by_cases hwriting : c.controlUnit.bigmulStart ∧ ¬ c.bigmul.bigmulDone ∧ ¬ c.bigmul.writeDone
  · rw [if_pos hwriting] at h
    obtain rfl := hsize (Bool.eq_false_iff.mpr hwriting.2.1)
    obtain ⟨⟨m, u⟩, hcycle, h⟩ := Loop.bind_eq_ok h
    obtain ⟨rfl, rfl⟩ := Prod.mk.inj (Except.ok.inj h)
    have hkept := bigmulWriteCycle_size hcycle
    refine ⟨?_, fun _ => hkept.symm⟩
    have hunit : { u with sizeOfOperand := c.bigmul.sizeOfOperand } = u := by rw [← hkept]
    have hother : (c.withLeftovers c.bigmul.sizeOfOperand q).writeMemoryInteger = .ok
        ({ c with memory := m, bigmul := u, memoryResult := loaded, inputQueue := q }, .none) :=
      (Loop.bind_of_eq_ok hloaded _).trans ((if_pos hwriting).trans
        (Loop.bind_of_eq_ok hcycle _))
    refine hother.trans (congrArg (fun x : Core => Except.ok (x, Changes.none)) ?_)
    rw [withLeftovers, hunit]
  · rw [if_neg hwriting] at h
    by_cases hwrite : c.controlUnit.memWrite = true
    · rw [if_pos hwrite] at h
      obtain ⟨⟨m, stored⟩, hstore, h⟩ := Loop.bind_eq_ok h
      obtain ⟨rfl, rfl⟩ := Prod.mk.inj (Except.ok.inj h)
      exact ⟨(Loop.bind_of_eq_ok hloaded _).trans ((if_neg hwriting).trans ((if_pos hwrite).trans
        (Loop.bind_of_eq_ok hstore _))), hsize⟩
    · rw [if_neg hwrite] at h
      obtain ⟨rfl, rfl⟩ := Prod.mk.inj (Except.ok.inj h)
      exact ⟨(Loop.bind_of_eq_ok hloaded _).trans ((if_neg hwriting).trans (if_neg hwrite)), hsize⟩

theorem writeMemory_leftovers (h : c.writeMemory = .ok (d, changes))
    (hsize : c.bigmul.bigmulDone = false → n = c.bigmul.sizeOfOperand) :
    (c.withLeftovers n q).writeMemory = .ok (d.withLeftovers n q, changes) ∧
      (d.bigmul.bigmulDone = false → n = d.bigmul.sizeOfOperand) := by
  unfold writeMemory at h ⊢
  dsimp only [withLeftovers_currentInstruction, withLeftovers_controlUnit] at h ⊢
  by_cases hldbm : c.controlUnit.ldbmStart ∧ ¬ c.bigmul.ldbmDone
  · rw [if_pos hldbm] at h
    obtain ⟨u, hcycle, h⟩ := Loop.bind_eq_ok h
    obtain ⟨rfl, rfl⟩ := Prod.mk.inj (Except.ok.inj h)
    refine ⟨(if_pos hldbm).trans (Loop.bind_of_eq_ok (ldbmCycle_leftovers hcycle) _), fun hdone => ?_⟩
    rw [ldbmCycle_size hcycle]
    exact hsize ((ldbmCycle_progress hcycle).2 ▸ hdone)
  rw [if_neg hldbm] at h
  by_cases hsystem : c.currentInstruction.opcode = 0b1110011#7 ∧ c.currentInstruction.funct3 = 0b000#3
  · rw [if_pos hsystem] at h
    obtain ⟨rfl, rfl⟩ := Prod.mk.inj (Except.ok.inj h)
    exact ⟨(if_neg hldbm).trans (if_pos hsystem), hsize⟩
  rw [if_neg hsystem] at h
  by_cases hf : isFInstruction c.currentInstruction = true
  · rw [if_pos hf] at h
    obtain ⟨hother, hunit⟩ := writeMemoryFloat_leftovers h
    exact ⟨(if_neg hldbm).trans ((if_neg hsystem).trans ((if_pos hf).trans hother)), hunit ▸ hsize⟩
  rw [if_neg hf] at h
  by_cases hd : isDInstruction c.currentInstruction = true
  · rw [if_pos hd] at h
    obtain ⟨hother, hunit⟩ := writeMemoryDouble_leftovers h
    exact ⟨(if_neg hldbm).trans ((if_neg hsystem).trans ((if_neg hf).trans ((if_pos hd).trans
      hother))), hunit ▸ hsize⟩
  rw [if_neg hd] at h
  obtain ⟨hother, hkept⟩ := writeMemoryInteger_leftovers h hsize
  exact ⟨(if_neg hldbm).trans ((if_neg hsystem).trans ((if_neg hf).trans ((if_neg hd).trans
    hother))), hkept⟩

theorem writeMemory_kept (h : c.writeMemory = .ok (d, changes)) :
    d.bigmul.sizeOfOperand = c.bigmul.sizeOfOperand ∧ d.inputQueue = c.inputQueue := by
  have hsame := (writeMemory_leftovers (q := c.inputQueue) h fun _ => rfl).1
  rw [withLeftovers_self, h] at hsame
  have hd := (Prod.mk.inj (Except.ok.inj hsame)).1
  have hsize := congrArg (·.bigmul.sizeOfOperand) hd
  have hqueue := congrArg Core.inputQueue hd
  exact ⟨hsize, hqueue⟩

theorem writeBackFp_leftovers (toGpr : Bool) :
    (c.withLeftovers n q).writeBackFp toGpr =
      ((c.writeBackFp toGpr).1.withLeftovers n q, (c.writeBackFp toGpr).2) := by
  unfold writeBackFp
  dsimp only [withLeftovers_controlUnit]
  by_cases hwrite : c.controlUnit.regWrite = true
  · cases toGpr with
    | true => simp only [hwrite, if_true]; rfl
    | false => simp only [hwrite, if_true]; rfl
  · simp only [hwrite]
    rfl

theorem writeBackCsr_leftovers :
    (c.withLeftovers n q).writeBackCsr = c.writeBackCsr.withLeftovers n q := by
  have hvalue : (c.withLeftovers n q).csrNewValue = c.csrNewValue := rfl
  unfold writeBackCsr
  dsimp only [withLeftovers_currentInstruction]
  rw [hvalue]
  by_cases hnone : c.currentInstruction.funct3 = 0b000#3 ∨ c.currentInstruction.funct3 = 0b100#3
  · simp only [hnone, if_true]
  · simp only [hnone, if_false]
    cases c.csrNewValue with
    | none => rfl
    | some value => rfl

theorem writeBack_leftovers : (c.withLeftovers n q).writeBack =
    (c.writeBack.1.withLeftovers n q, c.writeBack.2) := by
  unfold writeBack
  dsimp only [withLeftovers_currentInstruction]
  by_cases hsystem : c.currentInstruction.opcode = 0b1110011#7 ∧ c.currentInstruction.funct3 = 0b000#3
  · simp only [hsystem, and_self, if_true]
  rw [if_neg hsystem, if_neg hsystem]
  by_cases hf : isFInstruction c.currentInstruction = true
  · rw [if_pos hf, if_pos hf]
    exact writeBackFp_leftovers _
  rw [if_neg hf, if_neg hf]
  by_cases hd : isDInstruction c.currentInstruction = true
  · rw [if_pos hd, if_pos hd]
    exact writeBackFp_leftovers _
  rw [if_neg hd, if_neg hd]
  by_cases hcsr : c.currentInstruction.opcode = 0b1110011#7
  · rw [if_pos hcsr, if_pos hcsr, writeBackCsr_leftovers]
  · rw [if_neg hcsr, if_neg hcsr]
    rfl

/-- The size register of a BIGMUL holds a usable operand size. -/
def SetsSize (c : Core) (w : Instr) : Prop :=
  ∃ value, c.registers.readGprChecked (Instr.field w 20 7).toNat = .ok value ∧
    value ≠ 0 ∧ value < 512

/-- `Decode` of a BIGMUL with a usable size register forgets the old size. -/
theorem decode_leftovers (h : c.decode = .ok d)
    (hsize : c.bigmul.bigmulDone = false → n = c.bigmul.sizeOfOperand)
    (hclean : c.currentInstruction.opcode = 0b0111111#7 →
      c.SetsSize c.currentInstruction ∨ n = c.bigmul.sizeOfOperand) :
    ∃ n', (c.withLeftovers n q).decode = .ok (d.withLeftovers n' q) ∧
      (d.bigmul.bigmulDone = false → n' = d.bigmul.sizeOfOperand) ∧
      (c.currentInstruction.opcode = 0b0111111#7 ∨ n = c.bigmul.sizeOfOperand →
        n' = d.bigmul.sizeOfOperand) := by
  unfold decode at h ⊢
  dsimp only [withLeftovers_currentInstruction, withLeftovers_registers] at h ⊢
  by_cases hldbm : c.currentInstruction.opcode = 0b0101010#7 ∧
      (ControlUnit.setControlSignals c.currentInstruction).ldbmStart ∧ c.bigmul.ldbmDone
  · rw [if_pos hldbm] at h
    obtain ⟨a, ha, h⟩ := Loop.bind_eq_ok h
    obtain ⟨b, hb, h⟩ := Loop.bind_eq_ok h
    obtain rfl := Except.ok.inj h
    refine ⟨n, (if_pos hldbm).trans ((Loop.bind_of_eq_ok ha _).trans (Loop.bind_of_eq_ok hb _)),
      hsize, fun hsame => hsame.resolve_left ?_⟩
    rw [hldbm.1]
    decide
  rw [if_neg hldbm] at h
  by_cases hbigmul : c.currentInstruction.opcode = 0b0111111#7 ∧
      (ControlUnit.setControlSignals c.currentInstruction).bigmulStart ∧ c.bigmul.bigmulDone
  · rw [if_pos hbigmul] at h
    obtain ⟨value, hvalue, h⟩ := Loop.bind_eq_ok h
    obtain ⟨base, hbase, h⟩ := Loop.bind_eq_ok h
    obtain rfl := Except.ok.inj h
    have hchoose : chooseSize n value = chooseSize c.bigmul.sizeOfOperand value := by
      rcases hclean hbigmul.1 with ⟨value', hvalue', husable⟩ | hsame
      · obtain rfl : value = value' := Except.ok.inj (hvalue.symm.trans hvalue')
        rw [chooseSize, chooseSize, dif_pos husable, dif_pos husable]
      · rw [hsame]
    exact ⟨chooseSize n value, (if_neg hldbm).trans ((if_pos hbigmul).trans
      ((Loop.bind_of_eq_ok hvalue _).trans (Loop.bind_of_eq_ok hbase _))),
      fun _ => hchoose, fun _ => hchoose⟩
  · rw [if_neg hbigmul] at h
    obtain rfl := Except.ok.inj h
    refine ⟨n, (if_neg hldbm).trans (if_neg hbigmul), hsize, fun hsame => ?_⟩
    rcases hsame with hop | hsame
    · have hstart : (ControlUnit.setControlSignals c.currentInstruction).bigmulStart = true := by
        rw [setControlSignals_bigmul hop]
      refine hsize (Bool.eq_false_iff.mpr fun hdone => hbigmul ⟨hop, hstart, hdone⟩)
    · exact hsame

/-- The two machines differ in leftovers that cannot show yet: while a product is under way
its operand size is the same. -/
structure Leftovers (c c' : Core) : Prop where
  eq : c' = c.withLeftovers c'.bigmul.sizeOfOperand c'.inputQueue
  size : c.bigmul.bigmulDone = false → c'.bigmul.sizeOfOperand = c.bigmul.sizeOfOperand

/-- One fetch cycle keeps them hidden if a BIGMUL finds a usable size register or the same old
n, and a read system call the same input. -/
theorem Leftovers.fetchCycle {fpu : Fpu} {c' : Core} {w : Instr} (hl : Leftovers c c')
    (hw : c.memory.readWord c.programCounter = .ok w) (h : c.fetchCycle fpu = .ok (d, changes))
    (hclean : w.opcode = 0b0111111#7 →
      c.SetsSize w ∨ c'.bigmul.sizeOfOperand = c.bigmul.sizeOfOperand)
    (hread : c.ReadsInput w → c'.inputQueue = c.inputQueue) :
    ∃ d', c'.fetchCycle fpu = .ok (d', changes) ∧ Leftovers d d' ∧
      (w.opcode = 0b0111111#7 ∨ c'.bigmul.sizeOfOperand = c.bigmul.sizeOfOperand →
        d'.bigmul.sizeOfOperand = d.bigmul.sizeOfOperand) ∧
      (c'.inputQueue = c.inputQueue → d'.inputQueue = d.inputQueue) := by
  obtain ⟨heq, hsize⟩ := hl
  rw [heq]
  generalize c'.bigmul.sizeOfOperand = n at *
  generalize c'.inputQueue = q at *
  obtain ⟨w', c₁, c₂, c₃, executed, stored, hw', hdecode, hexec, hmem, rfl, rfl⟩ :=
    fetchCycle_stages h
  obtain rfl : w = w' := Except.ok.inj (hw.symm.trans hw')
  obtain ⟨size₁, hdecode', hsize₁, hsame₁⟩ :=
    decode_leftovers (q := q) hdecode hsize hclean
  have hframe := decode_frame hdecode
  have hread₁ : c₁.ReadsInput c₁.currentInstruction → q = c₁.inputQueue := by
    rw [hframe]
    exact hread
  obtain ⟨rest, hexec', hrest⟩ := execute_leftovers (n := size₁) hexec hread₁
  have hunit := (execute_frame hexec).bigmul
  obtain ⟨hmem', hsize₃⟩ := writeMemory_leftovers (q := rest) hmem (hunit ▸ hsize₁)
  obtain ⟨hkept₃, hqueue₃⟩ := writeMemory_kept hmem
  have hback := writeBack_leftovers (c := c₃) (n := size₁) (q := rest)
  have hunit₄ : c₃.writeBack.1.bigmul = c₃.bigmul := by rw [writeBack_frame]
  have hqueue₄ : c₃.writeBack.1.inputQueue = c₃.inputQueue := by rw [writeBack_frame]
  have hfetch : (c.withLeftovers n q).fetch = .ok (withLeftovers
      { c with currentInstruction := w, programCounter := c.programCounter + 4 } n q) := by
    rw [fetch_leftovers, Core.fetch, hw]
    rfl
  refine ⟨withLeftovers { c₃.writeBack.1 with
    instructionsRetired := c₃.writeBack.1.instructionsRetired + 1
    cycleS := c₃.writeBack.1.cycleS + 1 } size₁ rest, ?_, ⟨rfl, ?_⟩, ?_, ?_⟩
  · unfold Core.fetchCycle
    rw [hfetch, Loop.bind_ok, hdecode', Loop.bind_ok, hexec', Loop.bind_ok]
    dsimp only
    rw [hmem', Loop.bind_ok]
    dsimp only
    rw [hback]
    rfl
  · change c₃.writeBack.1.bigmul.bigmulDone = false → size₁ = c₃.writeBack.1.bigmul.sizeOfOperand
    rw [hunit₄]
    exact hsize₃
  · intro hsame
    change size₁ = c₃.writeBack.1.bigmul.sizeOfOperand
    rw [hunit₄, hkept₃, hunit]
    exact hsame₁ hsame
  · intro hsame
    change rest = c₃.writeBack.1.inputQueue
    rw [hqueue₄, hqueue₃]
    refine hrest ?_
    rw [hframe]
    exact hsame

end Core

end RiscvSim
