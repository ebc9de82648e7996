import RiscvSim.IntegerCycle
import RiscvSim.Stall

/-! The program counter after an instruction, for every word that a step may fetch. -/

namespace RiscvSim

/-- The offset of a jump or a branch. -/
def Instr.offset (w : Instr) : Word := (immGenerator w).signExtend 64

namespace Core

variable {fpu : Fpu} {c c' : Core} {w : Instr} {pc : Word} {changes : Changes}

/-- The branch `w` is taken. -/
def takes (c : Core) (w : Instr) : Bool :=
  match Alu.execute (ControlUnit.getAluSignal w) (c.registers.readGpr w.rs1)
    (IntegerCycle.operand c.registers w) with
  | .ok result => branchTaken w.funct3 result.1 c.branchFlag
  | .error _ => false

/-- Where the instruction `w` goes. -/
def target (c : Core) (w : Instr) : Word :=
  match w.opcode with
  | 0b1100111#7 => c.registers.readGpr w.rs1 + w.offset
  | 0b1101111#7 => c.programCounter + w.offset
  | 0b1100011#7 => if c.takes w then c.programCounter + w.offset else c.programCounter + 4
  | _ => c.programCounter + 4

theorem target_other (hjalr : w.opcode ≠ 0b1100111#7) (hjal : w.opcode ≠ 0b1101111#7)
    (hbranch : w.opcode ≠ 0b1100011#7) : c.target w = c.programCounter + 4 := by
  unfold target
  split
  · exact absurd ‹_› hjalr
  · exact absurd ‹_› hjal
  · exact absurd ‹_› hbranch
  · rfl

theorem addUpperImmediate_programCounter (c : Core) (imm : BitVec 32) :
    (c.addUpperImmediate imm).programCounter = c.programCounter := by
  unfold addUpperImmediate
  split <;> rfl

/-- The branch block has an effect on the jumps and the branches only. -/
theorem executeBranch_idle {imm : Word} (hjalr : c.currentInstruction.opcode ≠ 0b1100111#7)
    (hjal : c.currentInstruction.opcode ≠ 0b1101111#7)
    (hbranch : c.currentInstruction.opcode ≠ 0b1100011#7) : c.executeBranch imm = c := by
  simp [executeBranch, hjalr, hjal, hbranch]

/-- A jump leaves the branch block at its target. -/
theorem executeBranch_jump {imm : Word} (hsignal : c.controlUnit.branch = true)
    (hpc : c.programCounter = pc + 4)
    (hop : c.currentInstruction.opcode = 0b1100111#7 ∨ c.currentInstruction.opcode = 0b1101111#7) :
    ((c.executeBranch imm).takeBranch imm).programCounter =
      if c.currentInstruction.opcode = 0b1100111#7 then c.executionResult else pc + imm := by
  have hjump : c.executeBranch imm = c.jump imm := by
    rw [executeBranch, if_pos hsignal, if_pos hop]
  have hword : (c.jump imm).currentInstruction = c.currentInstruction :=
    (jump_frame c imm).currentInstruction
  have hother : (c.jump imm).currentInstruction.opcode ≠ 0b1100011#7 := by
    rw [hword]
    rcases hop with h | h <;> simp [h]
  rw [hjump, takeBranch_other hother]
  exact (jump_eq imm hpc).1

theorem executeBranch_branch {imm : Word} (hsignal : c.controlUnit.branch = true)
    (hpc : c.programCounter = pc + 4) (hop : c.currentInstruction.opcode = 0b1100011#7) :
    ((c.executeBranch imm).takeBranch imm).programCounter =
      if branchTaken c.currentInstruction.funct3 c.executionResult c.branchFlag then pc + imm
      else pc + 4 := by
  have hback : pc + 4 + -4 + imm = pc + imm := by grind
  have hbranch : c.executeBranch imm = { c with
      branchFlag := branchTaken c.currentInstruction.funct3 c.executionResult c.branchFlag } := by
    rw [executeBranch, if_pos hsignal, if_neg (by simp [hop]), if_pos hop]
  rw [hbranch]
  by_cases htaken : branchTaken c.currentInstruction.funct3 c.executionResult c.branchFlag = true
  · rw [takeBranch, if_pos ⟨htaken, hop⟩, if_pos htaken]
    show c.programCounter + -4 + imm = pc + imm
    rw [hpc, hback]
  · rw [takeBranch, if_neg fun h => htaken h.1, if_neg htaken]
    exact hpc

/-- JALR goes to the sum of its register and its offset. -/
theorem jalr_result {result : Word × Bool} (hop : w.opcode = 0b1100111#7)
    (h : Alu.execute (ControlUnit.getAluSignal w) (c.registers.readGpr w.rs1)
      (IntegerCycle.operand c.registers w) = .ok result) :
    result.1 = c.registers.readGpr w.rs1 + w.offset := by
  have hsignal : ControlUnit.getAluSignal w = .kAdd := by simp [ControlUnit.getAluSignal, hop]
  have hoperand : IntegerCycle.operand c.registers w = w.offset := by
    simp [IntegerCycle.operand, ControlUnit.setControlSignals, hop, Instr.offset]
  rw [hsignal, hoperand] at h
  exact congrArg Prod.fst (Except.ok.inj h).symm

theorem setControlSignals_branches (h : w.opcode = 0b1100111#7 ∨ w.opcode = 0b1101111#7 ∨
    w.opcode = 0b1100011#7) : (ControlUnit.setControlSignals w).branch = true := by
  rcases h with h | h | h <;> simp [ControlUnit.setControlSignals, h]

/-- The branch block leaves the program counter at the target. -/
theorem executeBranch_target {result : Word × Bool} {d : Core} (hword : d.currentInstruction = w)
    (hcontrol : d.controlUnit = .setControlSignals w)
    (hpc : d.programCounter = c.programCounter + 4) (hflag : d.branchFlag = c.branchFlag)
    (halu : Alu.execute (ControlUnit.getAluSignal w) (c.registers.readGpr w.rs1)
      (IntegerCycle.operand c.registers w) = .ok result)
    (hresult : d.executionResult = result.1) :
    ((d.executeBranch w.offset).takeBranch w.offset).programCounter = c.target w := by
  subst hword
  have hsignal (hop : d.currentInstruction.opcode = 0b1100111#7 ∨
      d.currentInstruction.opcode = 0b1101111#7 ∨ d.currentInstruction.opcode = 0b1100011#7) :
      d.controlUnit.branch = true := by
    rw [hcontrol]
    exact setControlSignals_branches hop
  by_cases hjalr : d.currentInstruction.opcode = 0b1100111#7
  · rw [executeBranch_jump (hsignal (.inl hjalr)) hpc (.inl hjalr), if_pos hjalr, hresult,
      jalr_result hjalr halu]
    simp only [target, hjalr]
  by_cases hjal : d.currentInstruction.opcode = 0b1101111#7
  · rw [executeBranch_jump (hsignal (.inr (.inl hjal))) hpc (.inr hjal), if_neg hjalr]
    simp only [target, hjal]
  by_cases hbranch : d.currentInstruction.opcode = 0b1100011#7
  · have htakes : c.takes d.currentInstruction =
        branchTaken d.currentInstruction.funct3 result.1 c.branchFlag := by
      simp only [takes, halu]
    rw [executeBranch_branch (hsignal (.inr (.inr hbranch))) hpc hbranch, hresult, hflag]
    simp only [target, hbranch, htakes]
  · rw [executeBranch_idle hjalr hjal hbranch, takeBranch_other hbranch, hpc,
      target_other hjalr hjal hbranch]

theorem executeInteger_target {d : Core} (hword : d.currentInstruction = w)
    (hcontrol : d.controlUnit = .setControlSignals w)
    (hpc : d.programCounter = c.programCounter + 4) (hregisters : d.registers = c.registers)
    (hflag : d.branchFlag = c.branchFlag) (h : d.executeInteger = .ok c') :
    c'.programCounter = c.target w := by
  subst hword
  obtain ⟨result, halu, h⟩ := Loop.bind_eq_ok h
  obtain rfl := Except.ok.inj h
  rw [hcontrol, hregisters] at halu
  rw [addUpperImmediate_programCounter]
  exact executeBranch_target (d := { d with executionResult := result.1 }) rfl hcontrol hpc hflag
    halu rfl

/-- The five stages leave the program counter at the target of the word they fetched. -/
theorem fetchCycle_target (hw : c.memory.readWord c.programCounter = .ok w)
    (h : c.fetchCycle fpu = .ok (c', changes)) : c'.programCounter = c.target w := by
  obtain ⟨w', c₁, c₂, c₃, executed, stored, hw', hdecode, hexec, hmem, rfl, -⟩ :=
    fetchCycle_stages h
  obtain rfl : w = w' := Except.ok.inj (hw.symm.trans hw')
  have hlater : c₃.writeBack.1.programCounter = c₂.programCounter := by
    rw [writeBack_frame, (writeMemory_frame hmem).1]
  show c₃.writeBack.1.programCounter = _
  rw [hlater]
  have hc₁ := decode_frame hdecode
  have hword : c₁.currentInstruction = w := by rw [hc₁]
  have hpc : c₁.programCounter = c.programCounter + 4 := by rw [hc₁]
  have hother (hop : w.opcode ≠ 0b1100111#7 ∧ w.opcode ≠ 0b1101111#7 ∧ w.opcode ≠ 0b1100011#7)
      (hkeep : c₂.programCounter = c₁.programCounter) : c₂.programCounter = c.target w := by
    rw [hkeep, hpc, target_other hop.1 hop.2.1 hop.2.2]
  unfold execute at hexec
  dsimp only at hexec
  rw [hword] at hexec
  split at hexec
  · rename_i hsyscall
    refine hother (by simp [hsyscall.1]) ?_
    rw [handleSyscall_eq hexec]
  split at hexec
  · rename_i hfloat
    refine hother ⟨?_, ?_, ?_⟩ ?_
    · intro hop
      simp [isFInstruction, hop] at hfloat
    · intro hop
      simp [isFInstruction, hop] at hfloat
    · intro hop
      simp [isFInstruction, hop] at hfloat
    · injection hexec with hexec
      injection hexec with hexec
      rw [← hexec]
      rfl
  split at hexec
  · rename_i hdouble
    refine hother ⟨?_, ?_, ?_⟩ ?_
    · intro hop
      simp [isDInstruction, hop] at hdouble
    · intro hop
      simp [isDInstruction, hop] at hdouble
    · intro hop
      simp [isDInstruction, hop] at hdouble
    · injection hexec with hexec
      injection hexec with hexec
      rw [← hexec]
      rfl
  split at hexec
  · rename_i hcsr
    refine hother (by simp [hcsr]) ?_
    injection hexec with hexec
    injection hexec with hexec
    rw [← hexec]
    rfl
  · obtain ⟨d, hinteger, hexec⟩ := Loop.bind_eq_ok hexec
    obtain rfl : d = c₂ := congrArg Prod.fst (Except.ok.inj hexec)
    exact executeInteger_target hword (by rw [hc₁]) hpc (by rw [hc₁]) (by rw [hc₁]) hinteger

end Core

namespace Vm

variable {fpu : Fpu} {v v' : Vm} {w : Instr}

/-- The stall cycles keep the program counter. -/
theorem executeInstruction_target (hword : v.nextWord = .ok w)
    (h : v.executeInstruction fpu = .ok v') : v'.core.programCounter = v.core.target w := by
  obtain ⟨v₁, hfetch, h⟩ := Loop.bind_eq_ok h
  obtain ⟨v₂, hldbm, hbigmul⟩ := Loop.bind_eq_ok h
  obtain ⟨changes, hcore, -⟩ := fetchCycle_eq_ok hfetch
  have h₂ : v₂.core.programCounter = v₁.core.programCounter :=
    drain_invariant (fun u => u.core.programCounter = v₁.core.programCounter)
      (fun _ _ hu hstall => (stallWrite_frame hstall).2.programCounter.trans hu) rfl hldbm
  have h₃ : v'.core.programCounter = v₁.core.programCounter :=
    drain_invariant (fun u => u.core.programCounter = v₁.core.programCounter)
      (fun _ _ hu hstall => (stallBigmul_frame hstall).2.programCounter.trans hu) h₂ hbigmul
  rw [h₃, Core.fetchCycle_target hword hcore]

/-- A step inside the program goes to the target of its word; one outside it stays. -/
theorem step_target (h : v.step fpu = .ok v') : ∃ w, v.nextWord = .ok w ∧
    v'.core.programCounter =
      if v.core.programCounter < v.programSize then v.core.target w else v.core.programCounter := by
  by_cases hpc : v.core.programCounter < v.programSize
  · obtain ⟨v₁, v₂, hpreview, hexec, rfl⟩ := step_eq_ok h hpc
    obtain ⟨w, hw, rfl⟩ := preview_eq_ok hpreview
    refine ⟨w, hw, ?_⟩
    rw [if_pos hpc]
    show v₂.core.programCounter = _
    exact executeInstruction_target (v := v.noteState w) hw hexec
  · obtain ⟨w, hw, rfl⟩ := preview_eq_ok (step_eq_of_ge h hpc)
    exact ⟨w, hw, by rw [if_neg hpc, noteState_core]⟩

end Vm

end RiscvSim
