import RiscvSim.WordSteps

/-! Integer loads and stores: the bytes of the memory behind every width and extension. -/

namespace RiscvSim

namespace Memory

/-- The bytes of a load depend on its width only. -/
theorem load_setWidth (m : Memory) (address : Word) {w n : Nat} (hw : w ≤ 64) :
    (m.load address 64 n).setWidth w = m.load address w n := by
  refine BitVec.eq_of_getLsbD_eq fun j hj => ?_
  rw [BitVec.getLsbD_setWidth, getLsbD_load, getLsbD_load]
  simp [hj, show j < 64 by omega]

theorem store_setWidth (m : Memory) (address : Word) {w n : Nat} (value : Word) (hw : 8 * n ≤ w) :
    m.store address (value.setWidth w) n = m.store address value n := by
  refine Memory.ext rfl (funext fun x => ?_)
  simp only [store]
  by_cases hlt : (x - address).toNat < n
  · rw [if_pos hlt, if_pos hlt]
    refine BitVec.eq_of_getLsbD_eq fun j hj => ?_
    simp only [BitVec.getLsbD_setWidth, BitVec.getLsbD_ushiftRight]
    generalize (x - address).toNat = k at hlt
    simp [hj, show 8 * k + j < w by omega]
  · rw [if_neg hlt, if_neg hlt]

/-- A load of the width of the store before it gives the stored bytes. -/
theorem load_store (m : Memory) (address value : Word) {n : Nat} (hn : n ≤ 8) :
    ((m.store address value n).load address 64 n).setWidth (8 * n) = value.setWidth (8 * n) := by
  refine BitVec.eq_of_getLsbD_eq fun j hj => ?_
  have hbyte : address + BitVec.ofNat 64 (j / 8) - address = BitVec.ofNat 64 (j / 8) := by
    rw [BitVec.add_comm, BitVec.add_sub_cancel]
  have hindex : (BitVec.ofNat 64 (j / 8)).toNat = j / 8 := by
    rw [BitVec.toNat_ofNat, Nat.mod_eq_of_lt (by omega)]
  have hmod : j % 8 < 8 := Nat.mod_lt j (by decide)
  rw [BitVec.getLsbD_setWidth, BitVec.getLsbD_setWidth, getLsbD_load]
  simp only [store, hbyte, hindex]
  rw [if_pos (by omega), BitVec.getLsbD_setWidth, BitVec.getLsbD_ushiftRight, Nat.div_add_mod]
  simp [hj, hmod, show j < 64 by omega]

theorem readBytes_of_inRange {m : Memory} {address : Word} {n : Nat} (hn : 0 < n)
    (h : m.InRange address n) : ∃ bytes, m.readBytes address n = .ok bytes :=
  ⟨_, readBytes_eq_ok_iff.mpr ⟨(inRange_iff hn).mp h, rfl⟩⟩

end Memory

inductive LoadOp where
  | lb | lh | lw | ld | lbu | lhu | lwu
  deriving DecidableEq, Repr

namespace LoadOp

def funct3 : LoadOp → BitVec 3
  | lb => 0b000
  | lh => 0b001
  | lw => 0b010
  | ld => 0b011
  | lbu => 0b100
  | lhu => 0b101
  | lwu => 0b110

def bytes : LoadOp → Nat
  | lb | lbu => 1
  | lh | lhu => 2
  | lw | lwu => 4
  | ld => 8

/-- The low bytes of a value, extended to 64 bits as the mnemonic says. -/
def extend (op : LoadOp) (x : Word) : Word :=
  match op with
  | lb => (x.setWidth 8).signExtend 64
  | lh => (x.setWidth 16).signExtend 64
  | lw => (x.setWidth 32).signExtend 64
  | ld => x
  | lbu => (x.setWidth 8).setWidth 64
  | lhu => (x.setWidth 16).setWidth 64
  | lwu => (x.setWidth 32).setWidth 64

/-- The instruction word. -/
def word (op : LoadOp) (rd rs1 : RegIndex) (imm : BitVec 12) : Instr :=
  Instr.iType imm rs1 op.funct3 rd 0b0000011#7

theorem funct3_ne (op : LoadOp) : op.funct3 ≠ 0b111#3 := by
  cases op <;> decide

theorem bytes_pos (op : LoadOp) : 0 < op.bytes := by
  cases op <;> decide

/-- The extension reads the loaded bytes only. -/
theorem extend_congr (op : LoadOp) {x y : Word}
    (h : x.setWidth (8 * op.bytes) = y.setWidth (8 * op.bytes)) : op.extend x = op.extend y := by
  cases op with
  | ld =>
    have h64 : x.setWidth 64 = y.setWidth 64 := h
    rwa [BitVec.setWidth_eq, BitVec.setWidth_eq] at h64
  | lb => exact congrArg (BitVec.signExtend 64) h
  | lh => exact congrArg (BitVec.signExtend 64) h
  | lw => exact congrArg (BitVec.signExtend 64) h
  | lbu => exact congrArg (BitVec.setWidth 64) h
  | lhu => exact congrArg (BitVec.setWidth 64) h
  | lwu => exact congrArg (BitVec.setWidth 64) h

/-- What `WriteMemory` reads for a load in range. -/
theorem loadValue_eq (op : LoadOp) {m : Memory} {address : Word} (previous : Word)
    (h : m.InRange address op.bytes) :
    Core.loadValue m address op.funct3 previous = .ok (op.extend (m.load address 64 op.bytes)) := by
  cases op with
  | lb | lbu =>
    have hread := Memory.readByte_eq_ok_iff.mpr
      ⟨by simpa using (Memory.inRange_iff (by decide)).mp h 0 (by decide), rfl⟩
    simp only [Core.loadValue, funct3, hread, extend, bytes,
      Memory.load_setWidth m address (by decide : 8 ≤ 64), Memory.load_one]
    rfl
  | lh | lhu =>
    have hread := Memory.readHalfWord_eq_ok_iff.mpr ⟨h, rfl⟩
    simp only [Core.loadValue, funct3, hread, extend, bytes,
      Memory.load_setWidth m address (by decide : 16 ≤ 64)]
    rfl
  | lw | lwu =>
    have hread := Memory.readWord_eq_ok_iff.mpr ⟨h, rfl⟩
    simp only [Core.loadValue, funct3, hread, extend, bytes,
      Memory.load_setWidth m address (by decide : 32 ≤ 64)]
    rfl
  | ld => exact Memory.readDoubleWord_eq_ok_iff.mpr ⟨h, rfl⟩

end LoadOp

inductive StoreOp where
  | sb | sh | sw | sd
  deriving DecidableEq, Repr

namespace StoreOp

def funct3 : StoreOp → BitVec 3
  | sb => 0b000
  | sh => 0b001
  | sw => 0b010
  | sd => 0b011

def bytes : StoreOp → Nat
  | sb => 1
  | sh => 2
  | sw => 4
  | sd => 8

/-- The instruction word. -/
def word (op : StoreOp) (rs2 rs1 : RegIndex) (imm : BitVec 12) : Instr :=
  Instr.sType imm rs2 rs1 op.funct3 0b0100011#7

theorem bytes_pos (op : StoreOp) : 0 < op.bytes := by
  cases op <;> decide

theorem bytes_le (op : StoreOp) : op.bytes ≤ 8 := by
  cases op <;> decide

theorem storeRecorded_of_inRange {m : Memory} {address : Word} {n : Nat} {value : Word}
    (write : Memory → Except Fault Memory) (hn : 0 < n) (h : m.InRange address n)
    (hwrite : write m = .ok (m.store address value n)) :
    ∃ changes, Core.storeRecorded m address n write = .ok (m.store address value n, changes) := by
  obtain ⟨oldBytes, hold⟩ := Memory.readBytes_of_inRange hn h
  have h' : (m.store address value n).InRange address n := h
  obtain ⟨newBytes, hnew⟩ := Memory.readBytes_of_inRange hn h'
  rw [Core.storeRecorded, hold, Loop.bind_ok, hwrite, Loop.bind_ok, hnew]
  exact ⟨_, rfl⟩

/-- What `WriteMemory` leaves of a store in range. -/
theorem storeValue_eq (op : StoreOp) {m : Memory} {address : Word} (value : Word)
    (h : m.InRange address op.bytes) :
    ∃ changes, Core.storeValue m address op.funct3 value =
      .ok (m.store address value op.bytes, changes) := by
  cases op with
  | sb =>
    have hwrite : m.writeByte address (value.setWidth 8) = .ok (m.store address value 1) := by
      refine Memory.writeByte_eq_ok_iff.mpr ⟨?_, ?_⟩
      · simpa using (Memory.inRange_iff (by decide)).mp h 0 (by decide)
      · rw [← Memory.store_one, Memory.store_setWidth _ _ _ (by decide)]
    exact storeRecorded_of_inRange (fun m => m.writeByte address (value.setWidth 8))
      (by decide) h hwrite
  | sh =>
    have hwrite : m.writeHalfWord address (value.setWidth 16) = .ok (m.store address value 2) :=
      Memory.writeHalfWord_eq_ok_iff.mpr ⟨h, Memory.store_setWidth _ _ _ (by decide)⟩
    exact storeRecorded_of_inRange (fun m => m.writeHalfWord address (value.setWidth 16))
      (by decide) h hwrite
  | sw =>
    have hwrite : m.writeWord address (value.setWidth 32) = .ok (m.store address value 4) :=
      Memory.writeWord_eq_ok_iff.mpr ⟨h, Memory.store_setWidth _ _ _ (by decide)⟩
    exact storeRecorded_of_inRange (fun m => m.writeWord address (value.setWidth 32))
      (by decide) h hwrite
  | sd =>
    have hwrite : m.writeDoubleWord address value = .ok (m.store address value 8) :=
      Memory.writeDoubleWord_eq_ok_iff.mpr ⟨h, rfl⟩
    exact storeRecorded_of_inRange (fun m => m.writeDoubleWord address value)
      (by decide) h hwrite

end StoreOp

namespace Vm

variable (fpu : Fpu) {v : Vm} {rd rs1 rs2 : RegIndex} {imm : BitVec 12}

/-- The address of a load or a store. -/
def address (v : Vm) (rs1 : RegIndex) (imm : BitVec 12) : Word :=
  v.core.registers.readGpr rs1 + imm.signExtend 64

/-- The arithmetic unit adds the immediate to the base register. -/
theorem execute_address {w : Instr} (hsignal : ControlUnit.getAluSignal w = .kAdd)
    (hrs1 : w.rs1 = rs1) (hoperand : IntegerCycle.operand v.core.registers w = imm.signExtend 64) :
    ∃ flag, Alu.execute (ControlUnit.getAluSignal w) (v.core.registers.readGpr w.rs1)
      (IntegerCycle.operand v.core.registers w) = .ok (v.address rs1 imm, flag) := by
  rw [hsignal, hrs1, hoperand]
  exact ⟨_, rfl⟩

theorem stepsTo_load {op : LoadOp} (hword : v.nextWord = .ok (op.word rd rs1 imm))
    (hin : v.core.programCounter < v.programSize)
    (hrange : v.core.memory.InRange (v.address rs1 imm) op.bytes) :
    ∃ v', StepsTo fpu v (v.core.registers.writeGpr rd
      (op.extend (v.core.memory.load (v.address rs1 imm) 64 op.bytes))) v.core.memory v' := by
  let w := op.word rd rs1 imm
  have hopcode : w.opcode = 0b0000011#7 := Instr.iType_opcode ..
  have hfunct3 : w.funct3 = op.funct3 := Instr.iType_funct3 ..
  have hint : isIntegerWord w = true := by
    simp [isIntegerWord, hopcode, hfunct3, op.funct3_ne]
  have hsignal : ControlUnit.getAluSignal w = .kAdd := by
    simp only [ControlUnit.getAluSignal, hopcode]
  obtain ⟨flag, halu⟩ := execute_address hsignal (Instr.iType_rs1 ..)
    (operand_iType (.inr (.inl rfl)) v.core.registers imm)
  have hload : IntegerCycle.load v.core.memory w (v.address rs1 imm) =
      .ok (op.extend (v.core.memory.load (v.address rs1 imm) 64 op.bytes)) := by
    rw [IntegerCycle.load, if_pos hopcode, hfunct3]
    exact op.loadValue_eq 0 hrange
  have hstore : IntegerCycle.store v.core.memory v.core.registers w (v.address rs1 imm) =
      .ok (v.core.memory, .none) := by
    simp [IntegerCycle.store, hopcode]
  have hnext : IntegerCycle.nextPc v.core.programCounter w (v.address rs1 imm) =
      v.core.programCounter + 4 := by
    simp [IntegerCycle.nextPc, hopcode]
  obtain ⟨changes, hrun⟩ := IntegerCycle.run_eq (a := v.core.arch) halu hload hstore
  have hvalue (loaded : Word) : IntegerCycle.value v.core.programCounter w (v.address rs1 imm)
      loaded = some loaded := by
    simp only [IntegerCycle.value, hopcode]
  have hrd : w.rd = rd := Instr.iType_rd ..
  obtain ⟨v', h⟩ := stepsTo_of_run fpu hword hint hin hrun hnext
  refine ⟨v', h.step, ?_, h.memory, h.programCounter, h.programSize⟩
  rw [h.registers]
  show IntegerCycle.writeRd v.core.registers w (IntegerCycle.value v.core.programCounter w _ _) = _
  rw [hvalue, IntegerCycle.writeRd, hrd]

theorem stepsTo_store {op : StoreOp} (hword : v.nextWord = .ok (op.word rs2 rs1 imm))
    (hin : v.core.programCounter < v.programSize)
    (hrange : v.core.memory.InRange (v.address rs1 imm) op.bytes) :
    ∃ v', StepsTo fpu v v.core.registers
      (v.core.memory.store (v.address rs1 imm) (v.core.registers.readGpr rs2) op.bytes) v' := by
  let w := op.word rs2 rs1 imm
  have hopcode : w.opcode = 0b0100011#7 := Instr.sType_opcode ..
  have hint : isIntegerWord w = true := by
    simp [isIntegerWord, hopcode]
  have hsignal : ControlUnit.getAluSignal w = .kAdd := by
    simp only [ControlUnit.getAluSignal, hopcode]
  obtain ⟨flag, halu⟩ := execute_address hsignal (Instr.sType_rs1 ..)
    (operand_sType v.core.registers imm)
  have hload : IntegerCycle.load v.core.memory w (v.address rs1 imm) = .ok 0 := by
    simp [IntegerCycle.load, hopcode]
  obtain ⟨stored, hvalue⟩ := op.storeValue_eq (v.core.registers.readGpr rs2) hrange
  have hstore : IntegerCycle.store v.core.memory v.core.registers w (v.address rs1 imm) =
      .ok (v.core.memory.store (v.address rs1 imm) (v.core.registers.readGpr rs2) op.bytes,
        stored) := by
    rw [IntegerCycle.store, if_pos hopcode, show w.funct3 = op.funct3 from Instr.sType_funct3 ..,
      show w.rs2 = rs2 from Instr.sType_rs2 ..]
    exact hvalue
  have hnext : IntegerCycle.nextPc v.core.programCounter w (v.address rs1 imm) =
      v.core.programCounter + 4 := by
    simp [IntegerCycle.nextPc, hopcode]
  have hnone : IntegerCycle.value v.core.programCounter w (v.address rs1 imm) 0 = none := by
    simp [IntegerCycle.value, hopcode]
  obtain ⟨changes, hrun⟩ := IntegerCycle.run_eq (a := v.core.arch) halu hload hstore
  obtain ⟨v', h⟩ := stepsTo_of_run fpu hword hint hin hrun hnext
  refine ⟨v', h.step, ?_, h.memory, h.programCounter, h.programSize⟩
  rw [h.registers]
  show IntegerCycle.writeRd v.core.registers w (IntegerCycle.value v.core.programCounter w _ _) = _
  rw [hnone, IntegerCycle.writeRd]

end Vm

/-- A load into `rd` or a store of `rs2`. -/
inductive AccessOp where
  | load (op : LoadOp) (rd : RegIndex)
  | store (op : StoreOp) (rs2 : RegIndex)
  deriving DecidableEq, Repr

namespace AccessOp

def word (op : AccessOp) (rs1 : RegIndex) (imm : BitVec 12) : Instr :=
  match op with
  | load op rd => op.word rd rs1 imm
  | store op rs2 => op.word rs2 rs1 imm

def bytes : AccessOp → Nat
  | load op _ => op.bytes
  | store op _ => op.bytes

/-- The registers after the access at `address`. -/
def registers (op : AccessOp) (v : Vm) (address : Word) (key : RegisterKey) : Word :=
  match op with
  | load op rd =>
    if key = .gpr rd ∧ rd ≠ 0 then op.extend (v.core.memory.load address 64 op.bytes)
    else v.core.registers.read key
  | store _ _ => v.core.registers.read key

/-- The byte at `x` after the access at `address`. -/
def byte (op : AccessOp) (v : Vm) (address x : Word) : Byte :=
  match op with
  | load _ _ => v.core.memory.byte x
  | store op rs2 =>
    if (x - address).toNat < op.bytes then
      (v.core.registers.readGpr rs2 >>> (8 * (x - address).toNat)).setWidth 8
    else v.core.memory.byte x

/-- A load that follows a store to the same address and of the same width extends the
bytes of the stored register. -/
def ReadsBack (fpu : Fpu) (v : Vm) (address : Word) (v' : Vm) (op : AccessOp) : Prop :=
  match op with
  | load _ _ => True
  | store op rs2 => ∀ (again : LoadOp) (rd rs1 : RegIndex) (imm : BitVec 12),
    again.bytes = op.bytes → v'.nextWord = .ok (again.word rd rs1 imm) →
    v'.address rs1 imm = address → v'.core.programCounter < v'.programSize →
    ∃ v'', v'.step fpu = .ok v'' ∧ v''.core.registers =
      v'.core.registers.writeGpr rd (again.extend (v.core.registers.readGpr rs2))

theorem readsBack {fpu : Fpu} {v v' : Vm} {address : Word} {op : StoreOp} {rs2 : RegIndex}
    (hrange : v.core.memory.InRange address op.bytes)
    (hmemory : v'.core.memory = v.core.memory.store address (v.core.registers.readGpr rs2) op.bytes) :
    ReadsBack fpu v address v' (store op rs2) := by
  intro again rd rs1 imm hbytes hword haddress hin
  have hrange' : v'.core.memory.InRange (v'.address rs1 imm) again.bytes := by
    rw [hmemory, haddress, hbytes]
    exact hrange
  obtain ⟨v'', h⟩ := Vm.stepsTo_load fpu hword hin hrange'
  have hextend : again.extend (v'.core.memory.load (v'.address rs1 imm) 64 again.bytes) =
      again.extend (v.core.registers.readGpr rs2) := by
    apply again.extend_congr
    rw [hmemory, haddress, hbytes]
    exact Memory.load_store _ _ _ op.bytes_le
  exact ⟨v'', h.step, by rw [h.registers, hextend]⟩

end AccessOp

namespace Vm

variable (fpu : Fpu) {v : Vm}

/-- `Step` on a load or a store in range. -/
theorem step_access {op : AccessOp} {rs1 : RegIndex} {imm : BitVec 12}
    (hword : v.nextWord = .ok (op.word rs1 imm)) (hin : v.core.programCounter < v.programSize)
    (hrange : v.core.memory.InRange (v.address rs1 imm) op.bytes) :
    ∃ v', v.step fpu = .ok v' ∧ v'.core.programCounter = v.core.programCounter + 4 ∧
      (∀ key, v'.core.registers.read key = op.registers v (v.address rs1 imm) key) ∧
      v'.core.memory.size = v.core.memory.size ∧
      (∀ x, v'.core.memory.byte x = op.byte v (v.address rs1 imm) x) ∧
      op.ReadsBack fpu v (v.address rs1 imm) v' := by
  cases op with
  | load op rd =>
    obtain ⟨v', h⟩ := stepsTo_load fpu hword hin hrange
    refine ⟨v', h.step, h.programCounter, fun key => ?_, congrArg Memory.size h.memory,
      fun x => congrArg (Memory.byte · x) h.memory, trivial⟩
    rw [h.registers]
    show (v.core.registers.write (.gpr rd) _).read key = _
    rw [RegisterFile.read_write]
    simp only [AccessOp.registers, ne_eq, RegisterKey.gpr.injEq, eq_comm]
  | store op rs2 =>
    obtain ⟨v', h⟩ := stepsTo_store fpu hword hin hrange
    refine ⟨v', h.step, h.programCounter, fun key => ?_, ?_, fun x => ?_,
      AccessOp.readsBack hrange h.memory⟩
    · rw [h.registers]
      rfl
    · rw [h.memory, Memory.store_size]
    · rw [h.memory]
      rfl

/-- `sh x3, -2(x2)` with the address in `x2`. -/
theorem step_access_sh :
    let v := holding [(AccessOp.store .sh 3).word 2 (-2)]
      ((RegisterFile.reset.writeGpr 2 0x801).writeGpr 3 0x18001)
    ∃ v', v.step .zero = .ok v' ∧ v'.core.programCounter = v.core.programCounter + 4 ∧
      (∀ key, v'.core.registers.read key = v.core.registers.read key) ∧
      v'.core.memory.size = v.core.memory.size ∧
      (∀ x, v'.core.memory.byte x = (AccessOp.store .sh 3).byte v 0x7ff x) ∧
      (AccessOp.store .sh 3).ReadsBack .zero v 0x7ff v' := by
  have haddress : (holding [(AccessOp.store .sh 3).word 2 (-2)]
      ((RegisterFile.reset.writeGpr 2 0x801).writeGpr 3 0x18001)).address 2 (-2) = 0x7ff := by
    decide
  have h := step_access .zero (holding_nextWord ((AccessOp.store .sh 3).word 2 (-2))
      ((RegisterFile.reset.writeGpr 2 0x801).writeGpr 3 0x18001)) (holding_inside ..)
    (show _ + _ ≤ _ by rw [haddress]; decide)
  rw [haddress] at h
  exact h

end Vm

end RiscvSim
