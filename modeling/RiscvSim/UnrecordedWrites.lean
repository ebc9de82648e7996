import Mathlib
import RiscvSim.History
import RiscvSim.UndoLog

/-! Undo of floating-point and CSR instructions. `ExecuteFloat` and `WriteBackCsr` write
registers without recording the change, so such a step is undone exactly when these
writes change nothing or a waiting change covers them. -/

namespace RiscvSim

/-- CSRRW, CSRRS, CSRRC and their immediate forms. -/
def isCsrWord (w : Instr) : Bool :=
  w.opcode == 0b1110011#7 && w.funct3 != 0b000#3 && w.funct3 != 0b100#3

/-- The fused multiply-add opcodes, which the decoder does not treat as floating point. -/
def isFusedWord (w : Instr) : Bool :=
  w.opcode == 0b1000011#7 || w.opcode == 0b1000111#7 || w.opcode == 0b1001011#7 ||
    w.opcode == 0b1001111#7

def isFloatOrCsrWord (w : Instr) : Bool :=
  isCsrWord w || isFInstruction w || isDInstruction w || isFusedWord w

namespace FloatCycle

variable (fpu : Fpu) (c : Core) (w : Instr)

/-- What the unit answers to a single-precision instruction: the result and the flags. -/
def single : Word × Byte :=
  let o := (decoded c w).fpOperands 0b1101000#7 0b1111000#7 true
  (fpu.fpexecute (ControlUnit.getAluSignal w) o.reg1Value o.reg2Value o.reg3Value o.rm
    c.hostRound).1

def double : Word × Bool :=
  let o := (decoded c w).fpOperands 0b1101001#7 0b1111001#7 false
  (fpu.dfpexecute (ControlUnit.getAluSignal w) o.reg1Value o.reg2Value o.reg3Value o.rm
    c.hostRound).1

def result : Word := if isFInstruction w then (single fpu c w).1 else (double fpu c w).1

/-- The value that a CSR instruction stores in its CSR, if it stores one. -/
def csrNew (r : RegisterFile) : Option Word :=
  let old := r.readCsr w.csr
  let source := r.readGpr w.rs1
  let uimm : Word := w.rs1.setWidth 64
  match w.funct3 with
  | 0b001#3 => some source
  | 0b010#3 => if source ≠ 0 then some (old ||| source) else none
  | 0b011#3 => if source ≠ 0 then some (old &&& ~~~source) else none
  | 0b101#3 => some uimm
  | 0b110#3 => if uimm ≠ 0 then some (old ||| uimm) else none
  | 0b111#3 => if uimm ≠ 0 then some (old &&& ~~~uimm) else none
  | _ => none

/-- The registers after the writes that no change records. -/
def unrecorded : RegisterFile :=
  if isCsrWord w then
    let registers := c.registers.writeGpr w.rd (c.registers.readCsr w.csr)
    match csrNew w c.registers with
    | some value => registers.writeCsr w.csr value
    | none => registers
  else if isFInstruction w then c.registers.writeCsr 0x003 ((single fpu c w).2.setWidth 64)
  else c.registers

/-- `WriteBack` writes a register and records the change. -/
def writes : Bool :=
  (isFInstruction w || isDInstruction w) && (ControlUnit.setControlSignals w).regWrite

/-- The comparisons, conversions and moves whose result goes to an integer register. -/
def toGpr : Bool :=
  if isFInstruction w then
    w.funct7 == 0b1010000#7 || w.funct7 == 0b1100000#7 || w.funct7 == 0b1110000#7
  else w.funct7 == 0b1010001#7 || w.funct7 == 0b1100001#7 || w.funct7 == 0b1110001#7

def destination : RegisterKey := if toGpr w then .gpr w.rd else .fpr w.rd

def loaded : Word :=
  if isFInstruction w then (c.memory.load (result fpu c w) 32 4).setWidth 64
  else c.memory.load (result fpu c w) 64 8

/-- The value for the destination. -/
def written : Word :=
  if toGpr w = false ∧ w.opcode = 0b0000111#7 then loaded fpu c w else result fpu c w

/-- The instruction changes the register and records it. -/
def Records (key : RegisterKey) : Prop :=
  writes w = true ∧ destination w = key ∧ written fpu c w ≠ c.registers.read key

def storeSize : Nat := if isFInstruction w then 4 else 8

/-- The memory after the store of a floating-point instruction, if it is one. -/
def stored : Memory :=
  if (ControlUnit.setControlSignals w).memWrite then
    if isFInstruction w then
      c.memory.store (result fpu c w) ((c.registers.readFpr w.rs2).setWidth 32 : BitVec 32) 4
    else if isDInstruction w then c.memory.store (result fpu c w) (c.registers.readFpr w.rs2) 8
    else c.memory
  else c.memory

/-- The byte belongs to a store that changes the memory, and is recorded with it. -/
def Overwrites (x : Word) : Prop :=
  stored fpu c w ≠ c.memory ∧ (x - result fpu c w).toNat < storeSize w

end FloatCycle

open FloatCycle

/-- What a step does to the memory and records of it. -/
def MemoryEffect (fpu : Fpu) (c : Core) (w : Instr) (changes : List MemoryChange) : Prop :=
  (stored fpu c w = c.memory ∧ changes = []) ∨
    ∃ new, changes = [⟨result fpu c w, c.memory.bytesAt (result fpu c w) (storeSize w), new⟩] ∧
      stored fpu c w ≠ c.memory ∧
      c.memory.DiffersAt (stored fpu c w) (result fpu c w) (storeSize w) ∧
      ∀ i < storeSize w, result fpu c w + BitVec.ofNat 64 i < c.memory.size

/-- What a floating-point or CSR instruction does and what it records of it. -/
structure Effect (fpu : Fpu) (c : Core) (w : Instr) (c' : Core) (changes : Changes) : Prop where
  old : ∀ e ∈ changes.registerChanges, e.oldValue = c.registers.read e.key
  recorded : ∀ key, key ≠ .gpr 0 →
    ((∃ e ∈ changes.registerChanges, e.key = key) ↔ Records fpu c w key)
  kept : ∀ key, key ≠ .gpr 0 → ¬ Records fpu c w key →
    c'.registers.read key = (unrecorded fpu c w).read key
  memory : c'.memory = stored fpu c w
  memoryChanges : MemoryEffect fpu c w changes.memoryChanges
  notBusy : c'.busy = false

theorem read_gpr_zero (r : RegisterFile) : r.read (.gpr 0) = 0 := rfl

/-- A recorded store, with its bytes before. -/
theorem storeRecorded_eq_ok {m m' : Memory} {address : Word} {n : Nat}
    {write : Memory → Except Fault Memory} {changes : Changes}
    (h : Core.storeRecorded m address n write = .ok (m', changes)) :
    write m = .ok m' ∧ (∀ i < n, address + BitVec.ofNat 64 i < m.size) ∧
      changes = .ofMemory address (m.bytesAt address n) (m'.bytesAt address n) := by
  obtain ⟨oldBytes, hold, h⟩ := Loop.bind_eq_ok h
  obtain ⟨m₁, hm₁, h⟩ := Loop.bind_eq_ok h
  obtain ⟨newBytes, hnew, h⟩ := Loop.bind_eq_ok h
  injection h with h
  injection h with hm hchanges
  subst hm hchanges
  obtain ⟨hin, rfl⟩ := Memory.readBytes_eq_ok_iff.mp hold
  obtain ⟨-, rfl⟩ := Memory.readBytes_eq_ok_iff.mp hnew
  exact ⟨hm₁, hin, rfl⟩

/-- A store changes the memory exactly when it changes one of its bytes. -/
theorem bytesAt_eq_iff {m m' : Memory} {address : Word} {n : Nat} (h : m.DiffersAt m' address n) :
    m.bytesAt address n = m'.bytesAt address n ↔ m' = m := by
  constructor
  · intro hbytes
    rw [← h.overwrite, hbytes, Memory.DiffersAt.overwrite ⟨rfl, fun _ _ => rfl⟩]
  · rintro rfl
    rfl

section

variable {fpu : Fpu} {c c₂ c₃ : Core} {w : Instr} {stored' : Changes}

theorem isCsrWord_false (hfp : (isFInstruction w || isDInstruction w) = true) :
    isCsrWord w = false := by
  by_contra hcsr
  have hop : w.opcode = 0b1110011#7 := by
    simp only [isCsrWord, Bool.not_eq_false, Bool.and_eq_true, beq_iff_eq] at hcsr
    exact hcsr.1.1
  simp [isFInstruction, isDInstruction, hop] at hfp

/-- The unrecorded write of a floating-point instruction goes to a CSR. -/
theorem unrecorded_destination (hfp : (isFInstruction w || isDInstruction w) = true) :
    (unrecorded fpu c w).read (destination w) = c.registers.read (destination w) := by
  rw [unrecorded, isCsrWord_false hfp]
  have hwrite (x : Word) : (c.registers.writeCsr 0x003 x).read (destination w) =
      c.registers.read (destination w) := by
    have hread := c.registers.read_write (.csr 0x003) (destination w) x
    rw [if_neg (by unfold destination; split <;> simp)] at hread
    exact hread
  cases isFInstruction w with
  | true => exact hwrite _
  | false => rfl

/-- The register that `WriteBack` writes for a floating-point instruction. -/
theorem writeBackFp_effect (hword : c₃.currentInstruction = w)
    (hcontrol : c₃.controlUnit = .setControlSignals w)
    (hregisters : c₃.registers = unrecorded fpu c w) (hfp : (isFInstruction w || isDInstruction w) = true)
    (hresult : c₃.executionResult = result fpu c w)
    (hloaded : w.opcode = 0b0000111#7 → c₃.memoryResult = loaded fpu c w) :
    (∀ e ∈ (c₃.writeBackFp (toGpr w)).2.registerChanges, e.oldValue = c.registers.read e.key) ∧
    (∀ key, (∃ e ∈ (c₃.writeBackFp (toGpr w)).2.registerChanges, e.key = key) ↔
      Records fpu c w key) ∧
    (∀ key, key ≠ .gpr 0 → ¬ Records fpu c w key →
      (c₃.writeBackFp (toGpr w)).1.registers.read key = (unrecorded fpu c w).read key) ∧
    (c₃.writeBackFp (toGpr w)).2.memoryChanges = [] := by
  have hsame : (unrecorded fpu c w).read (destination w) = c.registers.read (destination w) :=
    unrecorded_destination hfp
  have hvalue : c₃.writeBackFp (toGpr w) =
      if (ControlUnit.setControlSignals w).regWrite then
        ({ c₃ with registers := (unrecorded fpu c w).write (destination w) (written fpu c w) },
          .ofRegister (destination w) (c.registers.read (destination w)) (written fpu c w))
      else (c₃, .none) := by
    rw [Core.writeBackFp, hword, hcontrol, hregisters]
    cases hreg : (ControlUnit.setControlSignals w).regWrite with
    | false => rfl
    | true =>
      rw [← hsame]
      cases hgpr : toGpr w with
      | true => simp [destination, written, hgpr, RegisterFile.write, RegisterFile.read, hresult]
      | false =>
        by_cases hop : w.opcode = 0b0000111#7
        · simp [destination, written, hgpr, hop, RegisterFile.write, RegisterFile.read, hloaded hop]
        · simp [destination, written, hgpr, hop, RegisterFile.write, RegisterFile.read, hresult]
  rw [hvalue]
  have hwrites : writes w = (ControlUnit.setControlSignals w).regWrite := by
    rw [writes, hfp, Bool.true_and]
  cases hreg : (ControlUnit.setControlSignals w).regWrite with
  | false =>
    rw [hreg] at hwrites
    have hnone (key : RegisterKey) : ¬ Records fpu c w key := by
      rintro ⟨h, -⟩
      cases hwrites.symm.trans h
    refine ⟨by simp [Changes.none], fun key => ?_, fun key _ _ => ?_, rfl⟩
    · simp [Changes.none, hnone key]
    · simp only [Bool.false_eq_true, if_false, hregisters]
  | true =>
    rw [hreg] at hwrites
    rw [if_pos rfl]
    by_cases hchange : c.registers.read (destination w) = written fpu c w
    · -- nothing is recorded, and nothing has changed
      rw [Changes.ofRegister, if_neg (by simpa using hchange)]
      have hnone (key : RegisterKey) : ¬ Records fpu c w key := by
        rintro ⟨-, rfl, h⟩
        exact h hchange.symm
      refine ⟨by simp [Changes.none], fun key => ?_, fun key _ _ => ?_, rfl⟩
      · simp [Changes.none, hnone key]
      · dsimp only
        rw [RegisterFile.read_write]
        split
        · rename_i h
          rw [← h.1, hsame, hchange]
        · rfl
    · rw [Changes.ofRegister, if_pos hchange]
      refine ⟨?_, fun key => ?_, fun key hzero hkey => ?_, rfl⟩
      · simp
      · simp only [List.mem_singleton, exists_eq_left, Records, hwrites, true_and]
        constructor
        · rintro rfl
          exact ⟨rfl, fun h => hchange h.symm⟩
        · exact fun h => h.1
      · dsimp only
        rw [RegisterFile.read_write, if_neg]
        rintro ⟨rfl, -⟩
        exact hkey ⟨hwrites, rfl, fun h => hchange h.symm⟩

theorem memoryEffect_of_store {m' : Memory} {changes : Changes} {write : Memory → Except Fault Memory}
    (h : Core.storeRecorded c.memory (result fpu c w) (storeSize w) write = .ok (m', changes))
    (hwrite : write c.memory = .ok m' → m' = stored fpu c w)
    (hdiffers : c.memory.DiffersAt (stored fpu c w) (result fpu c w) (storeSize w)) :
    m' = stored fpu c w ∧ MemoryEffect fpu c w changes.memoryChanges ∧
      changes.registerChanges = [] := by
  obtain ⟨hm, hin, rfl⟩ := storeRecorded_eq_ok h
  obtain rfl := hwrite hm
  refine ⟨rfl, ?_, ofMemory_registerChanges _ _ _⟩
  rw [Changes.ofMemory]
  by_cases hsame : stored fpu c w = c.memory
  · rw [if_neg (by simpa using (bytesAt_eq_iff hdiffers).mpr hsame)]
    exact .inl ⟨hsame, rfl⟩
  · rw [if_pos (mt (bytesAt_eq_iff hdiffers).mp hsame)]
    exact .inr ⟨_, rfl, hsame, hdiffers, hin⟩

/-- The memory stage of a floating-point instruction. -/
structure MemoryStage (fpu : Fpu) (c : Core) (w : Instr) (c₂ c₃ : Core) (changes : Changes) :
    Prop where
  frame : c₃ = { c₂ with memory := stored fpu c w, memoryResult := c₃.memoryResult }
  loaded : w.opcode = 0b0000111#7 → c₃.memoryResult = loaded fpu c w
  effect : MemoryEffect fpu c w changes.memoryChanges
  registers : changes.registerChanges = []

theorem memRead_load (h : w.opcode = 0b0000111#7) :
    (ControlUnit.setControlSignals w).memRead = true := by
  simp [ControlUnit.setControlSignals, h]

theorem writeMemoryFloat_stage (hF : isFInstruction w = true) (hword : c₂.currentInstruction = w)
    (hcontrol : c₂.controlUnit = .setControlSignals w) (hmemory : c₂.memory = c.memory)
    (hfpr : ∀ r, c₂.registers.readFpr r = c.registers.readFpr r)
    (hresult : c₂.executionResult = result fpu c w)
    (h : c₂.writeMemoryFloat = .ok (c₃, stored')) : MemoryStage fpu c w c₂ c₃ stored' := by
  have hsize : storeSize w = 4 := by rw [storeSize, if_pos hF]
  unfold Core.writeMemoryFloat at h
  rw [hword, hcontrol, hmemory, hfpr, hresult] at h
  obtain ⟨x, hx, h⟩ := Loop.bind_eq_ok h
  have hloaded : w.opcode = 0b0000111#7 → x = loaded fpu c w := by
    intro hop
    rw [Core.readResult, hcontrol, if_pos (memRead_load hop)] at hx
    obtain ⟨y, hy, hx⟩ := Loop.bind_eq_ok hx
    obtain ⟨-, rfl⟩ := Memory.readWord_eq_ok_iff.mp hy
    rw [← Except.ok.inj hx, loaded, if_pos hF]
  cases hwrite : (ControlUnit.setControlSignals w).memWrite with
  | false =>
    rw [hwrite, if_neg (by decide)] at h
    injection h with h
    injection h with hc hs
    subst hc hs
    have hstored : stored fpu c w = c.memory := by rw [stored, hwrite]; rfl
    exact ⟨by simp [hword, hcontrol, hresult, hstored], hloaded, .inl ⟨hstored, rfl⟩, rfl⟩
  | true =>
    rw [hwrite, if_pos rfl] at h
    obtain ⟨⟨m', changes⟩, hstore, h⟩ := Loop.bind_eq_ok h
    injection h with h
    injection h with hc hs
    subst hc hs
    have hstored : stored fpu c w = c.memory.store (result fpu c w)
        ((c.registers.readFpr w.rs2).setWidth 32 : BitVec 32) 4 := by
      rw [stored, hwrite, if_pos rfl, if_pos hF]
    rw [← hsize] at hstore
    obtain ⟨rfl, heffect, hnone⟩ := memoryEffect_of_store hstore
      (fun hm => ((Memory.writeWord_eq_ok_iff.mp hm).2.symm.trans hstored.symm))
      (hstored ▸ hsize ▸ store_differsAt ..)
    exact ⟨by simp [hword, hcontrol, hresult], hloaded, heffect, hnone⟩

theorem writeMemoryDouble_stage (hF : isFInstruction w = false) (hD : isDInstruction w = true)
    (hword : c₂.currentInstruction = w) (hcontrol : c₂.controlUnit = .setControlSignals w)
    (hmemory : c₂.memory = c.memory)
    (hfpr : ∀ r, c₂.registers.readFpr r = c.registers.readFpr r)
    (hresult : c₂.executionResult = result fpu c w)
    (h : c₂.writeMemoryDouble = .ok (c₃, stored')) : MemoryStage fpu c w c₂ c₃ stored' := by
  have hsize : storeSize w = 8 := by rw [storeSize, if_neg (by simp [hF])]
  unfold Core.writeMemoryDouble at h
  rw [hword, hcontrol, hmemory, hfpr, hresult] at h
  obtain ⟨x, hx, h⟩ := Loop.bind_eq_ok h
  have hloaded : w.opcode = 0b0000111#7 → x = loaded fpu c w := by
    intro hop
    rw [Core.readResult, hcontrol, if_pos (memRead_load hop)] at hx
    obtain ⟨-, rfl⟩ := Memory.readDoubleWord_eq_ok_iff.mp hx
    rw [loaded, if_neg (by simp [hF])]
  cases hwrite : (ControlUnit.setControlSignals w).memWrite with
  | false =>
    rw [hwrite, if_neg (by decide)] at h
    injection h with h
    injection h with hc hs
    subst hc hs
    have hstored : stored fpu c w = c.memory := by rw [stored, hwrite]; rfl
    exact ⟨by simp [hword, hcontrol, hresult, hstored], hloaded, .inl ⟨hstored, rfl⟩, rfl⟩
  | true =>
    rw [hwrite, if_pos rfl] at h
    obtain ⟨⟨m', changes⟩, hstore, h⟩ := Loop.bind_eq_ok h
    injection h with h
    injection h with hc hs
    subst hc hs
    have hstored : stored fpu c w =
        c.memory.store (result fpu c w) (c.registers.readFpr w.rs2) 8 := by
      rw [stored, hwrite, if_pos rfl, if_neg (by simp [hF]), if_pos hD]
    rw [← hsize] at hstore
    obtain ⟨rfl, heffect, hnone⟩ := memoryEffect_of_store hstore
      (fun hm => ((Memory.writeDoubleWord_eq_ok_iff.mp hm).2.symm.trans hstored.symm))
      (hstored ▸ hsize ▸ store_differsAt ..)
    exact ⟨by simp [hword, hcontrol, hresult], hloaded, heffect, hnone⟩

/-- An instruction that writes no memory and records nothing. -/
theorem effect_of_unrecorded {c' : Core} (hfp : writes w = false)
    (hstored : stored fpu c w = c.memory) (hregisters : c'.registers = unrecorded fpu c w)
    (hmemory : c'.memory = c.memory) (hbusy : c'.busy = false) {changes : Changes}
    (hnone : changes.registerChanges = []) (hnone' : changes.memoryChanges = []) :
    Effect fpu c w c' changes where
  old := by rw [hnone]; exact nofun
  recorded key _ := by
    rw [hnone]
    exact ⟨nofun, fun h => nomatch hfp.symm.trans h.1⟩
  kept key _ _ := by rw [hregisters]
  memory := hmemory.trans hstored.symm
  memoryChanges := .inl ⟨hstored, hnone'⟩
  notBusy := hbusy

/-- An instruction that records one memory effect and the write of its destination. -/
theorem effect_of_stages {c' : Core} {changes : Changes}
    (hword : c₂.currentInstruction = w) (hcontrol : c₂.controlUnit = .setControlSignals w)
    (hregisters : c₂.registers = unrecorded fpu c w)
    (hfp : (isFInstruction w || isDInstruction w) = true)
    (hresult : c₂.executionResult = result fpu c w)
    (hstage : MemoryStage fpu c w c₂ c₃ stored')
    (hc' : c'.registers = (c₃.writeBackFp (toGpr w)).1.registers)
    (hmemory : c'.memory = c₃.memory) (hbusy : c'.busy = false)
    (hchanges : changes = Changes.none ++ stored' ++ (c₃.writeBackFp (toGpr w)).2) :
    Effect fpu c w c' changes := by
  have hframe := hstage.frame
  have hword₃ : c₃.currentInstruction = w := by rw [hframe, hword]
  have hcontrol₃ : c₃.controlUnit = .setControlSignals w := by rw [hframe, hcontrol]
  have hregisters₃ : c₃.registers = unrecorded fpu c w := by rw [hframe, hregisters]
  have hresult₃ : c₃.executionResult = result fpu c w := by rw [hframe, hresult]
  obtain ⟨hold, hrecorded, hkept, hnone⟩ :=
    writeBackFp_effect hword₃ hcontrol₃ hregisters₃ hfp hresult₃ hstage.loaded
  have hregister : changes.registerChanges = (c₃.writeBackFp (toGpr w)).2.registerChanges := by
    rw [hchanges, Changes.append_registerChanges, Changes.none_append, hstage.registers,
      List.nil_append]
  have hstores : changes.memoryChanges = stored'.memoryChanges := by
    rw [hchanges, Changes.append_memoryChanges, Changes.none_append, hnone, List.append_nil]
  exact
    { old := hregister ▸ hold
      recorded := fun key _ => hregister ▸ hrecorded key
      kept := fun key hzero hkey => by rw [hc', hkept key hzero hkey]
      memory := by rw [hmemory, hframe]
      memoryChanges := hstores ▸ hstage.effect
      notBusy := hbusy }

end

section

variable {fpu : Fpu} {c c' : Core} {w : Instr} {changes : Changes}

theorem notCustom (hkind : isFloatOrCsrWord w = true) :
    w.opcode ≠ 0b0101010#7 ∧ w.opcode ≠ 0b0111111#7 := by
  constructor
  · intro hop
    simp [isFloatOrCsrWord, isCsrWord, isFInstruction, isDInstruction, isFusedWord, hop] at hkind
  · intro hop
    simp [isFloatOrCsrWord, isCsrWord, isFInstruction, isDInstruction, isFusedWord, hop] at hkind

theorem notSystem (hfp : (isFInstruction w || isDInstruction w) = true) :
    w.opcode ≠ 0b1110011#7 := by
  intro hop
  simp [isFInstruction, isDInstruction, hop] at hfp

theorem fetchCycle_effect_float (hw : c.memory.readWord c.programCounter = .ok w)
    (hF : isFInstruction w = true) (h : c.fetchCycle fpu = .ok (c', changes)) :
    Effect fpu c w c' changes := by
  have hfp : (isFInstruction w || isDInstruction w) = true := by rw [hF, Bool.true_or]
  have hsystem := notSystem hfp
  obtain ⟨hldbm, hbigmul⟩ := notCustom (w := w) (by simp [isFloatOrCsrWord, hF])
  have hbusy := fetchCycle_other hw hldbm hbigmul h
  obtain ⟨w', c₁, c₂, c₃, executed, stored', hw', hdecode, hexec, hmem, rfl, rfl⟩ :=
    fetchCycle_stages h
  obtain rfl : w = w' := Except.ok.inj (hw.symm.trans hw')
  rw [decode_other hldbm hbigmul] at hdecode
  obtain rfl := Except.ok.inj hdecode
  change (decoded c w).execute fpu = _ at hexec
  have hexecute : (decoded c w).execute fpu = .ok ((decoded c w).executeFloat fpu, .none) := by
    have hword : (decoded c w).currentInstruction = w := rfl
    simp only [Core.execute, hword, hsystem, hF, false_and, if_false, if_true]
    rfl
  rw [hexecute] at hexec
  injection hexec with hexec
  injection hexec with hc₂ hexecuted
  subst hc₂ hexecuted
  have hstart := setControlSignals_ldbmStart hldbm
  have hfloat : ((decoded c w).executeFloat fpu).writeMemory =
      ((decoded c w).executeFloat fpu).writeMemoryFloat := by
    have hword : ((decoded c w).executeFloat fpu).currentInstruction = w := rfl
    have hcontrol : ((decoded c w).executeFloat fpu).controlUnit = .setControlSignals w := rfl
    simp only [Core.writeMemory, hword, hcontrol, hstart, hsystem, hF, false_and, if_false, if_true,
      Bool.false_eq_true]
  rw [hfloat] at hmem
  have hregisters : ((decoded c w).executeFloat fpu).registers = unrecorded fpu c w := by
    rw [unrecorded, isCsrWord_false hfp, if_neg (by simp), if_pos hF]
    rfl
  have hresult : ((decoded c w).executeFloat fpu).executionResult = result fpu c w := by
    rw [result, if_pos hF]
    rfl
  have hstage : MemoryStage fpu c w ((decoded c w).executeFloat fpu) c₃ stored' :=
    writeMemoryFloat_stage hF rfl rfl rfl (fun _ => rfl) hresult hmem
  have hback : c₃.writeBack = c₃.writeBackFp (toGpr w) := by
    have hword : c₃.currentInstruction = w := by rw [hstage.frame]; rfl
    simp only [Core.writeBack, Core.writeBackFloat, toGpr, hword, hsystem, hF, false_and, if_false,
      if_true]
  rw [hback] at hbusy ⊢
  refine effect_of_stages rfl rfl hregisters hfp hresult hstage rfl ?_ hbusy rfl
  rw [← hback, writeBack_frame]

theorem fetchCycle_effect_double (hw : c.memory.readWord c.programCounter = .ok w)
    (hF : isFInstruction w = false) (hD : isDInstruction w = true)
    (h : c.fetchCycle fpu = .ok (c', changes)) : Effect fpu c w c' changes := by
  have hfp : (isFInstruction w || isDInstruction w) = true := by rw [hD, Bool.or_true]
  have hsystem := notSystem hfp
  obtain ⟨hldbm, hbigmul⟩ := notCustom (w := w) (by simp [isFloatOrCsrWord, hD])
  have hbusy := fetchCycle_other hw hldbm hbigmul h
  obtain ⟨w', c₁, c₂, c₃, executed, stored', hw', hdecode, hexec, hmem, rfl, rfl⟩ :=
    fetchCycle_stages h
  obtain rfl : w = w' := Except.ok.inj (hw.symm.trans hw')
  rw [decode_other hldbm hbigmul] at hdecode
  obtain rfl := Except.ok.inj hdecode
  change (decoded c w).execute fpu = _ at hexec
  have hexecute : (decoded c w).execute fpu = .ok ((decoded c w).executeDouble fpu, .none) := by
    have hword : (decoded c w).currentInstruction = w := rfl
    simp only [Core.execute, hword, hsystem, hF, hD, false_and, if_false, if_true,
      Bool.false_eq_true]
    rfl
  rw [hexecute] at hexec
  injection hexec with hexec
  injection hexec with hc₂ hexecuted
  subst hc₂ hexecuted
  have hstart := setControlSignals_ldbmStart hldbm
  have hdouble : ((decoded c w).executeDouble fpu).writeMemory =
      ((decoded c w).executeDouble fpu).writeMemoryDouble := by
    have hword : ((decoded c w).executeDouble fpu).currentInstruction = w := rfl
    have hcontrol : ((decoded c w).executeDouble fpu).controlUnit = .setControlSignals w := rfl
    simp only [Core.writeMemory, hword, hcontrol, hstart, hsystem, hF, hD, false_and, if_false,
      if_true, Bool.false_eq_true]
  rw [hdouble] at hmem
  have hregisters : ((decoded c w).executeDouble fpu).registers = unrecorded fpu c w := by
    rw [unrecorded, isCsrWord_false hfp, if_neg (by simp), if_neg (by simp [hF])]
    rfl
  have hresult : ((decoded c w).executeDouble fpu).executionResult = result fpu c w := by
    rw [result, if_neg (by simp [hF])]
    rfl
  have hstage : MemoryStage fpu c w ((decoded c w).executeDouble fpu) c₃ stored' :=
    writeMemoryDouble_stage hF hD rfl rfl rfl (fun _ => rfl) hresult hmem
  have hback : c₃.writeBack = c₃.writeBackFp (toGpr w) := by
    have hword : c₃.currentInstruction = w := by rw [hstage.frame]; rfl
    simp only [Core.writeBack, Core.writeBackDouble, toGpr, hword, hsystem, hF, hD, false_and,
      if_false, if_true, Bool.false_eq_true]
  rw [hback] at hbusy ⊢
  refine effect_of_stages rfl rfl hregisters hfp hresult hstage rfl ?_ hbusy rfl
  rw [← hback, writeBack_frame]

/-- Without control signals nothing is loaded or stored. -/
theorem writeMemoryInteger_reset {c : Core} (h : c.controlUnit = .reset) :
    c.writeMemoryInteger = .ok (c, .none) := by
  have hread : c.controlUnit.memRead = false := by rw [h]; rfl
  have hwrite : c.controlUnit.memWrite = false := by rw [h]; rfl
  have hstart : c.controlUnit.bigmulStart = false := by rw [h]; rfl
  simp only [Core.writeMemoryInteger, Core.readResult, hread, hwrite, hstart, Bool.false_eq_true,
    if_false, false_and, Loop.bind_ok]
  rfl

theorem fetchCycle_effect_csr (hw : c.memory.readWord c.programCounter = .ok w)
    (hcsr : isCsrWord w = true) (h : c.fetchCycle fpu = .ok (c', changes)) :
    Effect fpu c w c' changes := by
  have hfields : (w.opcode = 0b1110011#7 ∧ w.funct3 ≠ 0b000#3) ∧ w.funct3 ≠ 0b100#3 := by
    simpa [isCsrWord] using hcsr
  obtain ⟨⟨hop, hecall⟩, hfour⟩ := hfields
  have hF : isFInstruction w = false := by simp [isFInstruction, hop]
  have hD : isDInstruction w = false := by simp [isDInstruction, hop]
  obtain ⟨hldbm, hbigmul⟩ := notCustom (w := w) (by simp [isFloatOrCsrWord, hcsr])
  have hbusy := fetchCycle_other hw hldbm hbigmul h
  obtain ⟨w', c₁, c₂, c₃, executed, stored', hw', hdecode, hexec, hmem, rfl, rfl⟩ :=
    fetchCycle_stages h
  obtain rfl : w = w' := Except.ok.inj (hw.symm.trans hw')
  rw [decode_other hldbm hbigmul] at hdecode
  obtain rfl := Except.ok.inj hdecode
  change (decoded c w).execute fpu = _ at hexec
  have hexecute : (decoded c w).execute fpu = .ok ((decoded c w).executeCsr, .none) := by
    have hword : (decoded c w).currentInstruction = w := rfl
    simp only [Core.execute, hword, hop, hecall, hF, hD, and_false, if_false, if_true,
      Bool.false_eq_true]
    rfl
  rw [hexecute] at hexec
  injection hexec with hexec
  injection hexec with hc₂ hexecuted
  subst hc₂ hexecuted
  have hcontrol : ControlUnit.setControlSignals w = .reset := by
    simp [ControlUnit.setControlSignals, hop]
  have hmemory : (decoded c w).executeCsr.writeMemory = .ok ((decoded c w).executeCsr, .none) := by
    have hword : (decoded c w).executeCsr.currentInstruction = w := rfl
    have hreset : (decoded c w).executeCsr.controlUnit = .reset := hcontrol
    rw [← writeMemoryInteger_reset hreset]
    simp only [Core.writeMemory, hword, hreset, hop, hecall, hF, hD, and_false, if_false,
      Bool.false_eq_true, ControlUnit.reset, false_and]
  rw [hmemory] at hmem
  injection hmem with hmem
  injection hmem with hc₃ hstored
  subst hc₃ hstored
  have hback : (decoded c w).executeCsr.writeBack = ((decoded c w).executeCsr.writeBackCsr, .none) := by
    have hword : (decoded c w).executeCsr.currentInstruction = w := rfl
    simp only [Core.writeBack, hword, hop, hecall, hF, hD, and_false, if_false, if_true,
      Bool.false_eq_true]
  have hregisters : (decoded c w).executeCsr.writeBackCsr.registers = unrecorded fpu c w := by
    have hword : (decoded c w).executeCsr.currentInstruction = w := rfl
    have hnew : (decoded c w).executeCsr.csrNewValue = csrNew w c.registers := rfl
    rw [Core.writeBackCsr, hword, hnew, unrecorded, if_pos hcsr]
    simp only [hecall, hfour, or_self, if_false]
    cases csrNew w c.registers with
    | some value => rfl
    | none => rfl
  have hwrites : writes w = false := by rw [writes, hF, hD]; rfl
  rw [hback] at hbusy ⊢
  refine effect_of_unrecorded hwrites ?_ ?_ ?_ hbusy ?_ ?_
  · simp [stored, hcontrol, ControlUnit.reset]
  · exact hregisters
  · have hframe := writeBack_frame (decoded c w).executeCsr
    rw [hback] at hframe
    dsimp only at hframe ⊢
    rw [hframe]
    rfl
  · rfl
  · rfl

/-- The fused multiply-add instructions do nothing. -/
theorem fetchCycle_effect_fused (hw : c.memory.readWord c.programCounter = .ok w)
    (hfused : isFusedWord w = true) (h : c.fetchCycle fpu = .ok (c', changes)) :
    Effect fpu c w c' changes := by
  have hop : ((w.opcode = 0b1000011#7 ∨ w.opcode = 0b1000111#7) ∨ w.opcode = 0b1001011#7) ∨
      w.opcode = 0b1001111#7 := by simpa [isFusedWord] using hfused
  have hsystem : w.opcode ≠ 0b1110011#7 := by
    rcases hop with ((hop | hop) | hop) | hop <;> simp [hop]
  have hF : isFInstruction w = false := by
    rcases hop with ((hop | hop) | hop) | hop <;> simp [isFInstruction, hop]
  have hD : isDInstruction w = false := by
    rcases hop with ((hop | hop) | hop) | hop <;> simp [isDInstruction, hop]
  have hcsr : isCsrWord w = false := by simp [isCsrWord, hsystem]
  have hcontrol : ControlUnit.setControlSignals w = .reset := by
    rcases hop with ((hop | hop) | hop) | hop <;> simp [ControlUnit.setControlSignals, hop]
  obtain ⟨hldbm, hbigmul⟩ := notCustom (w := w) (by simp [isFloatOrCsrWord, hfused])
  have hplain : PlainWord w := ⟨hsystem, hF, hD, hldbm, hbigmul⟩
  have hbusy := fetchCycle_other hw hldbm hbigmul h
  obtain ⟨w', c₁, c₂, c₃, executed, stored', hw', hdecode, hexec, hmem, rfl, rfl⟩ :=
    fetchCycle_stages h
  obtain rfl : w = w' := Except.ok.inj (hw.symm.trans hw')
  rw [decode_other hldbm hbigmul] at hdecode
  obtain rfl := Except.ok.inj hdecode
  rw [execute_plain hplain] at hexec
  obtain ⟨c₂', hinteger, hexec⟩ := Loop.bind_eq_ok hexec
  injection hexec with hexec
  injection hexec with hc₂ hexecuted
  subst hc₂ hexecuted
  have hframe := executeInteger_frame hinteger
  have hword₂ : c₂'.currentInstruction = w := hframe.currentInstruction
  have hreset : c₂'.controlUnit = .reset := hframe.controlUnit.trans hcontrol
  have hmemory : c₂'.writeMemory = .ok (c₂', .none) := by
    rw [writeMemory_plain (hword₂ ▸ hplain) (by rw [hreset]; rfl), writeMemoryInteger_reset hreset]
  rw [hmemory] at hmem
  injection hmem with hmem
  injection hmem with hc₃ hstored
  subst hc₃ hstored
  have hback : c₂'.writeBack = (c₂', .none) := by
    rw [writeBack_plain (hword₂ ▸ hplain)]
    have hnone : c₂'.integerResult = none := by
      rcases hop with ((hop | hop) | hop) | hop <;> simp [Core.integerResult, hword₂, hop]
    rw [Core.writeBackInteger, hnone]
    dsimp only
    rw [Changes.ofRegister, if_neg (by simp)]
  have hwrites : writes w = false := by rw [writes, hF, hD]; rfl
  rw [hback] at hbusy ⊢
  refine effect_of_unrecorded hwrites ?_ ?_ ?_ hbusy ?_ ?_
  · simp [stored, hcontrol, ControlUnit.reset]
  · rw [unrecorded, hcsr, hF]
    exact hframe.registers
  · exact hframe.memory
  · rfl
  · rfl

/-- What one cycle of a floating-point or CSR instruction does. -/
theorem fetchCycle_effect (hw : c.memory.readWord c.programCounter = .ok w)
    (hkind : isFloatOrCsrWord w = true) (h : c.fetchCycle fpu = .ok (c', changes)) :
    Effect fpu c w c' changes := by
  cases hcsr : isCsrWord w with
  | true => exact fetchCycle_effect_csr hw hcsr h
  | false =>
    cases hF : isFInstruction w with
    | true => exact fetchCycle_effect_float hw hF h
    | false =>
      cases hD : isDInstruction w with
      | true => exact fetchCycle_effect_double hw hF hD h
      | false =>
        refine fetchCycle_effect_fused hw ?_ h
        simpa [isFloatOrCsrWord, hcsr, hF, hD] using hkind

end

namespace Core

/-- The register values that a list of changes writes, in order. -/
def registerLog (value : RegisterChange → Word) (changes : List RegisterChange) :
    List (RegisterKey × Word) :=
  changes.map fun e => (e.key, value e)

/-- The bytes of `bytes` from the address `address + n` on. -/
def bytesLog (address : Word) : Nat → List Byte → List (Word × Byte)
  | _, [] => []
  | n, b :: bytes => (address + BitVec.ofNat 64 n, b) :: bytesLog address (n + 1) bytes

/-- The bytes that a list of changes writes, in order. -/
def byteLog (bytes : MemoryChange → List Byte) (changes : List MemoryChange) :
    List (Word × Byte) :=
  changes.flatMap fun e => bytesLog e.address 0 (bytes e)

theorem read_writeRegisters (value : RegisterChange → Word) (changes : List RegisterChange)
    (r : RegisterFile) {key : RegisterKey} (hkey : key ≠ .gpr 0) :
    (writeRegisters r value changes).read key =
      UndoLog.replay (registerLog value changes) r.read key := by
  induction changes generalizing r with
  | nil => rfl
  | cons e changes ih =>
    change (writeRegisters (r.write e.key (value e)) value changes).read key = _
    rw [ih]
    change _ = UndoLog.replay ((e.key, value e) :: registerLog value changes) r.read key
    rw [UndoLog.replay_cons, UndoLog.replay_apply, UndoLog.replay_apply]
    congr 1
    rw [RegisterFile.read_write, Function.update_apply]
    by_cases h : e.key = key
    · rw [if_pos ⟨h, h ▸ hkey⟩, if_pos h.symm]
    · rw [if_neg fun h' => h h'.1, if_neg (Ne.symm h)]

theorem writeBytes_eq_ok_iff {m m' : Memory} {address : Word} {n : Nat} {bytes : List Byte} :
    m.writeBytes address n bytes = .ok m' ↔
      (∀ e ∈ bytesLog address n bytes, e.1 < m.size) ∧
        { m with byte := UndoLog.replay (bytesLog address n bytes) m.byte } = m' := by
  induction bytes generalizing m n with
  | nil => simp [Memory.writeBytes, bytesLog]
  | cons b bytes ih =>
    simp only [bytesLog, List.forall_mem_cons, UndoLog.replay_cons]
    constructor
    · intro h
      obtain ⟨m₁, hm₁, h⟩ := Loop.bind_eq_ok h
      obtain ⟨hlt, rfl⟩ := Memory.writeByte_eq_ok_iff.mp hm₁
      obtain ⟨hin, rfl⟩ := ih.mp h
      exact ⟨⟨hlt, hin⟩, rfl⟩
    · rintro ⟨⟨hlt, hin⟩, rfl⟩
      rw [Memory.writeBytes, Memory.writeByte_eq_ok_iff.mpr ⟨hlt, rfl⟩, Loop.bind_ok]
      exact ih.mpr ⟨hin, rfl⟩

theorem mem_bytesLog {address : Word} {n : Nat} {bytes : List Byte} {e : Word × Byte} :
    e ∈ bytesLog address n bytes ↔
      ∃ i, bytes[i]? = some e.2 ∧ e.1 = address + BitVec.ofNat 64 (n + i) := by
  induction bytes generalizing n with
  | nil => simp [bytesLog]
  | cons b bytes ih =>
    rw [bytesLog, List.mem_cons, ih]
    constructor
    · rintro (rfl | ⟨i, hi, he⟩)
      · exact ⟨0, rfl, rfl⟩
      · exact ⟨i + 1, hi, by rw [he, Nat.add_assoc, Nat.add_comm 1]⟩
    · rintro ⟨i, hi, he⟩
      cases i with
      | zero => exact .inl (Prod.ext he (Option.some.inj hi).symm)
      | succ i => exact .inr ⟨i, hi, by rw [he, Nat.add_assoc, Nat.add_comm 1]⟩

/-- The log of a saved range holds its bytes. -/
theorem mem_bytesLog_bytesAt {m : Memory} {address : Word} {n : Nat} {e : Word × Byte} :
    e ∈ bytesLog address 0 (m.bytesAt address n) ↔
      ∃ i < n, e = (address + BitVec.ofNat 64 i, m.byte (address + BitVec.ofNat 64 i)) := by
  simp only [mem_bytesLog, Memory.bytesAt, List.getElem?_map, Nat.zero_add]
  constructor
  · rintro ⟨i, hi, he⟩
    by_cases hlt : i < n
    · rw [List.getElem?_range hlt] at hi
      exact ⟨i, hlt, Prod.ext he (Option.some.inj hi).symm⟩
    · rw [List.getElem?_eq_none (by simpa using hlt)] at hi
      cases hi
  · rintro ⟨i, hlt, rfl⟩
    exact ⟨i, by rw [List.getElem?_range hlt]; rfl, rfl⟩

theorem writeBytesBack_eq_ok_iff {m m' : Memory} {bytes : MemoryChange → List Byte}
    {changes : List MemoryChange} :
    writeBytesBack m bytes changes = .ok m' ↔
      (∀ e ∈ byteLog bytes changes, e.1 < m.size) ∧
        { m with byte := UndoLog.replay (byteLog bytes changes) m.byte } = m' := by
  induction changes generalizing m with
  | nil => simp [writeBytesBack, byteLog]
  | cons e changes ih =>
    rw [byteLog, List.flatMap_cons, ← byteLog, UndoLog.replay_append, List.forall_mem_append]
    constructor
    · intro h
      obtain ⟨m₁, hm₁, h⟩ := Loop.bind_eq_ok h
      obtain ⟨hfirst, rfl⟩ := writeBytes_eq_ok_iff.mp hm₁
      obtain ⟨hrest, rfl⟩ := ih.mp h
      exact ⟨⟨hfirst, hrest⟩, rfl⟩
    · rintro ⟨⟨hfirst, hrest⟩, rfl⟩
      rw [writeBytesBack, writeBytes_eq_ok_iff.mpr ⟨hfirst, rfl⟩, Loop.bind_ok]
      exact ih.mpr ⟨hrest, rfl⟩

end Core

namespace Vm

variable {fpu : Fpu} {v v₁ : Vm} {w : Instr}

/-- Undo after the step from `v` to `v₁` restores every register, the memory and pc. -/
def UndoRestores (v v₁ : Vm) : Prop :=
  ∃ v₂, v₁.undo = .ok v₂ ∧
    (∀ key, v₂.core.registers.read key = v.core.registers.read key) ∧
    v₂.core.memory = v.core.memory ∧ v₂.core.programCounter = v.core.programCounter

/-- The old value of the register that waits last in the current delta. -/
def waitingRegister (v : Vm) (key : RegisterKey) : Option Word :=
  UndoLog.lastValue (Core.registerLog RegisterChange.oldValue v.currentDelta.registerChanges) key

/-- The old bytes that wait in the current delta. -/
def waitingBytes (v : Vm) : List (Word × Byte) :=
  Core.byteLog MemoryChange.oldBytes v.currentDelta.memoryChanges

/-- Where the instruction records no register change, the last change that waits in the
current delta has the present value, or none waits and the instruction writes nothing new. -/
def RegistersCovered (fpu : Fpu) (v : Vm) (w : Instr) : Prop :=
  ∀ key, key ≠ .gpr 0 → ¬ Records fpu v.core w key →
    (v.waitingRegister key).getD ((unrecorded fpu v.core w).read key) = v.core.registers.read key

/-- The bytes that wait in the current delta lie inside the memory, and have the present
value where the instruction records no store. -/
def MemoryCovered (fpu : Fpu) (v : Vm) (w : Instr) : Prop :=
  (∀ e ∈ v.waitingBytes, e.1 < v.core.memory.size) ∧
    ∀ x, ¬ Overwrites fpu v.core w x →
      (UndoLog.lastValue v.waitingBytes x).getD (v.core.memory.byte x) = v.core.memory.byte x

/-- What a step of a floating-point or CSR instruction pushes. -/
structure PushedEffect (fpu : Fpu) (v : Vm) (w : Instr) (v₁ : Vm) (d : StepDelta)
    (changes : Changes) : Prop where
  effect : Effect fpu v.core w v₁.core changes
  undoStack : v₁.undoStack = d :: v.undoStack
  custom : d.customInstrExecuted = .none
  oldPc : d.oldPc = v.core.programCounter
  registerChanges :
    d.registerChanges = v.currentDelta.registerChanges ++ changes.registerChanges
  memoryChanges : d.memoryChanges = v.currentDelta.memoryChanges ++ changes.memoryChanges

theorem step_effect (hw : v.nextWord = .ok w) (hkind : isFloatOrCsrWord w = true)
    (hpc : v.core.programCounter < v.programSize) (h : v.step fpu = .ok v₁) :
    ∃ d changes, PushedEffect fpu v w v₁ d changes := by
  obtain ⟨v₂, v₃, hpreview, hexec, rfl⟩ := step_eq_ok h hpc
  obtain ⟨w', hw', rfl⟩ := preview_eq_ok hpreview
  obtain rfl : w = w' := Except.ok.inj (hw.symm.trans hw')
  obtain ⟨v₄, hfetch, hdrain⟩ := Loop.bind_eq_ok hexec
  obtain ⟨changes, hcycle, hv₄⟩ := fetchCycle_eq_ok hfetch
  have heffect := fetchCycle_effect hw' hkind hcycle
  rw [drains_of_not_busy heffect.notBusy] at hdrain
  obtain rfl := Except.ok.inj hdrain
  obtain ⟨hldbm, hbigmul⟩ := notCustom hkind
  refine ⟨{ v₄.currentDelta with newPc := v₄.core.programCounter }, changes, ?_⟩
  exact
    { effect := heffect
      undoStack := by rw [hv₄]; rfl
      custom := by
        rw [hv₄]
        simp only [noteState, if_neg hldbm, if_neg hbigmul]
        rfl
      oldPc := by rw [hv₄]; rfl
      registerChanges := by rw [hv₄]; rfl
      memoryChanges := by rw [hv₄]; rfl }

theorem registers_restored_iff {d : StepDelta} {changes : Changes}
    (h : PushedEffect fpu v w v₁ d changes) :
    (∀ key, (Core.writeRegisters v₁.core.registers RegisterChange.oldValue d.registerChanges).read
      key = v.core.registers.read key) ↔ RegistersCovered fpu v w := by
  have hread (key : RegisterKey) (hkey : key ≠ .gpr 0) :
      (Core.writeRegisters v₁.core.registers RegisterChange.oldValue d.registerChanges).read key =
        ((UndoLog.lastValue (Core.registerLog RegisterChange.oldValue changes.registerChanges)
          key).or (v.waitingRegister key)).getD (v₁.core.registers.read key) := by
    rw [Core.read_writeRegisters _ _ _ hkey, h.registerChanges, Core.registerLog, List.map_append,
      UndoLog.replay_apply, UndoLog.lastValue_append]
    rfl
  have hold (e : RegisterKey × Word)
      (he : e ∈ Core.registerLog RegisterChange.oldValue changes.registerChanges) :
      ∃ change ∈ changes.registerChanges, change.key = e.1 ∧ e.2 = v.core.registers.read e.1 := by
    obtain ⟨change, hchange, rfl⟩ := List.mem_map.mp he
    exact ⟨change, hchange, rfl, h.effect.old change hchange⟩
  -- a recorded register is restored, any other one depends on the waiting changes
  have hrecorded (key : RegisterKey) (hkey : key ≠ .gpr 0) (hrec : Records fpu v.core w key) :
      UndoLog.lastValue (Core.registerLog RegisterChange.oldValue changes.registerChanges) key =
        some (v.core.registers.read key) := by
    obtain ⟨change, hchange, rfl⟩ := (h.effect.recorded key hkey).mpr hrec
    refine UndoLog.lastValue_eq_some ⟨_, List.mem_map_of_mem hchange, rfl⟩ fun e he hkey => ?_
    obtain ⟨-, -, -, hvalue⟩ := hold e he
    rw [hvalue, hkey]
  have hother (key : RegisterKey) (hkey : key ≠ .gpr 0) (hrec : ¬ Records fpu v.core w key) :
      UndoLog.lastValue (Core.registerLog RegisterChange.oldValue changes.registerChanges) key =
        none := by
    refine UndoLog.lastValue_eq_none fun e he hkey' => hrec ?_
    obtain ⟨change, hchange, hsame, -⟩ := hold e he
    exact (h.effect.recorded key hkey).mp ⟨change, hchange, hsame.trans hkey'⟩
  constructor
  · intro hall key hkey hrec
    rw [← hall key, hread key hkey, hother key hkey hrec, h.effect.kept key hkey hrec]
    rfl
  · intro hcovered key
    by_cases hkey : key = .gpr 0
    · subst hkey
      rfl
    · rw [hread key hkey]
      by_cases hrec : Records fpu v.core w key
      · rw [hrecorded key hkey hrec]
        rfl
      · rw [hother key hkey hrec, h.effect.kept key hkey hrec]
        exact hcovered key hkey hrec

/-- The log of the old bytes that a step records. -/
structure StoreLog (fpu : Fpu) (c : Core) (w : Instr) (log : List (Word × Byte)) : Prop where
  old : ∀ e ∈ log, e.1 < c.memory.size ∧ Overwrites fpu c w e.1 ∧ e.2 = c.memory.byte e.1
  covers : ∀ x, Overwrites fpu c w x → ∃ e ∈ log, e.1 = x
  size : (stored fpu c w).size = c.memory.size
  frame : ∀ x, ¬ Overwrites fpu c w x → (stored fpu c w).byte x = c.memory.byte x

theorem storeLog_of_memoryEffect {c : Core} {changes : List MemoryChange}
    (h : MemoryEffect fpu c w changes) :
    StoreLog fpu c w (Core.byteLog MemoryChange.oldBytes changes) := by
  rcases h with ⟨hsame, rfl⟩ | ⟨new, rfl, hchanged, hdiffers, hin⟩
  · exact ⟨nofun, fun x hx => (hx.1 hsame).elim, by rw [hsame], fun x _ => by rw [hsame]⟩
  · have hsize : storeSize w ≤ 8 := by
      unfold storeSize
      split <;> omega
    have hlog : Core.byteLog MemoryChange.oldBytes
        [⟨result fpu c w, c.memory.bytesAt (result fpu c w) (storeSize w), new⟩] =
        Core.bytesLog (result fpu c w) 0 (c.memory.bytesAt (result fpu c w) (storeSize w)) :=
      List.append_nil _
    rw [hlog]
    refine ⟨fun e he => ?_, fun x hx => ?_, hdiffers.size, fun x hx => hdiffers.frame x ?_⟩
    · obtain ⟨i, hi, rfl⟩ := Core.mem_bytesLog_bytesAt.mp he
      refine ⟨hin i hi, ⟨hchanged, ?_⟩, rfl⟩
      dsimp only
      rw [BitVec.add_comm, BitVec.add_sub_cancel, BitVec.toNat_ofNat]
      omega
    · refine ⟨_, Core.mem_bytesLog_bytesAt.mpr ⟨(x - result fpu c w).toNat, hx.2, rfl⟩, ?_⟩
      dsimp only
      rw [BitVec.ofNat_toNat, BitVec.setWidth_eq, BitVec.add_comm, BitVec.sub_add_cancel]
    · exact Nat.not_lt.mp fun hlt => hx ⟨hchanged, hlt⟩

theorem memory_restored_iff {d : StepDelta} {changes : Changes}
    (h : PushedEffect fpu v w v₁ d changes) :
    Core.writeBytesBack v₁.core.memory MemoryChange.oldBytes d.memoryChanges = .ok v.core.memory ↔
      MemoryCovered fpu v w := by
  have hstore := storeLog_of_memoryEffect h.effect.memoryChanges
  have hlog : Core.byteLog MemoryChange.oldBytes d.memoryChanges =
      v.waitingBytes ++ Core.byteLog MemoryChange.oldBytes changes.memoryChanges := by
    rw [h.memoryChanges, Core.byteLog, List.flatMap_append]
    rfl
  rw [Core.writeBytesBack_eq_ok_iff, hlog, h.effect.memory, hstore.size, List.forall_mem_append]
  have hcovered (x : Word) (hx : Overwrites fpu v.core w x) :
      UndoLog.lastValue (Core.byteLog MemoryChange.oldBytes changes.memoryChanges) x =
        some (v.core.memory.byte x) := by
    refine UndoLog.lastValue_eq_some (hstore.covers x hx) fun e he hkey => ?_
    rw [(hstore.old e he).2.2, hkey]
  have hother (x : Word) (hx : ¬ Overwrites fpu v.core w x) :
      UndoLog.lastValue (Core.byteLog MemoryChange.oldBytes changes.memoryChanges) x = none :=
    UndoLog.lastValue_eq_none fun e he hkey => hx (hkey ▸ (hstore.old e he).2.1)
  constructor
  · rintro ⟨⟨hin, -⟩, heq⟩
    refine ⟨hin, fun x hx => ?_⟩
    have hbyte := congrFun (congrArg Memory.byte heq) x
    dsimp only at hbyte
    rw [UndoLog.replay_apply, UndoLog.lastValue_append, hother x hx, hstore.frame x hx] at hbyte
    exact hbyte
  · rintro ⟨hin, hbytes⟩
    refine ⟨⟨hin, fun e he => (hstore.old e he).1⟩, Memory.ext rfl (funext fun x => ?_)⟩
    dsimp only
    rw [UndoLog.replay_apply, UndoLog.lastValue_append]
    by_cases hx : Overwrites fpu v.core w x
    · rw [hcovered x hx]
      rfl
    · rw [hother x hx, hstore.frame x hx]
      exact hbytes x hx

/-- Undo restores the machine before a floating-point or CSR instruction exactly when
the writes that are not recorded change nothing, or a waiting change covers them. -/
theorem undoRestores_iff (hw : v.nextWord = .ok w) (hkind : isFloatOrCsrWord w = true)
    (hpc : v.core.programCounter < v.programSize) (h : v.step fpu = .ok v₁) :
    UndoRestores v v₁ ↔ RegistersCovered fpu v w ∧ MemoryCovered fpu v w := by
  obtain ⟨d, changes, hpushed⟩ := step_effect hw hkind hpc h
  rw [← registers_restored_iff hpushed, ← memory_restored_iff hpushed]
  constructor
  · rintro ⟨v₂, hundo, hregisters, hmemory, -⟩
    obtain ⟨c, hc, rfl⟩ := undo_eq_ok hundo hpushed.undoStack
    obtain ⟨memory, hback, rfl⟩ := applyDelta_eq_ok hc
    exact ⟨hregisters, hmemory ▸ hback⟩
  · rintro ⟨hregisters, hback⟩
    have happly : v₁.core.applyDelta d RegisterChange.oldValue MemoryChange.oldBytes d.oldPc =
        .ok { v₁.core with
          registers :=
            Core.writeRegisters v₁.core.registers RegisterChange.oldValue d.registerChanges
          memory := v.core.memory
          programCounter := d.oldPc } := by
      unfold Core.applyDelta
      rw [hback, if_pos hpushed.custom]
      rfl
    exact ⟨_, undo_cons hpushed.undoStack happly, hregisters, rfl, hpushed.oldPc⟩

/-- A double-precision instruction writes nothing that is not recorded. -/
theorem undoRestores_of_double (hw : v.nextWord = .ok w) (hF : isFInstruction w = false)
    (hD : isDInstruction w = true) (hnone : v.NoChanges)
    (hpc : v.core.programCounter < v.programSize) (h : v.step fpu = .ok v₁) :
    UndoRestores v v₁ := by
  have hfp : (isFInstruction w || isDInstruction w) = true := by rw [hD, Bool.or_true]
  refine (undoRestores_iff hw (by simp [isFloatOrCsrWord, hD]) hpc h).mpr ⟨fun key _ _ => ?_, ?_⟩
  · rw [waitingRegister, hnone.register, unrecorded, isCsrWord_false hfp, hF]
    rfl
  · rw [MemoryCovered, waitingBytes, hnone.memory]
    exact ⟨nofun, fun _ _ => rfl⟩

/-- `csrrwi x1, 0x340, 5`. -/
def setScratch : AssembledProgram := ⟨[0b001101000000_00101_101_00001_1110011], []⟩

/-- The register `mscratch` after a step of the instruction and after its undo. -/
theorem setScratch_csr :
    ((initial 0x1000).reset.loadProgram ⟨0x100, 100⟩ setScratch >>= fun v₀ =>
      v₀.step .zero >>= fun v₁ => v₁.undo >>= fun v₂ =>
      .ok (v₀.nextWord, decide (v₀.core.programCounter < v₀.programSize),
        [v₀, v₁, v₂].map fun v => v.core.registers.read (.csr 0x340))) =
      .ok (.ok 0b001101000000_00101_101_00001_1110011, true, [0, 5, 5]) := by
  decide +kernel

theorem csr_not_restored_by_undo :
    ¬ ∀ (v v₁ : Vm) (w : Instr), v.nextWord = .ok w → isFloatOrCsrWord w = true →
      v.core.programCounter < v.programSize → v.step .zero = .ok v₁ → UndoRestores v v₁ := by
  intro hall
  obtain ⟨v₀, -, h⟩ := Loop.bind_eq_ok setScratch_csr
  obtain ⟨v₁, hstep, h⟩ := Loop.bind_eq_ok h
  obtain ⟨v₂, hundo, h⟩ := Loop.bind_eq_ok h
  injection h with h
  simp only [List.map_cons, List.map_nil, Prod.mk.injEq, List.cons.injEq, decide_eq_true_eq] at h
  obtain ⟨hword, hpc, hcsr₀, -, hcsr₂, -⟩ := h
  obtain ⟨v₂', hundo', hregisters, -⟩ := hall v₀ v₁ _ hword (by decide) hpc hstep
  obtain rfl := Except.ok.inj (hundo.symm.trans hundo')
  have hsame := hregisters (.csr 0x340)
  rw [hcsr₀, hcsr₂] at hsame
  exact absurd hsame (by decide)

/-- `fadd.d f1, f2, f3`. -/
def addDouble : AssembledProgram := ⟨[0b0000001_00011_00010_000_00001_1010011], []⟩

theorem addDouble_steps :
    ((initial 0x1000).reset.loadProgram ⟨0x100, 100⟩ addDouble >>= fun v₀ =>
      v₀.step .zero >>= fun _ =>
      .ok (v₀.nextWord, decide (v₀.core.programCounter < v₀.programSize))) =
      .ok (.ok 0b0000001_00011_00010_000_00001_1010011, true) := by
  decide +kernel

theorem undoRestores_iff_addDouble :
    ∃ v₀ v₁, (initial 0x1000).reset.loadProgram ⟨0x100, 100⟩ addDouble = .ok v₀ ∧
      v₀.step .zero = .ok v₁ ∧ UndoRestores v₀ v₁ := by
  obtain ⟨v₀, hload, h⟩ := Loop.bind_eq_ok addDouble_steps
  obtain ⟨v₁, hstep, h⟩ := Loop.bind_eq_ok h
  injection h with h
  simp only [Prod.mk.injEq, decide_eq_true_eq] at h
  obtain ⟨hword, hpc⟩ := h
  refine ⟨v₀, v₁, hload, hstep, ?_⟩
  refine (undoRestores_iff hword (by decide) hpc hstep).mpr ?_
  obtain ⟨memory, programSize, breakpoints, rfl⟩ := loadProgram_eq_ok hload
  exact ⟨fun _ _ _ => rfl, nofun, fun _ _ => rfl⟩

end Vm

end RiscvSim
