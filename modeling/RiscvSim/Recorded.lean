import RiscvSim.Stages

/-! What the stages record: writing the old values back undoes a stage, and writing
the new values again repeats it. -/

namespace RiscvSim

namespace Memory

/-- The memory with the bytes `bytes` put at `address + n`, `address + n + 1`, .... -/
def overwrite (m : Memory) (address : Word) (n : Nat) (bytes : List Byte) : Memory :=
  { m with byte := fun x =>
      if n ≤ (x - address).toNat then
        (bytes[(x - address).toNat - n]?).getD (m.byte x) else m.byte x }

theorem writeBytes_eq {m : Memory} {address : Word} {n : Nat} {bytes : List Byte}
    (hin : ∀ i < bytes.length, address + BitVec.ofNat 64 (n + i) < m.size)
    (hlen : n + bytes.length ≤ 2 ^ 64) :
    m.writeBytes address n bytes = .ok (m.overwrite address n bytes) := by
  induction bytes generalizing m n with
  | nil => simp [writeBytes, overwrite]
  | cons b bytes ih =>
    have hn : n < 2 ^ 64 := by simp only [List.length_cons] at hlen; omega
    have hwrite := (writeByte_eq_ok_iff (b := b)).mpr ⟨hin 0 (by simp), rfl⟩
    rw [Nat.add_zero] at hwrite
    rw [writeBytes, hwrite, Loop.bind_ok, ih]
    · refine congrArg Except.ok (Memory.ext rfl (funext fun x => ?_))
      simp only [overwrite, Function.update_apply]
      by_cases hx : x = address + BitVec.ofNat 64 n
      · have hd : (x - address).toNat = n := by
          rw [hx, BitVec.add_comm, BitVec.add_sub_cancel, BitVec.toNat_ofNat, Nat.mod_eq_of_lt hn]
        rw [if_neg (by omega), if_pos hx, if_pos (by omega), hd]
        simp
      · have hd : (x - address).toNat ≠ n := by
          intro hd
          apply hx
          rw [← hd, BitVec.ofNat_toNat, BitVec.setWidth_eq, BitVec.add_comm, BitVec.sub_add_cancel]
        by_cases hlt : n + 1 ≤ (x - address).toNat
        · have hsub : (x - address).toNat - n = (x - address).toNat - (n + 1) + 1 := by omega
          rw [if_pos hlt, if_neg hx, if_pos (by omega), hsub, List.getElem?_cons_succ]
        · rw [if_neg hlt, if_neg hx, if_neg (by omega)]
    · intro i hi
      have := hin (i + 1) (by simpa using hi)
      rw [show n + (i + 1) = n + 1 + i by omega] at this
      exact this
    · simp only [List.length_cons] at hlen
      omega

@[simp] theorem bytesAt_length (m : Memory) (address : Word) (n : Nat) :
    (m.bytesAt address n).length = n := by
  simp [bytesAt]

/-- Two memories that differ only in `n` bytes at `address`. -/
structure DiffersAt (m m' : Memory) (address : Word) (n : Nat) : Prop where
  size : m'.size = m.size
  frame : ∀ x, n ≤ (x - address).toNat → m'.byte x = m.byte x

theorem DiffersAt.symm {m m' : Memory} {address : Word} {n : Nat}
    (h : DiffersAt m m' address n) : DiffersAt m' m address n :=
  ⟨h.size.symm, fun x hx => (h.frame x hx).symm⟩

theorem DiffersAt.overwrite {m m' : Memory} {address : Word} {n : Nat}
    (h : DiffersAt m m' address n) : m'.overwrite address 0 (m.bytesAt address n) = m := by
  refine Memory.ext h.size (funext fun x => ?_)
  simp only [Memory.overwrite, Nat.zero_le, if_true, Nat.sub_zero]
  rcases Nat.lt_or_ge (x - address).toNat n with hlt | hge
  · rw [List.getElem?_eq_getElem (by simpa using hlt)]
    simp only [bytesAt, Option.getD_some, List.getElem_map, List.getElem_range]
    rw [BitVec.ofNat_toNat, BitVec.setWidth_eq, BitVec.add_comm, BitVec.sub_add_cancel]
  · rw [List.getElem?_eq_none (by simpa using hge), Option.getD_none, h.frame x hge]

/-- Writing back the bytes a memory had where it differs gives that memory. -/
theorem DiffersAt.writeBytes {m m' : Memory} {address : Word} {n : Nat}
    (h : DiffersAt m m' address n) (hn : n ≤ 2 ^ 64)
    (hin : ∀ i < n, address + BitVec.ofNat 64 i < m.size) :
    m'.writeBytes address 0 (m.bytesAt address n) = .ok m := by
  rw [writeBytes_eq, h.overwrite]
  · intro i hi
    rw [bytesAt_length] at hi
    rw [Nat.zero_add, h.size]
    exact hin i hi
  · rw [bytesAt_length]
    omega

end Memory

/-- The recorded memory changes lead from `m` to `m'` and back. -/
structure MemoryLinked (changes : List MemoryChange) (m m' : Memory) : Prop where
  back : Core.writeBytesBack m' MemoryChange.oldBytes changes = .ok m
  forth : Core.writeBytesBack m MemoryChange.newBytes changes = .ok m'

/-- The recorded register changes lead from `r` to `r'` and back. -/
structure RegistersLinked (changes : List RegisterChange) (r r' : RegisterFile) : Prop where
  back : Core.writeRegisters r' RegisterChange.oldValue changes = r
  forth : Core.writeRegisters r RegisterChange.newValue changes = r'

theorem MemoryLinked.refl (m : Memory) : MemoryLinked [] m m := ⟨rfl, rfl⟩

theorem RegistersLinked.refl (r : RegisterFile) : RegistersLinked [] r r := ⟨rfl, rfl⟩

theorem Changes.none_append (a : Changes) : Changes.none ++ a = a := rfl

theorem Changes.append_registerChanges (a b : Changes) :
    (a ++ b).registerChanges = a.registerChanges ++ b.registerChanges := rfl

theorem Changes.append_memoryChanges (a b : Changes) :
    (a ++ b).memoryChanges = a.memoryChanges ++ b.memoryChanges := rfl

theorem ofRegister_memoryChanges (key : RegisterKey) (x y : Word) :
    (Changes.ofRegister key x y).memoryChanges = [] := by
  unfold Changes.ofRegister
  split <;> rfl

theorem ofMemory_registerChanges (address : Word) (x y : List Byte) :
    (Changes.ofMemory address x y).registerChanges = [] := by
  unfold Changes.ofMemory
  split <;> rfl

theorem writeGpr_linked (r : RegisterFile) (rd : RegIndex) (value : Word) :
    RegistersLinked (Changes.ofRegister (.gpr rd) (r.readGpr rd)
      ((r.writeGpr rd value).readGpr rd)).registerChanges r (r.writeGpr rd value) := by
  have hread := r.readGpr_writeGpr rd rd value
  have hback : (r.writeGpr rd value).writeGpr rd (r.readGpr rd) = r := by
    rw [RegisterFile.writeGpr_writeGpr, RegisterFile.writeGpr_readGpr]
  by_cases h0 : rd = 0
  · subst h0
    exact RegistersLinked.refl r
  · rw [if_pos ⟨rfl, h0⟩] at hread
    rw [hread, Changes.ofRegister]
    by_cases hsame : r.readGpr rd = value
    · rw [if_neg (by simpa using hsame), ← hsame, RegisterFile.writeGpr_readGpr]
      exact RegistersLinked.refl r
    · rw [if_pos hsame]
      exact ⟨hback, rfl⟩

theorem storeRecorded_linked {m m' : Memory} {address : Word} {n : Nat}
    {write : Memory → Except Fault Memory} {changes : Changes} (hn : n ≤ 2 ^ 64)
    (hwrite : ∀ m', write m = .ok m' → m.DiffersAt m' address n)
    (h : Core.storeRecorded m address n write = .ok (m', changes)) :
    MemoryLinked changes.memoryChanges m m' ∧ changes.registerChanges = [] := by
  obtain ⟨oldBytes, hold, h⟩ := Loop.bind_eq_ok h
  obtain ⟨m₁, hm₁, h⟩ := Loop.bind_eq_ok h
  obtain ⟨newBytes, hnew, h⟩ := Loop.bind_eq_ok h
  obtain ⟨rfl, rfl⟩ : m₁ = m' ∧ Changes.ofMemory address oldBytes newBytes = changes := by
    injection h with h
    exact ⟨congrArg Prod.fst h, congrArg Prod.snd h⟩
  obtain ⟨hin, rfl⟩ := Memory.readBytes_eq_ok_iff.mp hold
  obtain ⟨hin', rfl⟩ := Memory.readBytes_eq_ok_iff.mp hnew
  have hdiff := hwrite m₁ hm₁
  have hback := hdiff.writeBytes hn hin
  have hforth := hdiff.symm.writeBytes hn hin'
  refine ⟨?_, ofMemory_registerChanges _ _ _⟩
  rw [Changes.ofMemory]
  by_cases hsame : m.bytesAt address n = m₁.bytesAt address n
  · -- nothing is recorded, so the store changed nothing
    rw [if_neg (by simpa using hsame)]
    have hm : m₁ = m := by
      rw [← hdiff.overwrite, hsame, Memory.DiffersAt.overwrite ⟨rfl, fun _ _ => rfl⟩]
    rw [hm]
    exact MemoryLinked.refl m
  · rw [if_pos hsame]
    exact ⟨by simp only [Core.writeBytesBack, hback, Loop.bind_ok],
      by simp only [Core.writeBytesBack, hforth, Loop.bind_ok]⟩

/-- The words that `Execute` and `WriteBack` send down the integer path, LDBM and
BIGMUL apart. -/
structure PlainWord (w : Instr) : Prop where
  notSystem : w.opcode ≠ 0b1110011#7
  notFloat : isFInstruction w = false
  notDouble : isDInstruction w = false
  notLdbm : w.opcode ≠ 0b0101010#7
  notBigmul : w.opcode ≠ 0b0111111#7

theorem execute_plain {fpu : Fpu} {c : Core} (h : PlainWord c.currentInstruction) :
    c.execute fpu = c.executeInteger >>= fun c' => .ok (c', Changes.none) := by
  simp only [Core.execute, h.notFloat, h.notDouble]
  rw [if_neg (by simp [h.notSystem]), if_neg (by simp), if_neg (by simp), if_neg h.notSystem]
  rfl

theorem store_differsAt {w : Nat} (m : Memory) (address : Word) (value : BitVec w) (n : Nat) :
    m.DiffersAt (m.store address value n) address n :=
  ⟨rfl, fun _ hx => if_neg (Nat.not_lt.mpr hx)⟩

theorem storeValue_linked {m m' : Memory} {address : Word} {funct3 : BitVec 3} {value : Word}
    {changes : Changes} (h : Core.storeValue m address funct3 value = .ok (m', changes)) :
    MemoryLinked changes.memoryChanges m m' ∧ changes.registerChanges = [] := by
  unfold Core.storeValue at h
  split at h
  · refine storeRecorded_linked (by norm_num) (fun m₁ hm₁ => ?_) h
    obtain ⟨-, rfl⟩ := Memory.writeByte_eq_ok_iff.mp hm₁
    refine ⟨rfl, fun x hx => Function.update_of_ne ?_ _ _⟩
    rintro rfl
    simp at hx
  · refine storeRecorded_linked (by norm_num) (fun m₁ hm₁ => ?_) h
    obtain ⟨-, rfl⟩ := Memory.writeHalfWord_eq_ok_iff.mp hm₁
    exact store_differsAt m address _ _
  · refine storeRecorded_linked (by norm_num) (fun m₁ hm₁ => ?_) h
    obtain ⟨-, rfl⟩ := Memory.writeWord_eq_ok_iff.mp hm₁
    exact store_differsAt m address _ _
  · refine storeRecorded_linked (by norm_num) (fun m₁ hm₁ => ?_) h
    obtain ⟨-, rfl⟩ := Memory.writeDoubleWord_eq_ok_iff.mp hm₁
    exact store_differsAt m address _ _
  · injection h with h
    injection h with hm hc
    subst hm hc
    exact ⟨MemoryLinked.refl m, rfl⟩

/-- `WriteMemory` on the integer path without a started BIGMUL. -/
theorem writeMemoryInteger_linked {c c' : Core} {changes : Changes}
    (hstart : c.controlUnit.bigmulStart = false)
    (h : c.writeMemoryInteger = .ok (c', changes)) :
    MemoryLinked changes.memoryChanges c.memory c'.memory ∧ changes.registerChanges = [] ∧
      c' = { c with memory := c'.memory, memoryResult := c'.memoryResult } := by
  unfold Core.writeMemoryInteger at h
  obtain ⟨loaded, -, h⟩ := Loop.bind_eq_ok h
  rw [if_neg (by simp [hstart])] at h
  split at h
  · obtain ⟨⟨memory, stored⟩, hstored, h⟩ := Loop.bind_eq_ok h
    injection h with h
    injection h with hc hch
    subst hc hch
    obtain ⟨hlinked, hnone⟩ := storeValue_linked hstored
    exact ⟨hlinked, hnone, rfl⟩
  · injection h with h
    injection h with hc hch
    subst hc hch
    exact ⟨MemoryLinked.refl _, rfl, rfl⟩

theorem writeMemory_plain {c : Core} (h : PlainWord c.currentInstruction)
    (hstart : c.controlUnit.ldbmStart = false) : c.writeMemory = c.writeMemoryInteger := by
  simp only [Core.writeMemory, hstart, h.notFloat, h.notDouble]
  rw [if_neg (by simp), if_neg (by simp [h.notSystem]), if_neg (by simp), if_neg (by simp)]

theorem writeBack_plain {c : Core} (h : PlainWord c.currentInstruction) :
    c.writeBack = c.writeBackInteger := by
  simp only [Core.writeBack, h.notFloat, h.notDouble]
  rw [if_neg (by simp [h.notSystem]), if_neg (by simp), if_neg (by simp), if_neg h.notSystem]

theorem writeBackInteger_linked (c : Core) :
    RegistersLinked c.writeBackInteger.2.registerChanges c.registers
        c.writeBackInteger.1.registers ∧
      c.writeBackInteger.2.memoryChanges = [] ∧
      c.writeBackInteger.1 = { c with registers := c.writeBackInteger.1.registers } := by
  refine ⟨?_, ofRegister_memoryChanges _ _ _, rfl⟩
  have hrefl : RegistersLinked (Changes.ofRegister (.gpr c.currentInstruction.rd)
      (c.registers.readGpr c.currentInstruction.rd)
      (c.registers.readGpr c.currentInstruction.rd)).registerChanges c.registers c.registers := by
    rw [Changes.ofRegister, if_neg (by simp)]
    exact RegistersLinked.refl _
  simp only [Core.writeBackInteger]
  cases c.integerResult with
  | none => exact hrefl
  | some value =>
    cases c.controlUnit.regWrite with
    | false => exact hrefl
    | true => exact writeGpr_linked _ _ _

/-- One cycle of a plain word: its changes lead from the state before to the state
after and back, and the unit is not touched. -/
structure CycleLinked (c c' : Core) (changes : Changes) : Prop where
  registers : RegistersLinked changes.registerChanges c.registers c'.registers
  memory : MemoryLinked changes.memoryChanges c.memory c'.memory
  bigmul : c'.bigmul = c.bigmul
  notBusy : c'.busy = false
  instructionsRetired : c'.instructionsRetired = c.instructionsRetired + 1
  cycleS : c'.cycleS = c.cycleS + 1

theorem fetchCycle_linked {fpu : Fpu} {c c' : Core} {changes : Changes} {w : Instr}
    (hw : c.memory.readWord c.programCounter = .ok w) (hplain : PlainWord w)
    (h : c.fetchCycle fpu = .ok (c', changes)) : CycleLinked c c' changes := by
  obtain ⟨w', c₁, c₂, c₃, executed, stored, hw', hdecode, hexec, hmem, rfl, rfl⟩ :=
    fetchCycle_stages h
  obtain rfl : w = w' := Except.ok.inj (hw.symm.trans hw')
  rw [decode_other hplain.notLdbm hplain.notBigmul] at hdecode
  obtain rfl := Except.ok.inj hdecode
  rw [execute_plain hplain] at hexec
  obtain ⟨c₂', hint, hpair⟩ := Loop.bind_eq_ok hexec
  obtain ⟨rfl, rfl⟩ : c₂' = c₂ ∧ Changes.none = executed := by
    injection hpair with hpair
    exact ⟨congrArg Prod.fst hpair, congrArg Prod.snd hpair⟩
  have hframe := executeInteger_frame hint
  have hword : c₂'.currentInstruction = w := hframe.currentInstruction
  have hldbm : c₂'.controlUnit.ldbmStart = false :=
    hframe.controlUnit ▸ setControlSignals_ldbmStart hplain.notLdbm
  have hbigmul : c₂'.controlUnit.bigmulStart = false :=
    hframe.controlUnit ▸ setControlSignals_bigmulStart hplain.notBigmul
  rw [writeMemory_plain (hword ▸ hplain) hldbm] at hmem
  obtain ⟨hmemory, hnone, hc₃⟩ := writeMemoryInteger_linked hbigmul hmem
  have hcontrol₃ : c₃.controlUnit = c₂'.controlUnit := by rw [hc₃]
  have hplain₃ : PlainWord c₃.currentInstruction := by rw [hc₃]; exact hword ▸ hplain
  have hregs₃ : c₃.registers = c.registers := by rw [hc₃]; exact hframe.registers
  obtain ⟨hregisters, hnone', hc₄⟩ := writeBackInteger_linked c₃
  rw [writeBack_plain hplain₃, Changes.none_append, hc₄]
  refine ⟨?_, ?_, ?_, ?_, ?_, ?_⟩
  · rw [Changes.append_registerChanges, hnone, List.nil_append, ← hregs₃]
    exact hregisters
  · rw [Changes.append_memoryChanges, hnone', List.append_nil, ← hframe.memory]
    exact hmemory
  · rw [hc₃]
    exact hframe.bigmul
  · unfold Core.busy Core.ldbmBusy Core.bigmulBusy
    dsimp only
    rw [hcontrol₃, hldbm, hbigmul]
    rfl
  · rw [hc₃]
    exact congrArg (· + 1) hframe.instructionsRetired
  · rw [hc₃]
    exact congrArg (· + 1) hframe.cycleS

end RiscvSim
