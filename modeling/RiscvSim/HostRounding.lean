import Mathlib.Logic.Relation
import RiscvSim.Stages

/-! The rounding mode of the host. Every floating-point instruction sets it on the way in;
some return without setting it back, and what they leave is there for the next one. -/

namespace RiscvSim

/-- The operations whose results depend on the rounding mode. -/
def AluOp.rounds : AluOp → Bool
  | .kFmadd_s | .kFmsub_s | .kFnmadd_s | .kFnmsub_s
  | .FADD_S | .FSUB_S | .FMUL_S | .FDIV_S | .FSQRT_S
  | .FCVT_W_S | .FCVT_WU_S | .FCVT_L_S | .FCVT_LU_S
  | .FCVT_S_W | .FCVT_S_WU | .FCVT_S_L | .FCVT_S_LU
  | .FMADD_D | .FMSUB_D | .FNMADD_D | .FNMSUB_D
  | .FADD_D | .FSUB_D | .FMUL_D | .FDIV_D | .FSQRT_D
  | .FCVT_W_D | .FCVT_WU_D | .FCVT_L_D | .FCVT_LU_D
  | .FCVT_D_W | .FCVT_D_WU | .FCVT_D_L | .FCVT_D_LU | .FCVT_S_D | .FCVT_D_S => true
  | _ => false

/-- The rounding modes that the host has, by their encoding. -/
def modeOf (rm : Word) : Option HostRound :=
  match rm with
  | 0#64 => some .toNearest
  | 1#64 => some .towardZero
  | 2#64 => some .downward
  | 3#64 => some .upward
  | _ => none

/-- The mode that an `rm` field stands for; the dynamic one is that in `frm`. -/
def denotedMode (rm : BitVec 3) (frm : Word) : Option HostRound :=
  if rm = 0b111#3 then modeOf frm else modeOf (rm.setWidth 64)

namespace Fpu

variable (fpu : Fpu)

/-- The operations that `fpexecute` returns from before it sets the mode back. -/
def returnsEarly (op : AluOp) (ina inb : Word) : Bool :=
  match op with
  | .kAdd | .FMV_X_W => true
  | .FEQ_S | .FLT_S | .FLE_S => fpu.singleHolds op ina inb
  | _ => false

/-- The same of `dfpexecute`. -/
def returnsEarlyDouble (op : AluOp) (ina inb : Word) : Bool :=
  match op with
  | .kAdd | .FMV_D_X => true
  | .FEQ_D | .FLT_D | .FLE_D => fpu.doubleHolds op ina inb
  | _ => false

theorem fpexecute_mode (op : AluOp) (ina inb inc : Word) (rm : Byte) (mode : HostRound) :
    (fpu.fpexecute op ina inb inc rm mode).2 =
      if fpu.returnsEarly op ina inb then setRound rm mode else mode := by
  cases op with
  | FEQ_S | FLT_S | FLE_S => exact apply_ite Prod.snd _ _ _
  | _ => rfl

theorem dfpexecute_mode (op : AluOp) (ina inb inc : Word) (rm : Byte) (mode : HostRound) :
    (fpu.dfpexecute op ina inb inc rm mode).2 =
      if fpu.returnsEarlyDouble op ina inb then setRound rm mode else mode := by
  cases op with
  | FEQ_D | FLT_D | FLE_D => exact apply_ite Prod.snd _ _ _
  | _ => rfl

/-- An operation that rounds is evaluated under the mode just set. -/
theorem fpexecute_rounds {op : AluOp} (h : op.rounds = true) (ina inb inc : Word) (rm : Byte)
    (mode : HostRound) : (fpu.fpexecute op ina inb inc rm mode).1 =
      fpu.single op (setRound rm mode) ina inb inc := by
  cases op <;> first | rfl | exact nomatch h

theorem dfpexecute_rounds {op : AluOp} (h : op.rounds = true) (ina inb inc : Word) (rm : Byte)
    (mode : HostRound) : (fpu.dfpexecute op ina inb inc rm mode).1.1 =
      (fpu.double op (setRound rm mode) ina inb inc).1 := by
  cases op <;> first | rfl | exact nomatch h

end Fpu

namespace Core

variable (fpu : Fpu) (c : Core)

/-- The next instruction is a floating-point instruction. -/
def FetchesFloat (w : Instr) : Prop :=
  c.memory.readWord c.programCounter = .ok w ∧ (isFInstruction w = true ∨ isDInstruction w = true)

/-- One instruction of a sequence of floating-point instructions. -/
def FloatStep (c c' : Core) : Prop :=
  ∃ w changes, c.FetchesFloat w ∧ c.fetchCycle fpu = .ok (c', changes)

/-- What the current instruction hands to the arithmetic. -/
def floatOperands : FpOperands :=
  if isFInstruction c.currentInstruction then c.fpOperands 0b1101000#7 0b1111000#7 true
  else c.fpOperands 0b1101001#7 0b1111001#7 false

/-- The mode under which the current instruction is evaluated. -/
def evaluationMode : HostRound := setRound c.floatOperands.rm c.hostRound

/-- The current instruction returns before the mode is set back. -/
def returnsEarly : Bool :=
  let o := c.floatOperands
  let op := ControlUnit.getAluSignal c.currentInstruction
  if isFInstruction c.currentInstruction then fpu.returnsEarly op o.reg1Value o.reg2Value
  else fpu.returnsEarlyDouble op o.reg1Value o.reg2Value

/-- A result that depends on the mode is evaluated under the mode that its `rm` field denotes. -/
def RoundsAsDenoted : Prop :=
  (ControlUnit.getAluSignal c.currentInstruction).rounds = true → ∀ mode,
    denotedMode c.currentInstruction.funct3 (c.registers.readCsr 0x002) = some mode →
      c.evaluationMode = mode

/-- The current instruction leaves the mode as it found it. -/
def KeepsMode : Prop :=
  ∀ c' changes, c.execute fpu = .ok (c', changes) → c'.hostRound = c.hostRound

/-- A mode other than the default one. -/
def Directed (rm : Word) : Prop := rm = 1 ∨ rm = 2 ∨ rm = 3

/-- No early return with a directed mode, and no double-precision operation with the dynamic mode
while `frm` holds a directed one. -/
structure RoundsCleanly : Prop where
  early : c.returnsEarly fpu = true → ¬ Directed (c.floatOperands.rm.setWidth 64)
  dynamic : isFInstruction c.currentInstruction = false →
    (ControlUnit.getAluSignal c.currentInstruction).rounds = true →
    c.currentInstruction.funct3 = 0b111#3 → ¬ Directed (c.registers.readCsr 0x002)

variable {fpu c}

instance (rm : Word) : Decidable (Directed rm) := inferInstanceAs (Decidable (_ ∨ _))

theorem setRound_toNearest (rm : Byte) :
    setRound rm .toNearest = .toNearest ↔ ¬ Directed (rm.setWidth 64) := by
  revert rm
  decide +kernel

theorem float_not_system {w : Instr} (h : isFInstruction w = true ∨ isDInstruction w = true) :
    w.opcode ≠ 0b1110011#7 := by
  intro hop
  simp [isFInstruction, isDInstruction, hop] at h

/-- The mode of a result that depends on one. -/
theorem executeFloat_result (h : (ControlUnit.getAluSignal c.currentInstruction).rounds = true)
    (hF : isFInstruction c.currentInstruction = true) :
    (c.executeFloat fpu).executionResult =
      (fpu.single (ControlUnit.getAluSignal c.currentInstruction) c.evaluationMode
        c.floatOperands.reg1Value c.floatOperands.reg2Value c.floatOperands.reg3Value).1 := by
  simp only [executeFloat, evaluationMode, floatOperands, hF, if_true, fpu.fpexecute_rounds h]

theorem executeDouble_result (h : (ControlUnit.getAluSignal c.currentInstruction).rounds = true)
    (hF : isFInstruction c.currentInstruction = false) :
    (c.executeDouble fpu).executionResult =
      (fpu.double (ControlUnit.getAluSignal c.currentInstruction) c.evaluationMode
        c.floatOperands.reg1Value c.floatOperands.reg2Value c.floatOperands.reg3Value).1 := by
  simp only [executeDouble, evaluationMode, floatOperands, hF, Bool.false_eq_true, if_false,
    fpu.dfpexecute_rounds h]

variable (fpu) in
/-- `Execute` of a floating-point instruction. -/
theorem execute_float (h : isFInstruction c.currentInstruction = true ∨
    isDInstruction c.currentInstruction = true) :
    ∃ c', c.execute fpu = .ok (c', .none) ∧
      c'.hostRound = if c.returnsEarly fpu then c.evaluationMode else c.hostRound := by
  have hsystem : ¬ (c.currentInstruction.opcode = 0b1110011#7 ∧
      c.currentInstruction.funct3 = 0b000#3) := fun hc => float_not_system h hc.1
  unfold Core.execute
  dsimp only
  rw [if_neg hsystem]
  cases hF : isFInstruction c.currentInstruction with
  | true =>
    refine ⟨_, if_pos rfl, ?_⟩
    simp only [executeFloat, returnsEarly, evaluationMode, floatOperands, hF, if_true]
    exact fpu.fpexecute_mode _ _ _ _ _ _
  | false =>
    have hD : isDInstruction c.currentInstruction = true := by simpa [hF] using h
    refine ⟨_, (if_neg Bool.false_ne_true).trans (if_pos hD), ?_⟩
    simp only [executeDouble, returnsEarly, evaluationMode, floatOperands, hF]
    exact fpu.dfpexecute_mode _ _ _ _ _ _

theorem keepsMode_iff (h : isFInstruction c.currentInstruction = true ∨
    isDInstruction c.currentInstruction = true) (hmode : c.hostRound = .toNearest) :
    c.KeepsMode fpu ↔
      (c.returnsEarly fpu = true → ¬ Directed (c.floatOperands.rm.setWidth 64)) := by
  obtain ⟨c', hexec, hround⟩ := execute_float fpu h
  have hkeeps : c.KeepsMode fpu ↔ c'.hostRound = c.hostRound := by
    constructor
    · exact fun hkeeps => hkeeps c' _ hexec
    · intro hsame c'' changes hexec'
      obtain ⟨rfl, -⟩ := Prod.mk.inj (Except.ok.inj (hexec.symm.trans hexec'))
      exact hsame
  rw [hkeeps, hround, evaluationMode, hmode, ← setRound_toNearest]
  cases c.returnsEarly fpu <;> simp

theorem setRound_of_modeOf {rm : Word} {mode : HostRound} (h : modeOf rm = some mode)
    (host : HostRound) : setRound (rm.setWidth 8) host = mode := by
  unfold modeOf at h
  split at h <;> first | exact Option.some.inj h | exact nomatch h

theorem directed_of_modeOf {rm : Word} {mode : HostRound} (h : modeOf rm = some mode) :
    mode ≠ .toNearest ↔ Directed rm := by
  unfold modeOf at h
  split at h
  · obtain rfl := Option.some.inj h
    decide
  · obtain rfl := Option.some.inj h
    decide
  · obtain rfl := Option.some.inj h
    decide
  · obtain rfl := Option.some.inj h
    decide
  · exact nomatch h

theorem modeOf_directed {rm : Word} (h : Directed rm) : ∃ mode, modeOf rm = some mode := by
  rcases h with rfl | rfl | rfl
  · exact ⟨_, rfl⟩
  · exact ⟨_, rfl⟩
  · exact ⟨_, rfl⟩

/-- A mode in the `rm` field itself is the one that is set. -/
theorem evaluationMode_static {mode : HostRound} (h : c.currentInstruction.funct3 ≠ 0b111#3)
    (hmode : modeOf (c.currentInstruction.funct3.setWidth 64) = some mode) :
    c.evaluationMode = mode := by
  have hrm : c.floatOperands.rm = (c.currentInstruction.funct3.setWidth 64).setWidth 8 := by
    have hwidth : (c.currentInstruction.funct3.setWidth 64).setWidth 8 =
        c.currentInstruction.funct3.setWidth 8 := by
      apply BitVec.eq_of_toNat_eq
      simp
    rw [hwidth]
    unfold floatOperands fpOperands
    split <;> simp [h]
  rw [evaluationMode, hrm]
  exact setRound_of_modeOf hmode _

/-- `ExecuteDouble` hands on the dynamic mode as it is, and then no mode is set. -/
theorem floatOperands_dynamic (hF : isFInstruction c.currentInstruction = false)
    (h : c.currentInstruction.funct3 = 0b111#3) : c.floatOperands.rm = 0b111#8 := by
  simp [floatOperands, fpOperands, hF, h]

theorem roundsAsDenoted_iff (hmode : c.hostRound = .toNearest) :
    c.RoundsAsDenoted ↔ (isFInstruction c.currentInstruction = false →
      (ControlUnit.getAluSignal c.currentInstruction).rounds = true →
      c.currentInstruction.funct3 = 0b111#3 → ¬ Directed (c.registers.readCsr 0x002)) := by
  constructor
  · intro h hF hrounds hdynamic hdirected
    obtain ⟨mode, hfrm⟩ := modeOf_directed hdirected
    have heval := h hrounds mode (by rw [denotedMode, if_pos hdynamic, hfrm])
    rw [evaluationMode, floatOperands_dynamic hF hdynamic, hmode] at heval
    exact (directed_of_modeOf hfrm).mpr hdirected heval.symm
  · intro h hrounds mode hdenoted
    by_cases hdynamic : c.currentInstruction.funct3 = 0b111#3
    · rw [denotedMode, if_pos hdynamic] at hdenoted
      cases hF : isFInstruction c.currentInstruction with
      | true =>
        have hrm : c.floatOperands.rm = (c.registers.readCsr 0x002).setWidth 8 := by
          simp [floatOperands, fpOperands, hF, hdynamic]
        rw [evaluationMode, hrm]
        exact setRound_of_modeOf hdenoted _
      | false =>
        rw [evaluationMode, floatOperands_dynamic hF hdynamic, hmode]
        by_contra hne
        exact h hF hrounds hdynamic ((directed_of_modeOf hdenoted).mp (Ne.symm hne))
    · rw [denotedMode, if_neg hdynamic] at hdenoted
      exact evaluationMode_static hdynamic hdenoted

theorem FetchesFloat.decoded {w : Instr} (h : c.FetchesFloat w) :
    isFInstruction (decoded c w).currentInstruction = true ∨
      isDInstruction (decoded c w).currentInstruction = true := h.2

/-- What one instruction does under the default mode. -/
theorem roundsCleanly_iff {w : Instr} (h : c.FetchesFloat w) (hmode : c.hostRound = .toNearest) :
    (decoded c w).RoundsAsDenoted ∧ (decoded c w).KeepsMode fpu ↔
      (decoded c w).RoundsCleanly fpu := by
  have hdefault : (decoded c w).hostRound = .toNearest := hmode
  rw [roundsAsDenoted_iff hdefault, keepsMode_iff h.decoded hdefault]
  exact ⟨fun hboth => ⟨hboth.2, hboth.1⟩, fun hclean => ⟨hclean.dynamic, hclean.early⟩⟩

/-- The later stages do not touch the mode. -/
theorem FloatStep.hostRound {c' : Core} (h : FloatStep fpu c c')
    (hkeeps : ∀ w, c.FetchesFloat w → (decoded c w).KeepsMode fpu) :
    c'.hostRound = c.hostRound := by
  obtain ⟨w, changes, hfetch, hcycle⟩ := h
  obtain ⟨w', c₁, c₂, c₃, executed, stored, hw', hdecode, hexec, hmem, rfl, -⟩ :=
    fetchCycle_stages hcycle
  obtain rfl : w = w' := Except.ok.inj (hfetch.1.symm.trans hw')
  have hldbm : w.opcode ≠ 0b0101010#7 := by
    intro hop
    have hfloat := hfetch.2
    simp [isFInstruction, isDInstruction, hop] at hfloat
  have hbigmul : w.opcode ≠ 0b0111111#7 := by
    intro hop
    have hfloat := hfetch.2
    simp [isFInstruction, isDInstruction, hop] at hfloat
  rw [decode_other hldbm hbigmul] at hdecode
  obtain rfl := Except.ok.inj hdecode
  have hround : c₂.hostRound = c.hostRound := hkeeps w hfetch c₂ executed hexec
  rw [writeBack_frame]
  change c₃.hostRound = c.hostRound
  rw [(writeMemory_frame hmem).1]
  exact hround

/-- The mode stays the default one as long as every instruction keeps it. -/
theorem run_hostRound {c₀ : Core} (hmode : c₀.hostRound = .toNearest)
    (hkeeps : ∀ c w, Relation.ReflTransGen (FloatStep fpu) c₀ c → c.hostRound = .toNearest →
      c.FetchesFloat w → (decoded c w).KeepsMode fpu)
    (hrun : Relation.ReflTransGen (FloatStep fpu) c₀ c) : c.hostRound = .toNearest := by
  induction hrun with
  | refl => exact hmode
  | tail hprev hstep ih =>
    exact (hstep.hostRound fun w hw => hkeeps _ w hprev ih hw).trans ih

/-- Both functions leave the mode as they found it but for early returns that changed it. In a
sequence of floating-point instructions that begins under the default mode, every result is
evaluated under the mode that its instruction denotes and every instruction keeps the mode, exactly
if no instruction returns early with a directed mode and no double-precision operation is dynamic
while `frm` holds a directed mode. -/
theorem rounding_iff (fpu : Fpu) (c₀ : Core) (hmode : c₀.hostRound = .toNearest) :
    (∀ op ina inb inc rm mode, (fpu.fpexecute op ina inb inc rm mode).2 = mode ↔
      (fpu.returnsEarly op ina inb = true → setRound rm mode = mode)) ∧
    (∀ op ina inb inc rm mode, (fpu.dfpexecute op ina inb inc rm mode).2 = mode ↔
      (fpu.returnsEarlyDouble op ina inb = true → setRound rm mode = mode)) ∧
    ((∀ c w, Relation.ReflTransGen (FloatStep fpu) c₀ c → c.FetchesFloat w →
        (decoded c w).RoundsAsDenoted ∧ (decoded c w).KeepsMode fpu) ↔
      ∀ c w, Relation.ReflTransGen (FloatStep fpu) c₀ c → c.FetchesFloat w →
        (decoded c w).RoundsCleanly fpu) := by
  refine ⟨fun op ina inb inc rm mode => ?_, fun op ina inb inc rm mode => ?_, ?_, ?_⟩
  · rw [fpu.fpexecute_mode]
    cases fpu.returnsEarly op ina inb <;> simp
  · rw [fpu.dfpexecute_mode]
    cases fpu.returnsEarlyDouble op ina inb <;> simp
  · intro hall c w hrun hfetch
    have hdefault := run_hostRound hmode (fun c w hc _ hw => (hall c w hc hw).2) hrun
    exact (roundsCleanly_iff hfetch hdefault).mp (hall c w hrun hfetch)
  · intro hall c w hrun hfetch
    have hdefault := run_hostRound hmode
      (fun c w hc hm hw => ((roundsCleanly_iff hw hm).mpr (hall c w hc hw)).2) hrun
    exact (roundsCleanly_iff hfetch hdefault).mpr (hall c w hrun hfetch)

/-- A machine whose memory begins with the two words. -/
def twoWords (first second : Instr) : Core :=
  { Core.initial 8 with memory := ⟨8, fun a => if a < 4 then (first >>> (8 * a.toNat)).setWidth 8
      else (second >>> (8 * (a.toNat - 4))).setWidth 8⟩ }

/-- `fadd.d f0, f0, f0, rne` and no floating-point instruction. -/
theorem rounding_iff_fadd :
    (decoded (twoWords 0x02000053 0) 0x02000053).RoundsAsDenoted ∧
      (decoded (twoWords 0x02000053 0) 0x02000053).KeepsMode .zero := by
  have hword : (twoWords 0x02000053 0).memory.readWord 0 = .ok 0x02000053 := by decide +kernel
  have hview : ((twoWords 0x02000053 0).fetchCycle .zero).map
      (fun p => p.1.memory.readWord p.1.programCounter) = .ok (.ok 0) := by decide +kernel
  have hreach {c : Core} (h : Relation.ReflTransGen (FloatStep .zero) (twoWords 0x02000053 0) c) :
      c = twoWords 0x02000053 0 ∨ ∀ w, ¬ c.FetchesFloat w := by
    induction h with
    | refl => exact .inl rfl
    | tail _ hstep ih =>
      obtain ⟨w, changes, hfetch, hcycle⟩ := hstep
      rcases ih with rfl | hnone
      · rw [hcycle] at hview
        refine .inr fun w' hfetch' => ?_
        obtain rfl := Except.ok.inj (hfetch'.1.symm.trans (Except.ok.inj hview))
        exact absurd hfetch'.2 (by decide)
      · exact absurd hfetch (hnone w)
  refine (rounding_iff .zero (twoWords 0x02000053 0) rfl).2.2.mpr (fun c w hrun hfetch => ?_)
    _ _ .refl ⟨hword, by decide⟩
  rcases hreach hrun with rfl | hnone
  · obtain rfl := Except.ok.inj (hword.symm.trans hfetch.1)
    exact ⟨by decide +kernel, by decide +kernel⟩
  · exact absurd hfetch (hnone w)

/-- After `flw f0, 0(x0)` the operation `fadd.d f0, f0, f0` with the dynamic mode rounds down,
whatever `frm` holds. -/
theorem rounding_leaks :
    ¬ ∀ (fpu : Fpu) (c₀ c : Core) (w : Instr), c₀.hostRound = .toNearest →
      Relation.ReflTransGen (FloatStep fpu) c₀ c → c.FetchesFloat w →
        (decoded c w).RoundsAsDenoted := by
  intro hclaim
  have hword : (twoWords 0x00002007 0x02007053).memory.readWord 0 = .ok 0x00002007 := by
    decide +kernel
  have hview : ((twoWords 0x00002007 0x02007053).fetchCycle .zero).map
      (fun p => (p.1.hostRound, p.1.registers.readCsr 0x002,
        p.1.memory.readWord p.1.programCounter)) = .ok (.downward, 0, .ok 0x02007053) := by
    decide +kernel
  cases hcycle : (twoWords 0x00002007 0x02007053).fetchCycle .zero with
  | error e =>
    rw [hcycle] at hview
    exact nomatch hview
  | ok p =>
    rw [hcycle] at hview
    obtain ⟨hround, hview⟩ := Prod.mk.inj (Except.ok.inj hview)
    obtain ⟨hfrm, hnext⟩ := Prod.mk.inj hview
    have hstep : FloatStep .zero (twoWords 0x00002007 0x02007053) p.1 :=
      ⟨_, p.2, ⟨hword, by decide⟩, hcycle⟩
    have hop : (ControlUnit.getAluSignal 0x02007053).rounds = true := by decide
    have hdenoted : denotedMode (Instr.funct3 0x02007053) (p.1.registers.readCsr 0x002) =
        some .toNearest := by
      rw [hfrm]
      decide
    have hrounds := hclaim .zero _ p.1 0x02007053 rfl (.single hstep) ⟨hnext, by decide⟩ hop
      .toNearest hdenoted
    have hF : isFInstruction 0x02007053 = false := by decide
    have hfunct : Instr.funct3 0x02007053 = 0b111#3 := by decide
    have hdown : (decoded p.1 0x02007053).hostRound = .downward := hround
    rw [evaluationMode, floatOperands_dynamic (c := decoded p.1 0x02007053) hF hfunct,
      hdown] at hrounds
    exact absurd hrounds (by decide)

end Core

end RiscvSim
