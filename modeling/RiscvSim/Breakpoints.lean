import RiscvSim.DebugSteps

/-! Breakpoints in a session. One list holds the end of every program that was loaded and the
addresses of the lines that the user has marked. -/

namespace RiscvSim

/-- A program with the instruction at which a breakpoint on a line stops. -/
structure ListedProgram extends AssembledProgram where
  lineInstruction : BitVec 32 → Option (BitVec 32)

namespace ListedProgram

def addressOf (p : ListedProgram) (line : Word) : Option Word :=
  (p.lineInstruction (line.setWidth 32)).map fun instruction => (instruction * 4).setWidth 64

/-- `program_size_` after the program is loaded. -/
def size (p : ListedProgram) : Word := (BitVec.ofNat 32 (4 * p.textBuffer.length)).setWidth 64

end ListedProgram

/-- The machine with `program_`. -/
structure Session where
  vm : Vm
  program : ListedProgram

inductive SessionOp where
  | loadProgram (config : Config) (program : ListedProgram)
  | reset
  | addBreakpoint (line : Word)
  | removeBreakpoint (line : Word)

namespace Session

def initial (memorySize : Word) : Session := ⟨.initial memorySize, ⟨⟨[], []⟩, fun _ => none⟩⟩

/-- Add an address that is not there yet. -/
def mark (breakpoints : List Word) (bp : Word) : List Word :=
  if bp ∈ breakpoints then breakpoints else breakpoints ++ [bp]

/-- A line without an instruction is refused. -/
def addBreakpoint (s : Session) (line : Word) : Session :=
  match s.program.addressOf line with
  | none => s
  | some bp => { s with vm := { s.vm with breakpoints := mark s.vm.breakpoints bp } }

def removeBreakpoint (s : Session) (line : Word) : Session :=
  match s.program.addressOf line with
  | none => s
  | some bp =>
    if bp ∈ s.vm.breakpoints then
      { s with vm := { s.vm with breakpoints := s.vm.breakpoints.filter fun a => a ≠ bp } }
    else s

def exec (s : Session) : SessionOp → Except Fault Session
  | .loadProgram config program => do
    return ⟨← s.vm.loadProgram config program.toAssembledProgram, program⟩
  | .reset => .ok { s with vm := s.vm.reset }
  | .addBreakpoint line => .ok (s.addBreakpoint line)
  | .removeBreakpoint line => .ok (s.removeBreakpoint line)

/-- The addresses of the lines of the current program that the user has marked, when they were
`marks` before the operation. Lines of one address share its breakpoint. -/
def marksAfter (s : Session) (marks : Set Word) : SessionOp → Set Word
  | .loadProgram _ _ => ∅
  | .reset => marks
  | .addBreakpoint line => { a | a ∈ marks ∨ s.program.addressOf line = some a }
  | .removeBreakpoint line => { a | a ∈ marks ∧ s.program.addressOf line ≠ some a }

/-- `DebugRun` stops in front of an instruction of the program exactly if it is one of `marks`. -/
def StopsAtMarks (s : Session) (marks : Set Word) : Prop :=
  ∀ fpu limit (core : Core) executed w, core.programCounter < s.vm.programSize →
    core.memory.readWord core.programCounter = .ok w → ¬ executed > limit →
      ((∃ r, Vm.debugTurn fpu limit ({ s.vm with core }, executed) = .ok (.done r)) ↔
        core.programCounter ∈ marks)

/-- The same of the list. -/
structure MarksListed (s : Session) (marks : Set Word) : Prop where
  nodup : s.vm.breakpoints.Nodup
  small : s.vm.programSize.toNat < 2 ^ 32
  listed : ∀ a < s.vm.programSize, a ∈ s.vm.breakpoints ↔ a ∈ marks

section

variable {s t : Session} {marks : Set Word} {line : Word}

theorem debugTurn_done_iff {fpu : Fpu} {limit executed : Word} {v : Vm} {w : Instr}
    (hpc : v.core.programCounter < v.programSize)
    (hread : v.core.memory.readWord v.core.programCounter = .ok w) (hlimit : ¬ executed > limit) :
    (∃ r, Vm.debugTurn fpu limit (v, executed) = .ok (.done r)) ↔
      v.core.programCounter ∈ v.breakpoints := by
  have hpreview : v.preview = .ok (v.noteState w) := by
    rw [Vm.preview, hread]
    rfl
  unfold Vm.debugTurn
  dsimp only
  rw [if_neg (not_not.mpr hpc), if_neg hlimit, hpreview, Loop.bind_ok, Vm.noteState_core,
    Vm.noteState_breakpoints]
  by_cases hbreak : v.core.programCounter ∈ v.breakpoints
  · rw [if_pos hbreak]
    exact ⟨fun _ => hbreak, fun _ => ⟨_, rfl⟩⟩
  · rw [if_neg hbreak]
    refine ⟨?_, fun h => absurd h hbreak⟩
    rintro ⟨r, hr⟩
    obtain ⟨v', -, hr⟩ := Loop.bind_eq_ok hr
    cases hr

/-- Every address of a program can be fetched from in some machine. -/
theorem stopsAtMarks_iff (hsmall : s.vm.programSize.toNat < 2 ^ 32) : s.StopsAtMarks marks ↔
    ∀ a < s.vm.programSize, a ∈ s.vm.breakpoints ↔ a ∈ marks := by
  constructor
  · intro h a ha
    let core : Core := { Core.initial (BitVec.allOnes 64) with programCounter := a }
    have hrange : core.memory.InRange a 4 := by
      show a.toNat + 4 ≤ (BitVec.allOnes 64).toNat
      rw [BitVec.toNat_allOnes]
      rw [BitVec.lt_def] at ha
      omega
    have hread := Memory.readWord_eq_ok_iff.mpr ⟨hrange, rfl⟩
    have hdone := h .zero 0 core 0 _ ha hread (by decide)
    rw [← hdone]
    exact (debugTurn_done_iff (v := { s.vm with core }) ha hread (by decide)).symm
  · intro h fpu limit core executed w hpc hread hlimit
    rw [← h _ hpc]
    exact debugTurn_done_iff (v := { s.vm with core }) hpc hread hlimit

theorem mem_mark {l : List Word} {a bp : Word} : a ∈ mark l bp ↔ a ∈ l ∨ a = bp := by
  unfold mark
  by_cases hmem : bp ∈ l
  · rw [if_pos hmem]
    refine ⟨.inl, ?_⟩
    rintro (h | rfl)
    · exact h
    · exact hmem
  · rw [if_neg hmem, List.mem_append, List.mem_singleton]

theorem nodup_mark {l : List Word} (bp : Word) (h : l.Nodup) : (mark l bp).Nodup := by
  unfold mark
  by_cases hmem : bp ∈ l
  · rw [if_pos hmem]
    exact h
  · rw [if_neg hmem, ← List.concat_eq_append]
    exact h.concat hmem

theorem mem_addBreakpoint {a : Word} : a ∈ (s.addBreakpoint line).vm.breakpoints ↔
    a ∈ s.vm.breakpoints ∨ s.program.addressOf line = some a := by
  unfold addBreakpoint
  cases s.program.addressOf line with
  | none => simp
  | some bp =>
    rw [Option.some.injEq, eq_comm (a := bp)]
    exact mem_mark

theorem mem_removeBreakpoint {a : Word} : a ∈ (s.removeBreakpoint line).vm.breakpoints ↔
    a ∈ s.vm.breakpoints ∧ s.program.addressOf line ≠ some a := by
  unfold removeBreakpoint
  cases s.program.addressOf line with
  | none => simp
  | some bp =>
    dsimp only
    by_cases hmem : bp ∈ s.vm.breakpoints
    · rw [if_pos hmem]
      simp only [List.mem_filter, decide_eq_true_eq, ne_eq, Option.some.injEq, @eq_comm _ bp a]
    · rw [if_neg hmem]
      refine ⟨fun h => ⟨h, ?_⟩, fun h => h.1⟩
      intro hbp
      exact hmem (Option.some.inj hbp ▸ h)

theorem nodup_addBreakpoint (h : s.vm.breakpoints.Nodup) :
    (s.addBreakpoint line).vm.breakpoints.Nodup := by
  unfold addBreakpoint
  cases s.program.addressOf line with
  | none => exact h
  | some bp => exact nodup_mark bp h

theorem nodup_removeBreakpoint (h : s.vm.breakpoints.Nodup) :
    (s.removeBreakpoint line).vm.breakpoints.Nodup := by
  unfold removeBreakpoint
  cases s.program.addressOf line with
  | none => exact h
  | some bp =>
    dsimp only
    by_cases hmem : bp ∈ s.vm.breakpoints
    · rw [if_pos hmem]
      exact h.filter _
    · rw [if_neg hmem]
      exact h

theorem addBreakpoint_programSize : (s.addBreakpoint line).vm.programSize = s.vm.programSize := by
  unfold addBreakpoint
  cases s.program.addressOf line with
  | none => rfl
  | some bp => rfl

theorem removeBreakpoint_programSize :
    (s.removeBreakpoint line).vm.programSize = s.vm.programSize := by
  unfold removeBreakpoint
  cases s.program.addressOf line with
  | none => rfl
  | some bp => dsimp only; split <;> rfl

theorem loadText_counter {m m' : Memory} {counter counter' : BitVec 32} {text : List Instr}
    (h : Vm.loadText m counter text = .ok (m', counter')) :
    counter' = counter + BitVec.ofNat 32 (4 * text.length) := by
  induction text generalizing m counter with
  | nil =>
    obtain ⟨-, rfl⟩ := Prod.mk.inj (Except.ok.inj h)
    simp
  | cons w text ih =>
    obtain ⟨m₁, -, h⟩ := Loop.bind_eq_ok h
    rw [ih h, List.length_cons, Nat.mul_succ, Nat.add_comm (4 * _), BitVec.ofNat_add,
      ← BitVec.add_assoc]
    rfl

/-- The machine after a load: the end of the program is marked, what was marked stays. -/
theorem loadProgram_breakpoints {config : Config} {program : ListedProgram}
    (h : s.exec (.loadProgram config program) = .ok t) :
    t.vm.programSize = program.size ∧ t.vm.breakpoints = mark s.vm.breakpoints program.size := by
  obtain ⟨v, hload, h⟩ := Loop.bind_eq_ok h
  obtain ⟨⟨memory, counter⟩, htext, hload⟩ := Loop.bind_eq_ok hload
  obtain ⟨memory', -, hload⟩ := Loop.bind_eq_ok hload
  have hsize : counter.setWidth 64 = program.size := by
    rw [loadText_counter htext, ListedProgram.size]
    exact congrArg _ (BitVec.zero_add _)
  have hprogram : v.programSize = program.size :=
    hsize ▸ congrArg Vm.programSize (Except.ok.inj hload).symm
  have hlist : v.breakpoints = mark s.vm.breakpoints program.size :=
    hsize ▸ congrArg Vm.breakpoints (Except.ok.inj hload).symm
  have hvm : t.vm = v := congrArg Session.vm (Except.ok.inj h).symm
  rw [hvm]
  exact ⟨hprogram, hlist⟩

end

/-- An operation with the session before and after it. -/
structure Turn where
  before : Session
  marks : Set Word
  op : SessionOp
  after : Session

/-- A load finds nothing in the list below the end of its program. -/
def Turn.LoadsCleanly (e : Turn) : Prop :=
  ∀ config program, e.op = .loadProgram config program →
    ∀ a ∈ e.before.vm.breakpoints, ¬ a < program.size

def Turn.Correct (e : Turn) : Prop :=
  e.after.vm.breakpoints.Nodup ∧ e.after.StopsAtMarks (e.before.marksAfter e.marks e.op)

/-- Operations of a user, one after the other. -/
inductive Run : Session → Set Word → List Turn → Prop
  | stop (s : Session) (marks : Set Word) : Run s marks []
  | turn {s t : Session} {marks : Set Word} {op : SessionOp} {turns : List Turn} :
      s.exec op = .ok t → Run t (s.marksAfter marks op) turns →
      Run s marks (⟨s, marks, op, t⟩ :: turns)

section

variable {s t : Session} {marks : Set Word} {op : SessionOp} {turns : List Turn}

/-- One operation keeps the list free of duplicates and in accordance with the marks, a load only
if it finds nothing below the end of its program. -/
theorem MarksListed.exec_iff (hs : s.MarksListed marks) (h : s.exec op = .ok t) :
    t.MarksListed (s.marksAfter marks op) ↔ Turn.LoadsCleanly ⟨s, marks, op, t⟩ := by
  cases op with
  | loadProgram config program =>
    obtain ⟨hsize, hlist⟩ := loadProgram_breakpoints h
    have hsmall : program.size.toNat < 2 ^ 32 := by
      rw [ListedProgram.size, BitVec.toNat_setWidth, BitVec.toNat_ofNat]
      omega
    constructor
    · rintro hlisted _ _ ⟨⟩ a ha hlt
      have hmem : a ∈ t.vm.breakpoints := by
        rw [hlist]
        exact mem_mark.mpr (.inl ha)
      exact (hlisted.listed a (hsize ▸ hlt)).mp hmem
    · intro hclean
      refine ⟨hlist ▸ nodup_mark _ hs.nodup, hsize ▸ hsmall, fun a ha => ?_⟩
      rw [hsize] at ha
      rw [hlist, mem_mark]
      constructor
      · rintro (hold | rfl)
        · exact absurd ha (hclean _ _ rfl a hold)
        · exact absurd ha (BitVec.lt_irrefl _)
      · intro hmark
        exact absurd hmark (Set.notMem_empty a)
  | reset =>
    obtain rfl := Except.ok.inj h
    refine iff_of_true ⟨hs.nodup, hs.small, hs.listed⟩ ?_
    intro config program hop
    cases hop
  | addBreakpoint line =>
    obtain rfl := Except.ok.inj h
    refine iff_of_true ⟨nodup_addBreakpoint hs.nodup, ?_, ?_⟩ ?_
    · rw [addBreakpoint_programSize]
      exact hs.small
    · intro a ha
      rw [addBreakpoint_programSize] at ha
      rw [mem_addBreakpoint, hs.listed a ha]
      rfl
    · intro config program hop
      cases hop
  | removeBreakpoint line =>
    obtain rfl := Except.ok.inj h
    refine iff_of_true ⟨nodup_removeBreakpoint hs.nodup, ?_, ?_⟩ ?_
    · rw [removeBreakpoint_programSize]
      exact hs.small
    · intro a ha
      rw [removeBreakpoint_programSize] at ha
      rw [mem_removeBreakpoint, hs.listed a ha]
      rfl
    · intro config program hop
      cases hop

theorem programSize_exec (hs : s.vm.programSize.toNat < 2 ^ 32) (h : s.exec op = .ok t) :
    t.vm.programSize.toNat < 2 ^ 32 := by
  cases op with
  | loadProgram config program =>
    rw [(loadProgram_breakpoints h).1, ListedProgram.size, BitVec.toNat_setWidth,
      BitVec.toNat_ofNat]
    omega
  | reset => exact Except.ok.inj h ▸ hs
  | addBreakpoint line => exact Except.ok.inj h ▸ addBreakpoint_programSize.symm ▸ hs
  | removeBreakpoint line => exact Except.ok.inj h ▸ removeBreakpoint_programSize.symm ▸ hs

theorem nodup_exec (hs : s.vm.breakpoints.Nodup) (h : s.exec op = .ok t) :
    t.vm.breakpoints.Nodup := by
  cases op with
  | loadProgram config program => exact (loadProgram_breakpoints h).2 ▸ nodup_mark _ hs
  | reset => exact Except.ok.inj h ▸ hs
  | addBreakpoint line => exact Except.ok.inj h ▸ nodup_addBreakpoint hs
  | removeBreakpoint line => exact Except.ok.inj h ▸ nodup_removeBreakpoint hs

theorem MarksListed.correct_iff (hs : s.MarksListed marks) (h : s.exec op = .ok t) :
    Turn.Correct ⟨s, marks, op, t⟩ ↔ Turn.LoadsCleanly ⟨s, marks, op, t⟩ := by
  have hnodup := nodup_exec hs.nodup h
  have hsmall := programSize_exec hs.small h
  rw [← hs.exec_iff h]
  exact ⟨fun hturn => ⟨hnodup, hsmall, (stopsAtMarks_iff hsmall).mp hturn.2⟩,
    fun hlisted => ⟨hnodup, (stopsAtMarks_iff hsmall).mpr hlisted.listed⟩⟩

theorem MarksListed.run (hs : s.MarksListed marks) (hrun : Run s marks turns) :
    (∀ e ∈ turns, e.Correct) ↔ ∀ e ∈ turns, e.LoadsCleanly := by
  induction hrun with
  | stop => simp
  | turn hexec _ ih =>
    rw [List.forall_mem_cons, List.forall_mem_cons, hs.correct_iff hexec]
    constructor
    · rintro ⟨hclean, hrest⟩
      exact ⟨hclean, (ih ((hs.exec_iff hexec).mpr hclean)).mp hrest⟩
    · rintro ⟨hclean, hrest⟩
      exact ⟨hclean, (ih ((hs.exec_iff hexec).mpr hclean)).mpr hrest⟩

theorem Run.nodup (hs : s.vm.breakpoints.Nodup) (hrun : Run s marks turns) :
    ∀ e ∈ turns, e.after.vm.breakpoints.Nodup := by
  induction hrun with
  | stop => simp
  | turn hexec _ ih =>
    rw [List.forall_mem_cons]
    exact ⟨nodup_exec hs hexec, ih (nodup_exec hs hexec)⟩

theorem initial_marksListed (memorySize : Word) : (initial memorySize).MarksListed ∅ where
  nodup := List.nodup_nil
  small := by
    show (0 : Word).toNat < 2 ^ 32
    decide
  listed a _ := iff_of_false (List.not_mem_nil) (Set.notMem_empty a)

/-- `n` instructions in as many lines. -/
def straightLine (n : Nat) : ListedProgram :=
  ⟨⟨List.replicate n 0x00000013, []⟩, fun line =>
    if 1 ≤ line ∧ line.toNat ≤ n then some (line - 1) else none⟩

end

end Session

end RiscvSim
