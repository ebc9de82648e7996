import RiscvSim.Commands
import RiscvSim.Leftovers

/-! A run after a reset against the run of a fresh simulator. -/

namespace RiscvSim

namespace Core

theorem Leftovers.symm {c c' : Core} (h : Leftovers c c') : Leftovers c' c := by
  obtain ⟨heq, hsize⟩ := h
  have hdone : c'.bigmul.bigmulDone = c.bigmul.bigmulDone := by rw [heq]; rfl
  refine ⟨?_, fun hc => (hsize (hdone ▸ hc)).symm⟩
  rw [heq]
  rfl

theorem Leftovers.busy {c c' : Core} (h : Leftovers c c') : c'.busy = c.busy := by
  rw [h.eq]
  rfl

/-- The state with another word fetched before. -/
def withInstruction (c : Core) (w : Instr) : Core := { c with currentInstruction := w }

/-- That word does not matter to a fetch cycle. -/
theorem fetchCycle_withInstruction {fpu : Fpu} (c : Core) (w : Instr) :
    (c.withInstruction w).fetchCycle fpu = c.fetchCycle fpu := rfl

end Core

namespace Vm

/-- Two machines that differ in leftovers, in the word fetched before and in the history. -/
structure Alike (v v' : Vm) : Prop where
  programSize : v'.programSize = v.programSize
  instruction : v.core.busy = true → v'.core.currentInstruction = v.core.currentInstruction
  core : v.core.Leftovers (v'.core.withInstruction v.core.currentInstruction)

/-- Equal operand sizes. -/
def SameSize (v v' : Vm) : Prop :=
  v'.core.bigmul.sizeOfOperand = v.core.bigmul.sizeOfOperand

/-- Equal pending input. -/
def SameInput (v v' : Vm) : Prop := v'.core.inputQueue = v.core.inputQueue

variable {v v' u : Vm} {fpu : Fpu} {limit : Word}

theorem Alike.busy (h : Alike v v') : v'.core.busy = v.core.busy := h.core.busy

theorem Alike.arch (h : Alike v v') : v'.core.arch = v.core.arch := by
  have harch := congrArg Core.arch h.core.eq
  exact harch

theorem Alike.symm (h : Alike v v') : Alike v' v := by
  have hl := h.core.symm
  have heq := congrArg (Core.withInstruction · v'.core.currentInstruction) hl.eq
  exact ⟨h.programSize.symm, fun hbusy => (h.instruction (h.busy ▸ hbusy)).symm, heq, hl.size⟩

theorem Alike.programCounter (h : Alike v v') : v'.core.programCounter = v.core.programCounter :=
  congrArg Arch.programCounter h.arch

theorem Alike.registers (h : Alike v v') : v'.core.registers = v.core.registers :=
  congrArg Arch.registers h.arch

theorem Alike.memory (h : Alike v v') : v'.core.memory = v.core.memory :=
  congrArg Arch.memory h.arch

/-- While the machine stalls its instruction is the same too. -/
theorem Alike.leftovers (h : Alike v v') (hbusy : v.core.busy = true) :
    v.core.Leftovers v'.core := by
  have hcore := h.core
  have hsame : v'.core.withInstruction v.core.currentInstruction = v'.core := by
    rw [← h.instruction hbusy]
    rfl
  rw [hsame] at hcore
  exact hcore

theorem Alike.stallWrite (h : Alike v v') (hbusy : v.core.busy = true) (hu : v.stallWrite = .ok u) :
    ∃ u', v'.stallWrite = .ok u' ∧ Alike u u' ∧ (SameSize v v' → SameSize u u') ∧
      (SameInput v v' → SameInput u u') := by
  obtain ⟨⟨d, changes⟩, hmem, hu⟩ := Loop.bind_eq_ok hu
  obtain rfl := Except.ok.inj hu
  obtain ⟨heq, hsize⟩ := h.leftovers hbusy
  obtain ⟨hmem', hsize'⟩ := Core.writeMemory_leftovers (q := v'.core.inputQueue) hmem hsize
  obtain ⟨hkept, hqueue⟩ := Core.writeMemory_kept hmem
  rw [← heq] at hmem'
  refine ⟨_, Loop.bind_of_eq_ok hmem' _, ⟨h.programSize, fun _ => rfl, ⟨rfl, hsize'⟩⟩, ?_, ?_⟩
  · exact fun hsame => hsame.trans hkept.symm
  · exact fun hsame => hsame.trans hqueue.symm

theorem Alike.stallExecute (h : Alike v v') (hbusy : v.core.bigmulBusy = true)
    (hu : v.stallExecute = .ok u) :
    ∃ u', v'.stallExecute = .ok u' ∧ Alike u u' ∧ SameSize u u' ∧
      (SameInput v v' → SameInput u u') := by
  have hbusy' : v.core.busy = true := by rw [Core.busy, hbusy, Bool.or_true]
  obtain ⟨heq, hsize⟩ := h.leftovers hbusy'
  have hdone : v.core.bigmul.bigmulDone = false := by
    simpa [Core.bigmulBusy] using (Bool.and_eq_true_iff.mp hbusy).2
  have hunit : v'.core.bigmul = v.core.bigmul := by
    rw [heq, hsize hdone]
    rfl
  obtain ⟨b, hb, hu⟩ := Loop.bind_eq_ok hu
  obtain rfl := Except.ok.inj hu
  have hcore := congrArg (fun c : Core => (({ c with bigmul := b, cycleS := c.cycleS + 1 } : Core)
    |>.withInstruction v.core.currentInstruction)) heq
  exact ⟨_, Loop.bind_of_eq_ok (hunit ▸ hb) _, ⟨h.programSize, fun _ => h.instruction hbusy',
    ⟨hcore, fun _ => rfl⟩⟩, rfl, id⟩

theorem Alike.stallCycle (h : Alike v v') (hbusy : v.core.busy = true) (hu : v.stallCycle = .ok u) :
    ∃ u', v'.stallCycle = .ok u' ∧ Alike u u' ∧ (SameSize v v' → SameSize u u') ∧
      (SameInput v v' → SameInput u u') := by
  have hcore := h.leftovers hbusy
  have hldbm : v'.core.ldbmBusy = v.core.ldbmBusy := by
    rw [hcore.eq]
    rfl
  have hwrite : v'.core.bigmul.writeDone = v.core.bigmul.writeDone := by
    rw [hcore.eq]
    rfl
  unfold Vm.stallCycle stallBigmul at hu ⊢
  rw [hldbm, hwrite]
  by_cases hfirst : v.core.ldbmBusy = true
  · rw [if_pos hfirst] at hu ⊢
    exact h.stallWrite hbusy hu
  rw [if_neg hfirst] at hu ⊢
  by_cases hback : v.core.bigmul.writeDone = true
  · rw [if_neg (not_not.mpr hback)] at hu ⊢
    have hbigmul : v.core.bigmulBusy = true := by
      rw [Core.busy, Bool.or_eq_true] at hbusy
      exact hbusy.resolve_left hfirst
    obtain ⟨u', hu', halike, hsize, hinput⟩ := h.stallExecute hbigmul hu
    exact ⟨u', hu', halike, fun _ => hsize, hinput⟩
  · rw [if_pos hback] at hu ⊢
    exact h.stallWrite hbusy hu

/-- A fetch cycle of alike machines, if a BIGMUL finds a usable size register or the same old
size, and a read system call the same input. -/
theorem Alike.fetchCycle {w : Instr} (h : Alike v v') (hw : v.nextWord = .ok w)
    (hclean : w.opcode = 0b0111111#7 → v.core.SetsSize w ∨ SameSize v v')
    (hread : v.core.ReadsInput w → SameInput v v') (hu : v.fetchCycle fpu = .ok u) :
    ∃ u', v'.fetchCycle fpu = .ok u' ∧ Alike u u' ∧
      (w.opcode = 0b0111111#7 ∨ SameSize v v' → SameSize u u') ∧
      (SameInput v v' → SameInput u u') := by
  obtain ⟨⟨d, changes⟩, hcycle, hu⟩ := Loop.bind_eq_ok hu
  obtain rfl := Except.ok.inj hu
  obtain ⟨d', hcycle', hl, hsize, hinput⟩ := h.core.fetchCycle hw hcycle hclean hread
  rw [Core.fetchCycle_withInstruction] at hcycle'
  have hword : d'.currentInstruction = d.currentInstruction := by
    rw [hl.eq]
    rfl
  have hsame : d'.withInstruction d.currentInstruction = d' := by
    rw [← hword]
    rfl
  exact ⟨_, Loop.bind_of_eq_ok hcycle' _,
    ⟨h.programSize, fun _ => hword, hsame.symm ▸ hl⟩, hsize, hinput⟩

/-- The next turn of `Run` fetches the word `w`. -/
def AboutToFetch (limit : Word) (r : Vm × Word) (w : Instr) : Prop :=
  r.1.core.programCounter < r.1.programSize ∧ ¬ r.2 > limit ∧ r.1.core.busy = false ∧
    r.1.nextWord = .ok w

/-- The machines of two runs after equally many instructions. -/
structure RunAlike (r r' : Vm × Word) : Prop where
  executed : r'.2 = r.2
  machine : Alike r.1 r'.1

theorem RunAlike.symm {r r' : Vm × Word} (h : RunAlike r r') : RunAlike r' r :=
  ⟨h.executed.symm, h.machine.symm⟩

/-- What a turn of `Run` may do without showing the leftovers. -/
structure CleanTurn (limit : Word) (r r' : Vm × Word) : Prop where
  size : ∀ w, AboutToFetch limit r w → w.opcode = 0b0111111#7 →
    r.1.core.SetsSize w ∨ SameSize r.1 r'.1
  input : ∀ w, AboutToFetch limit r w → r.1.core.ReadsInput w → SameInput r.1 r'.1

theorem RunAlike.yield {r r' t : Vm × Word} (h : RunAlike r r') (hclean : CleanTurn limit r r')
    (ht : runTurn fpu limit r = .ok (.yield t)) :
    ∃ t', runTurn fpu limit r' = .ok (.yield t') ∧ RunAlike t t' ∧
      ((∃ w, AboutToFetch limit r w ∧ w.opcode = 0b0111111#7) ∨ SameSize r.1 r'.1 →
        SameSize t.1 t'.1) ∧
      (SameInput r.1 r'.1 → SameInput t.1 t'.1) := by
  obtain ⟨⟨hpc, hlimit⟩, hturn⟩ := runTurn_eq_yield ht
  have hpc' : r'.1.core.programCounter < r'.1.programSize := by
    rw [h.machine.programSize, h.machine.programCounter]
    exact hpc
  have hlimit' : ¬ r'.2 > limit := h.executed ▸ hlimit
  rcases hturn with ⟨hbusy, hstall, hcount⟩ | ⟨hbusy, hfetch, hcount⟩
  · obtain ⟨u', hu', halike, hsize, hinput⟩ := h.machine.stallCycle hbusy hstall
    refine ⟨_, runTurn_stall hpc' hlimit' (h.machine.busy.trans hbusy) hu',
      ⟨h.executed.trans hcount.symm, halike⟩, fun hsame => ?_, hinput⟩
    rcases hsame with ⟨w, hw, -⟩ | hsame
    · exact absurd (hw.2.2.1.symm.trans hbusy) Bool.false_ne_true
    · exact hsize hsame
  · obtain ⟨w, hw⟩ : ∃ w, r.1.nextWord = .ok w := by
      obtain ⟨⟨d, changes⟩, hcycle, -⟩ := Loop.bind_eq_ok hfetch
      obtain ⟨w, -, -, -, -, -, hw, -⟩ := fetchCycle_stages hcycle
      exact ⟨w, hw⟩
    have habout : AboutToFetch limit r w := ⟨hpc, hlimit, hbusy, hw⟩
    obtain ⟨u', hu', halike, hsize, hinput⟩ :=
      h.machine.fetchCycle hw (hclean.size w habout) (hclean.input w habout) hfetch
    refine ⟨_, runTurn_fetch hpc' hlimit' (h.machine.busy.trans hbusy) hu',
      ⟨by rw [hcount, h.executed], halike⟩, fun hsame => ?_, hinput⟩
    rcases hsame with ⟨w', hw', hop⟩ | hsame
    · obtain rfl : w = w' := Except.ok.inj (hw.symm.trans hw'.2.2.2)
      exact hsize (.inl hop)
    · exact hsize (.inr hsame)

theorem AboutToFetch.alike {r r' : Vm × Word} {w : Instr} (hw : AboutToFetch limit r' w)
    (h : RunAlike r r') : AboutToFetch limit r w := by
  obtain ⟨hpc, hlimit, hbusy, hword⟩ := hw
  rw [h.machine.programCounter, h.machine.programSize] at hpc
  rw [h.executed] at hlimit
  rw [nextWord, h.machine.memory, h.machine.programCounter] at hword
  exact ⟨hpc, hlimit, h.machine.busy ▸ hbusy, hword⟩

theorem CleanTurn.symm {r r' : Vm × Word} (hclean : CleanTurn limit r r') (h : RunAlike r r') :
    CleanTurn limit r' r := by
  refine ⟨fun w hw hop => ?_, fun w hw hread => ?_⟩
  · rw [Core.SetsSize, h.machine.registers]
    exact (hclean.size w (hw.alike h) hop).imp id Eq.symm
  · rw [Core.ReadsInput, h.machine.registers] at hread
    exact (hclean.input w (hw.alike h) hread).symm

/-- Clean turns stay in lockstep. -/
theorem RunAlike.turn {r r' : Vm × Word} (h : RunAlike r r') (hclean : CleanTurn limit r r') :
    Loop.Lockstep
      (fun t t' => RunAlike t t' ∧
        ((∃ w, AboutToFetch limit r w ∧ w.opcode = 0b0111111#7) ∨ SameSize r.1 r'.1 →
          SameSize t.1 t'.1) ∧
        (SameInput r.1 r'.1 → SameInput t.1 t'.1))
      RunAlike (runTurn fpu limit r) (runTurn fpu limit r') := by
  have hend : (¬ r.1.core.programCounter < r.1.programSize ∨ r.2 > limit) ↔
      (¬ r'.1.core.programCounter < r'.1.programSize ∨ r'.2 > limit) := by
    rw [h.machine.programCounter, h.machine.programSize, h.executed]
  by_cases hstop : ¬ r.1.core.programCounter < r.1.programSize ∨ r.2 > limit
  · rw [runTurn_end hstop, runTurn_end (hend.mp hstop)]
    exact h
  have hyield {s s' : Vm × Word} (hstop : ¬ (¬ s.1.core.programCounter < s.1.programSize ∨ s.2 > limit))
      (hs : runTurn fpu limit s = .ok (.done s')) : False := hstop (runTurn_eq_done hs).2
  cases ht : runTurn fpu limit r with
  | error e =>
    cases ht' : runTurn fpu limit r' with
    | error e' => trivial
    | ok q =>
      cases q with
      | done t' => exact hyield (mt hend.mpr hstop) ht'
      | yield t' =>
        obtain ⟨t, ht'', -⟩ := h.symm.yield (hclean.symm h) ht'
        exact nomatch ht.symm.trans ht''
  | ok q =>
    cases q with
    | done t => exact (hyield hstop ht).elim
    | yield t =>
      obtain ⟨t', ht', halike⟩ := h.yield hclean ht
      rw [ht']
      exact halike

/-- Every run has a thread of its own, which starts with the default rounding mode, and reads
`inputs` after the lines that are pending. -/
def launch (inputs : List (List Byte)) (v : Vm) : Vm :=
  { v with core := { v.core with
    hostRound := .toNearest
    inputQueue := v.core.inputQueue ++ inputs } }

/-- LOAD, then RUN for at most `turns` rounds with the given input. -/
def loadAndRun (fpu : Fpu) (config : Config) (program : AssembledProgram)
    (inputs : List (List Byte)) (turns : Nat) (v : Vm) : Except Fault (ForInStep (Vm × Word)) := do
  let v ← v.loadProgram config program
  (v.launch inputs).run fpu config.instructionExecutionLimit turns

/-- What a run shows: whether it ended by itself, and the architectural state it reached. -/
def shown : Except Fault (ForInStep (Vm × Word)) → Option (Bool × Arch)
  | .error _ => none
  | .ok (.done (v, _)) => some (true, v.core.arch)
  | .ok (.yield (v, _)) => some (false, v.core.arch)

/-- After `k` rounds the run is about to fetch `w`. -/
def FetchesAt (fpu : Fpu) (limit : Word) (v : Vm) (k : Nat) (r : Vm × Word) (w : Instr) : Prop :=
  v.run fpu limit k = .ok (.yield r) ∧ AboutToFetch limit r w

/-- The first BIGMUL of the run, if there is one, finds a usable operand size. -/
def SetsSizeFirst (fpu : Fpu) (limit : Word) (v : Vm) : Prop :=
  ∀ k r w, FetchesAt fpu limit v k r w → w.opcode = 0b0111111#7 →
    (∃ j < k, ∃ r' w', FetchesAt fpu limit v j r' w' ∧ w'.opcode = 0b0111111#7) ∨
      r.1.core.SetsSize w

/-- The run makes no read system call on the standard input. -/
def NeverReads (fpu : Fpu) (limit : Word) (v : Vm) : Prop :=
  ∀ k r w, FetchesAt fpu limit v k r w → ¬ r.1.core.ReadsInput w

/-- The run of the program after a reset does not look at what the reset leaves behind. -/
structure HidesLeftovers (fpu : Fpu) (config : Config) (program : AssembledProgram)
    (inputs : List (List Byte)) (v : Vm) : Prop where
  size : v.core.bigmul.sizeOfOperand = .default ∨ ∀ u, v.reset.loadProgram config program = .ok u →
    SetsSizeFirst fpu config.instructionExecutionLimit (u.launch inputs)
  input : v.core.inputQueue = [] ∨ ∀ u, v.reset.loadProgram config program = .ok u →
    NeverReads fpu config.instructionExecutionLimit (u.launch inputs)

/-- The machines of the two runs after `k` rounds. -/
structure RunsAlike (fpu : Fpu) (limit : Word) (v v' : Vm) (k : Nat) (r r' : Vm × Word) : Prop where
  alike : RunAlike r r'
  size : SameSize v v' ∨
    (∃ j < k, ∃ q w, FetchesAt fpu limit v j q w ∧ w.opcode = 0b0111111#7) → SameSize r.1 r'.1
  input : SameInput v v' → SameInput r.1 r'.1

theorem run_alike (h : Alike v v')
    (hsize : SameSize v v' ∨ SetsSizeFirst fpu limit v)
    (hinput : SameInput v v' ∨ NeverReads fpu limit v) (turns : Nat) :
    Loop.Lockstep (RunsAlike fpu limit v v' turns) RunAlike (v.run fpu limit turns)
      (v'.run fpu limit turns) := by
  refine Loop.run_lockstep (RunsAlike fpu limit v v') RunAlike (fun k r r' hrun hr => ?_)
    ⟨⟨rfl, h⟩, fun hsame => hsame.resolve_right (by simp), id⟩
  have hclean : CleanTurn limit r r' := by
    refine ⟨fun w hw hop => ?_, fun w hw hread => ?_⟩
    · rcases hsize with hsame | hfirst
      · exact .inr (hr.size (.inl hsame))
      · rcases hfirst k r w ⟨hrun, hw⟩ hop with hearlier | hsets
        · exact .inr (hr.size (.inr hearlier))
        · exact .inl hsets
    · exact hr.input (hinput.resolve_right fun hnever => hnever k r w ⟨hrun, hw⟩ hread)
  refine (hr.alike.turn hclean).imp fun t t' ht => ⟨ht.1, fun hsame => ?_, fun hsame => ?_⟩
  · rcases hsame with hsame | ⟨j, hj, q, w, hq, hop⟩
    · exact ht.2.1 (.inr (hr.size (.inl hsame)))
    rcases Nat.lt_succ_iff_lt_or_eq.mp hj with hj | rfl
    · exact ht.2.1 (.inr (hr.size (.inr ⟨j, hj, q, w, hq, hop⟩)))
    · obtain rfl : q = r := by
        have heq := hq.1.symm.trans hrun
        injection heq with heq
        injection heq
      exact ht.2.1 (.inl ⟨w, hq.2, hop⟩)
  · exact ht.2.2 (hr.input hsame)

/-- A reset and the start of the simulator differ in leftovers only. -/
theorem reset_loadProgram {config : Config} {program : AssembledProgram}
    (hu : v.reset.loadProgram config program = .ok u) (inputs : List (List Byte)) :
    ∃ u', (initial v.core.memory.size).loadProgram config program = .ok u' ∧
      Alike (u.launch inputs) (u'.launch inputs) ∧
      (v.core.bigmul.sizeOfOperand = .default → SameSize (u.launch inputs) (u'.launch inputs)) ∧
      (v.core.inputQueue = [] → SameInput (u.launch inputs) (u'.launch inputs)) := by
  obtain ⟨⟨m, counter⟩, htext, hu⟩ := Loop.bind_eq_ok hu
  obtain ⟨m', hdata, hu⟩ := Loop.bind_eq_ok hu
  obtain rfl := Except.ok.inj hu
  refine ⟨_, (Loop.bind_of_eq_ok htext _).trans (Loop.bind_of_eq_ok hdata _), ?_, ?_, ?_⟩
  · refine ⟨rfl, fun hbusy => ?_, rfl, fun hdone => ?_⟩
    · exact absurd hbusy Bool.false_ne_true
    · exact absurd hdone.symm Bool.false_ne_true
  · exact fun hsize => hsize.symm
  · intro hqueue
    change [] ++ inputs = v.core.inputQueue ++ inputs
    rw [hqueue]

/-- Loading fails on the memory alone. -/
theorem loadProgram_error {config : Config} {program : AssembledProgram} {e : Fault}
    (hm : v'.core.memory = v.core.memory) (h : v.loadProgram config program = .error e) :
    v'.loadProgram config program = .error e := by
  unfold loadProgram at h ⊢
  rw [hm]
  cases htext : loadText v.core.memory 0 program.textBuffer with
  | error e' =>
    rw [htext] at h
    exact h
  | ok text =>
    obtain ⟨m, counter⟩ := text
    rw [htext, Loop.bind_ok] at h
    rw [Loop.bind_ok]
    dsimp only at h ⊢
    cases hdata : loadData config.dataSectionStart m 0 program.dataBuffer with
    | error e' =>
      rw [hdata] at h
      exact h
    | ok m =>
      rw [hdata] at h
      exact nomatch h

theorem Lockstep.shown {k : Nat} {x y : Except Fault (ForInStep (Vm × Word))}
    (h : Loop.Lockstep (RunsAlike fpu limit v v' k) RunAlike x y) : shown x = shown y := by
  cases x with
  | error e =>
    cases y with
    | error e' => rfl
    | ok r => exact h.elim
  | ok r =>
    cases y with
    | error e => cases r <;> exact h.elim
    | ok r' =>
      cases r with
      | done s =>
        cases r' with
        | done t => exact congrArg (fun a => some (true, a)) h.machine.arch.symm
        | yield t => exact h.elim
      | yield s =>
        cases r' with
        | done t => exact h.elim
        | yield t => exact congrArg (fun a => some (false, a)) h.alike.machine.arch.symm

/-- Reset, load and run of a program show what a fresh simulator with the same memory size shows,
if the run does not look at what the reset leaves behind. -/
theorem reset_shows_fresh {config : Config} {program : AssembledProgram} {inputs : List (List Byte)}
    (h : HidesLeftovers fpu config program inputs v) (turns : Nat) :
    shown (v.reset.loadAndRun fpu config program inputs turns) =
      shown ((initial v.core.memory.size).loadAndRun fpu config program inputs turns) := by
  unfold loadAndRun
  cases hu : v.reset.loadProgram config program with
  | error e =>
    have hmemory : (initial v.core.memory.size).core.memory = v.reset.core.memory := rfl
    rw [loadProgram_error hmemory hu]
  | ok u =>
    obtain ⟨u', hu', halike, hsize, hinput⟩ := reset_loadProgram hu inputs
    rw [hu']
    exact Lockstep.shown (run_alike halike (h.size.imp hsize fun hfirst => hfirst u hu)
      (h.input.imp hinput fun hnever => hnever u hu) turns)

/-- `addi x4, x0, 1`, and a product of one word at address 0. -/
def oneWordProduct : AssembledProgram := ⟨[0x00100213, 0x0040003f], []⟩

/-- `addi x1, x0, 0x100`, a product at that address whose size register is `x0`, and `nop`. -/
def unsizedProduct : AssembledProgram := ⟨[0x10000093, 0x0000803f, 0x00000013], [.byte 5]⟩

/-- The byte at `address` where a run ended. -/
def endByte (address : Word) (r : Except Fault (ForInStep (Vm × Word))) : Option Byte :=
  (shown r).map fun a => a.2.memory.byte address

/-- After the reset the product has one word again and spares the byte. -/
theorem unsizedProduct_run :
    ((initial 0x1000).loadProgram ⟨0x200, 100⟩ oneWordProduct >>= fun v₀ =>
      v₀.execAll .zero 100 [.run 400] >>= fun v => .ok
        (endByte 0x200 (v.reset.loadAndRun .zero ⟨0x200, 100⟩ unsizedProduct [] 400),
          endByte 0x200 ((initial 0x1000).loadAndRun .zero ⟨0x200, 100⟩ unsizedProduct [] 400))) =
      .ok (some 5, some 0) := by
  decide +kernel

theorem reset_not_fresh :
    ¬ ∀ v₀ v commands, (initial 0x1000).loadProgram ⟨0x200, 100⟩ oneWordProduct = .ok v₀ →
      v₀.execAll .zero 100 commands = .ok v → ∀ turns,
        shown (v.reset.loadAndRun .zero ⟨0x200, 100⟩ unsizedProduct [] turns) =
          shown ((initial 0x1000).loadAndRun .zero ⟨0x200, 100⟩ unsizedProduct [] turns) := by
  intro hfresh
  obtain ⟨v₀, hload, h⟩ := Loop.bind_eq_ok unsizedProduct_run
  obtain ⟨v, hexec, h⟩ := Loop.bind_eq_ok h
  have hbytes := Prod.mk.inj (Except.ok.inj h)
  have hsame := congrArg (Option.map fun a => a.2.memory.byte 0x200)
    (hfresh v₀ v _ hload hexec 400)
  have hbyte : (some 5 : Option Byte) = some 0 := hbytes.1.symm.trans (hsame.trans hbytes.2)
  exact absurd hbyte (by decide)

/-- `addi x1, x0, 1` after the same commands does not look at the operand size. -/
theorem reset_shows_fresh_add : ∃ v : Vm, v.core.bigmul.sizeOfOperand ≠ .default ∧ ∀ turns,
    shown (v.reset.loadAndRun .zero ⟨0x200, 100⟩ ⟨[0x00100093], []⟩ [] turns) =
      shown ((initial v.core.memory.size).loadAndRun .zero ⟨0x200, 100⟩ ⟨[0x00100093], []⟩ []
        turns) := by
  have hvalues : ((initial 0x1000).loadProgram ⟨0x200, 100⟩ oneWordProduct >>= fun v₀ =>
      v₀.execAll .zero 100 [.run 400] >>= fun v =>
        v.reset.loadProgram ⟨0x200, 100⟩ ⟨[0x00100093], []⟩ >>= fun u =>
          (u.launch []).nextWord >>= fun w => (u.launch []).run .zero 100 1 >>= fun r => .ok
            (decide (v.core.bigmul.sizeOfOperand = .default), v.core.inputQueue.isEmpty, w,
              match r with
              | .done _ => true
              | .yield r => decide (r.1.core.programCounter < r.1.programSize))) =
      .ok (false, true, 0x00100093, false) := by
    decide +kernel
  obtain ⟨v₀, -, h⟩ := Loop.bind_eq_ok hvalues
  obtain ⟨v, -, h⟩ := Loop.bind_eq_ok h
  obtain ⟨u, hload, h⟩ := Loop.bind_eq_ok h
  obtain ⟨w, hw, h⟩ := Loop.bind_eq_ok h
  obtain ⟨r, hrun, h⟩ := Loop.bind_eq_ok h
  simp only [Except.ok.injEq, Prod.mk.injEq, decide_eq_false_iff_not, List.isEmpty_iff] at h
  obtain ⟨hsize, hqueue, rfl, hend⟩ := h
  refine ⟨v, hsize, reset_shows_fresh ⟨.inr fun u' hload' k q w' hq hop => ?_, .inl hqueue⟩⟩
  obtain rfl : u = u' := Except.ok.inj (hload.symm.trans hload')
  obtain ⟨hk, hpc, -, -, hword⟩ := hq
  cases r with
  | done r => exact nomatch hend
  | yield r =>
    rw [decide_eq_false_iff_not] at hend
    match k with
    | 0 =>
      have hstart : (u.launch [], (0 : Word)) = q := by
        injection hk with hk
        injection hk
      rw [← hstart] at hword
      obtain rfl := Except.ok.inj (hw.symm.trans hword)
      exact absurd hop (by decide)
    | 1 =>
      have hnext : r = q := by
        have heq := hrun.symm.trans hk
        injection heq with heq
        injection heq
      exact absurd (hnext ▸ hpc) hend
    | k + 2 =>
      rw [run, Nat.add_comm, show 2 + k = 1 + (1 + k) by omega, Loop.run_add hrun, Nat.add_comm 1 k,
        Loop.run_succ_done (runTurn_end (.inl hend))] at hk
      exact nomatch hk

end Vm

end RiscvSim
