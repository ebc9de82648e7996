import RiscvSim.Commands
import RiscvSim.Simulation

/-! The thread that reads the commands and the thread that executes them. `Run`, `DebugRun` and
`Step` run in a thread of their own, the other commands in the thread that reads them. -/

namespace RiscvSim

/-- The two commands that go round a loop until a stop is requested. -/
inductive Looping where
  | run
  | debugRun
  deriving DecidableEq, Repr

/-- The commands that `launch_vm_thread` is called for. -/
inductive Job where
  | loop (l : Looping)
  | step
  deriving DecidableEq, Repr

/-- A command that takes effect. -/
inductive Issued where
  | launch (job : Job)
  | undo
  | redo
  | reset
  deriving DecidableEq, Repr

/-- `vm_thread`: the thread exists once a job has been launched, clears the stop request before it
loops, and clears `vm_running` before it ends. -/
inductive VmThread where
  | absent
  | launched (job : Job)
  | looping (l : Looping) (executed : Word)
  | returned
  | finished
  deriving DecidableEq, Repr

/-- The virtual machine, the flags that the two threads share, and the job that waits for the
thread of the last one to be joined. -/
structure Simulator where
  vm : Vm
  stopRequested : Bool
  vmRunning : Bool
  thread : VmThread
  joining : Option Job

namespace Looping

def turn (fpu : Fpu) (limit : Word) : Looping → Vm × Word → Except Fault (ForInStep (Vm × Word))
  | run => Vm.runTurn fpu limit
  | debugRun => Vm.debugTurn fpu limit

def command : Looping → Nat → Command
  | run, turns => .run turns
  | debugRun, turns => .debugRun turns

theorem exec_command {fpu : Fpu} {limit : Word} {l : Looping} {turns : Nat} {v : Vm}
    {r : ForInStep (Vm × Word)} (h : Loop.run (l.turn fpu limit) turns (v, 0) = .ok r) :
    v.exec fpu limit (l.command turns) = .ok (Loop.final r).1 := by
  cases l with
  | run =>
    have hrun : v.run fpu limit turns = .ok r := h
    rw [command, Vm.exec, hrun]
    rfl
  | debugRun =>
    have hrun : v.debugRun fpu limit turns = .ok r := h
    rw [command, Vm.exec, hrun]
    rfl

end Looping

/-- A command without the moment at which it is stopped. -/
def Command.issued : Command → Issued
  | .run _ => .launch (.loop .run)
  | .debugRun _ => .launch (.loop .debugRun)
  | .step => .launch .step
  | .undo => .undo
  | .redo => .redo
  | .reset => .reset

@[simp] theorem Looping.command_issued (l : Looping) (turns : Nat) :
    (l.command turns).issued = .launch (.loop l) := by
  cases l <;> rfl

namespace Simulator

/-- The simulator when it has started. -/
def start (v : Vm) : Simulator := ⟨v, false, false, .absent, none⟩

/-- One turn of either thread, and the command that takes effect with it. The reading thread waits
while it joins the other. `Reset` is not guarded by `vm_running`; during a run it races with the
other thread, which has no meaning. -/
inductive Turn (fpu : Fpu) (limit : Word) : Simulator → Option Issued → Simulator → Prop
  | stop {s : Simulator} (hfree : s.joining = none) :
      Turn fpu limit s none { s with stopRequested := true }
  | ignored {s : Simulator} (hfree : s.joining = none) (hbusy : s.vmRunning = true) :
      Turn fpu limit s none s
  | launch {s : Simulator} (job : Job) (hfree : s.joining = none)
      (hidle : job = .step → s.vmRunning = false) (hnew : s.thread = .absent) :
      Turn fpu limit s (some (.launch job)) { s with vmRunning := true, thread := .launched job }
  | relaunch {s : Simulator} (job : Job) (hfree : s.joining = none)
      (hidle : job = .step → s.vmRunning = false) (hold : s.thread ≠ .absent) :
      Turn fpu limit s (some (.launch job)) { s with stopRequested := true, joining := some job }
  | join {s : Simulator} {job : Job} (hwait : s.joining = some job) (hend : s.thread = .finished) :
      Turn fpu limit s none { s with vmRunning := true, thread := .launched job, joining := none }
  | undo {s : Simulator} {v : Vm} (hfree : s.joining = none) (hidle : s.vmRunning = false)
      (h : s.vm.undo = .ok v) : Turn fpu limit s (some .undo) { s with vm := v }
  | redo {s : Simulator} {v : Vm} (hfree : s.joining = none) (hidle : s.vmRunning = false)
      (h : s.vm.redo = .ok v) : Turn fpu limit s (some .redo) { s with vm := v }
  | reset {s : Simulator} (hfree : s.joining = none) (hidle : s.vmRunning = false) :
      Turn fpu limit s (some .reset) { s with vm := s.vm.reset }
  | clear {s : Simulator} {l : Looping} (hthread : s.thread = .launched (.loop l)) :
      Turn fpu limit s none { s with stopRequested := false, thread := .looping l 0 }
  | step {s : Simulator} {v : Vm} (hthread : s.thread = .launched .step) (h : s.vm.step fpu = .ok v) :
      Turn fpu limit s none { s with vm := v, thread := .returned }
  | stopped {s : Simulator} {l : Looping} {executed : Word} (hthread : s.thread = .looping l executed)
      (hstop : s.stopRequested = true) : Turn fpu limit s none { s with thread := .returned }
  | again {s : Simulator} {l : Looping} {executed executed' : Word} {v : Vm}
      (hthread : s.thread = .looping l executed) (hgo : s.stopRequested = false)
      (h : l.turn fpu limit (s.vm, executed) = .ok (.yield (v, executed'))) :
      Turn fpu limit s none { s with vm := v, thread := .looping l executed' }
  | done {s : Simulator} {l : Looping} {executed executed' : Word} {v : Vm}
      (hthread : s.thread = .looping l executed) (hgo : s.stopRequested = false)
      (h : l.turn fpu limit (s.vm, executed) = .ok (.done (v, executed'))) :
      Turn fpu limit s none { s with vm := v, thread := .returned }
  | leave {s : Simulator} (hthread : s.thread = .returned) :
      Turn fpu limit s none { s with vmRunning := false, thread := .finished }

/-- Turns of the two threads in any order, and the commands that took effect. -/
inductive Interleaves (fpu : Fpu) (limit : Word) (s : Simulator) : List Issued → Simulator → Prop
  | refl : Interleaves fpu limit s [] s
  | silent {issued : List Issued} {t u : Simulator} (h : Interleaves fpu limit s issued t)
      (hturn : Turn fpu limit t none u) : Interleaves fpu limit s issued u
  | issue {issued : List Issued} {t u : Simulator} {i : Issued} (h : Interleaves fpu limit s issued t)
      (hturn : Turn fpu limit t (some i) u) : Interleaves fpu limit s (issued ++ [i]) u

/-- The jobs that have been issued and not begun. -/
def pending (s : Simulator) : List Issued :=
  (match s.thread with
    | .launched job => [.launch job]
    | _ => []) ++ (s.joining.map Issued.launch).toList

/-- The thread that executes is at work only while `vm_running` is set, and there is a thread to
join. -/
structure Exclusive (s : Simulator) : Prop where
  idle : s.vmRunning = false → s.thread = .absent ∨ s.thread = .finished
  joinable : s.joining ≠ none → s.thread ≠ .absent

/-- The commands `before` lead to the machine `v`; the loop of the thread, if it is in one, has made
its turns from there. -/
inductive Explains (fpu : Fpu) (limit : Word) (v₀ : Vm) (s : Simulator) : List Command → Prop
  | rest {commands : List Command} (hrest : ∀ l executed, s.thread ≠ .looping l executed)
      (hexec : Vm.execAll fpu limit commands v₀ = .ok s.vm) : Explains fpu limit v₀ s commands
  | loop {commands : List Command} {l : Looping} {executed : Word} {v : Vm} (turns : Nat)
      (hthread : s.thread = .looping l executed)
      (hexec : Vm.execAll fpu limit commands v₀ = .ok v)
      (hloop : Loop.run (l.turn fpu limit) turns (v, 0) = .ok (.yield (s.vm, executed))) :
      Explains fpu limit v₀ s (commands ++ [l.command turns])

variable {fpu : Fpu} {limit : Word} {v₀ : Vm} {s s' : Simulator} {issued : List Issued}
  {commands : List Command}

theorem execAll_snoc (command : Command) {v w : Vm} (h : Vm.execAll fpu limit commands v₀ = .ok v)
    (hcommand : v.exec fpu limit command = .ok w) :
    Vm.execAll fpu limit (commands ++ [command]) v₀ = .ok w := by
  rw [Vm.execAll_append h, Vm.execAll_cons hcommand]
  rfl

theorem Explains.exec (h : Explains fpu limit v₀ s commands) :
    Vm.execAll fpu limit commands v₀ = .ok s.vm := by
  cases h with
  | rest hrest hexec => exact hexec
  | loop turns hthread hexec hloop => exact execAll_snoc _ hexec (Looping.exec_command hloop)

/-- A thread that loops no longer. -/
theorem Explains.leaves (h : Explains fpu limit v₀ s commands) (hvm : s'.vm = s.vm)
    (hrest : ∀ l executed, s'.thread ≠ .looping l executed) : Explains fpu limit v₀ s' commands :=
  .rest hrest (hvm ▸ h.exec)

/-- Turns that leave the machine and the thread alone. -/
theorem Explains.congr (h : Explains fpu limit v₀ s commands) (hvm : s'.vm = s.vm)
    (hthread : s'.thread = s.thread) : Explains fpu limit v₀ s' commands := by
  cases h with
  | rest hrest hexec => exact .rest (hthread ▸ hrest) (hvm ▸ hexec)
  | loop turns hloopthread hexec hloop => exact .loop turns (hthread.trans hloopthread) hexec (hvm ▸ hloop)

/-- A thread at work that takes a turn. -/
theorem Exclusive.goes_on (hs : s.Exclusive) {t : VmThread} (hthread : s.thread = t)
    (habsent : t ≠ .absent) (hfinished : t ≠ .finished) (hrunning : s'.vmRunning = s.vmRunning)
    (hnew : s'.thread ≠ .absent) : s'.Exclusive := by
  refine ⟨fun hidle => ?_, fun _ => hnew⟩
  rcases hs.idle (hrunning ▸ hidle) with h | h
  · exact absurd (hthread.symm.trans h) habsent
  · exact absurd (hthread.symm.trans h) hfinished

theorem Turn.exclusive {i : Option Issued} (h : Turn fpu limit s i s') (hs : s.Exclusive) :
    s'.Exclusive := by
  cases h with
  | stop hfree => exact ⟨hs.idle, hs.joinable⟩
  | ignored hfree hbusy => exact hs
  | launch job hfree hidle hnew => exact ⟨Bool.noConfusion, fun hwait => absurd hfree hwait⟩
  | relaunch job hfree hidle hold => exact ⟨hs.idle, fun _ => hold⟩
  | join hwait hend => exact ⟨Bool.noConfusion, fun hnone => absurd rfl hnone⟩
  | undo hfree hidle h => exact ⟨hs.idle, hs.joinable⟩
  | redo hfree hidle h => exact ⟨hs.idle, hs.joinable⟩
  | reset hfree hidle => exact ⟨hs.idle, hs.joinable⟩
  | clear hthread =>
    exact hs.goes_on hthread VmThread.noConfusion VmThread.noConfusion rfl VmThread.noConfusion
  | step hthread h =>
    exact hs.goes_on hthread VmThread.noConfusion VmThread.noConfusion rfl VmThread.noConfusion
  | stopped hthread hstop =>
    exact hs.goes_on hthread VmThread.noConfusion VmThread.noConfusion rfl VmThread.noConfusion
  | again hthread hgo h =>
    exact hs.goes_on hthread VmThread.noConfusion VmThread.noConfusion rfl VmThread.noConfusion
  | done hthread hgo h =>
    exact hs.goes_on hthread VmThread.noConfusion VmThread.noConfusion rfl VmThread.noConfusion
  | leave hthread => exact ⟨fun _ => .inr rfl, fun _ => VmThread.noConfusion⟩

/-- A command that the reading thread executes itself finds the machine at rest. -/
theorem Explains.command (h : Explains fpu limit v₀ s commands) (hs : s.Exclusive)
    (hidle : s.vmRunning = false) (hfree : s.joining = none) (command : Command) {v : Vm}
    (hcommand : s.vm.exec fpu limit command = .ok v) :
    Explains fpu limit v₀ { s with vm := v } (commands ++ [command]) ∧
      (commands ++ [command]).map Command.issued ++ s.pending =
        commands.map Command.issued ++ s.pending ++ [command.issued] := by
  have hthread := hs.idle hidle
  refine ⟨.rest (fun l executed hloop => ?_) (execAll_snoc command h.exec hcommand), ?_⟩
  · change s.thread = _ at hloop
    rcases hthread with h | h <;> cases h.symm.trans hloop
  · have hnone : s.pending = [] := by
      rcases hthread with h | h <;> rw [pending, h, hfree] <;> rfl
    simp [hnone]

/-- Each turn is a command, a part of one, or nothing to the machine. -/
theorem Turn.explains {i : Option Issued} (h : Turn fpu limit s i s') (hs : s.Exclusive)
    (hexplains : Explains fpu limit v₀ s commands) :
    ∃ commands', Explains fpu limit v₀ s' commands' ∧
      commands'.map Command.issued ++ s'.pending =
        commands.map Command.issued ++ s.pending ++ i.toList := by
  cases h with
  | stop hfree => exact ⟨commands, hexplains.congr rfl rfl, (List.append_nil _).symm⟩
  | ignored hfree hbusy => exact ⟨commands, hexplains, (List.append_nil _).symm⟩
  | launch job hfree hidle hnew =>
    refine ⟨commands, hexplains.leaves rfl fun _ _ => VmThread.noConfusion, ?_⟩
    simp [pending, hfree, hnew]
  | relaunch job hfree hidle hold =>
    refine ⟨commands, hexplains.congr rfl rfl, ?_⟩
    simp [pending, hfree]
  | join hwait hend =>
    refine ⟨commands, hexplains.leaves rfl fun _ _ => VmThread.noConfusion, ?_⟩
    simp [pending, hwait, hend]
  | undo hfree hidle h =>
    exact ⟨_, hexplains.command hs hidle hfree .undo h⟩
  | redo hfree hidle h =>
    exact ⟨_, hexplains.command hs hidle hfree .redo h⟩
  | reset hfree hidle =>
    exact ⟨_, hexplains.command hs hidle hfree .reset rfl⟩
  | clear hthread =>
    cases hexplains with
    | rest hrest hexec =>
      refine ⟨_, .loop 0 rfl hexec rfl, ?_⟩
      simp [pending, hthread]
    | loop turns hloop hexec hrun => cases hthread.symm.trans hloop
  | step hthread h =>
    refine ⟨_, .rest (fun _ _ => VmThread.noConfusion) (execAll_snoc .step hexplains.exec h), ?_⟩
    simp [pending, hthread, Command.issued]
  | stopped hthread hstop =>
    refine ⟨commands, hexplains.leaves rfl fun _ _ => VmThread.noConfusion, ?_⟩
    simp [pending, hthread]
  | again hthread hgo h =>
    cases hexplains with
    | rest hrest hexec => exact absurd hthread (hrest _ _)
    | loop turns hloop hexec hrun =>
      obtain ⟨rfl, rfl⟩ := VmThread.looping.inj (hthread.symm.trans hloop)
      refine ⟨_, .loop _ rfl hexec (Loop.run_snoc hrun h), ?_⟩
      simp [pending, hthread]
  | done hthread hgo h =>
    cases hexplains with
    | rest hrest hexec => exact absurd hthread (hrest _ _)
    | loop turns hloop hexec hrun =>
      obtain ⟨rfl, rfl⟩ := VmThread.looping.inj (hthread.symm.trans hloop)
      refine ⟨_, .rest (fun _ _ => VmThread.noConfusion) (execAll_snoc _ hexec
        (Looping.exec_command (Loop.run_snoc hrun h))), ?_⟩
      simp [pending, hthread]
  | leave hthread =>
    refine ⟨commands, hexplains.leaves rfl fun _ _ => VmThread.noConfusion, ?_⟩
    simp [pending, hthread]

theorem Exclusive.start (v : Vm) : (start v).Exclusive :=
  ⟨fun _ => .inl rfl, fun hnone => absurd rfl hnone⟩

theorem Interleaves.explains (h : Interleaves fpu limit (start v₀) issued s) :
    s.Exclusive ∧ ∃ commands, Explains fpu limit v₀ s commands ∧
      issued = commands.map Command.issued ++ s.pending := by
  induction h with
  | refl => exact ⟨.start v₀, [], .rest (fun _ _ => VmThread.noConfusion) rfl, rfl⟩
  | silent _ hturn ih =>
    obtain ⟨hs, commands, hexplains, rfl⟩ := ih
    obtain ⟨commands', hexplains', hissued⟩ := hturn.explains hs hexplains
    exact ⟨hturn.exclusive hs, commands', hexplains', by rw [hissued]; exact (List.append_nil _).symm⟩
  | issue _ hturn ih =>
    obtain ⟨hs, commands, hexplains, rfl⟩ := ih
    obtain ⟨commands', hexplains', hissued⟩ := hturn.explains hs hexplains
    exact ⟨hturn.exclusive hs, commands', hexplains', by rw [hissued]; rfl⟩

/-- A loop that a stop request has reached, and what is left of its thread. -/
structure Stopping (s s' : Simulator) : Prop where
  vm : s'.vm = s.vm
  joining : s'.joining = s.joining
  thread : (∃ l executed, s'.thread = .looping l executed ∧ s'.stopRequested = true) ∨
    s'.thread = .returned ∨ s'.thread = .finished

/-- No turn but the one that joins the thread gets anything done. -/
theorem Stopping.turn {u : Simulator} (h : Stopping s s') (hturn : Turn fpu limit s' none u) :
    Stopping s u ∨ s.joining ≠ none ∧ u.joining = none := by
  have hvm := h.vm
  have hjoining := h.joining
  cases hturn with
  | stop hfree =>
    refine .inl ⟨hvm, hjoining, h.thread.imp_left ?_⟩
    rintro ⟨l, executed, hthread, -⟩
    exact ⟨l, executed, hthread, rfl⟩
  | ignored hfree hbusy => exact .inl h
  | join hwait hend =>
    refine .inr ⟨?_, rfl⟩
    rw [← hjoining, hwait]
    exact Option.some_ne_none _
  | clear hthread => rcases h.thread with ⟨l, e, h, -⟩ | h | h <;> cases hthread.symm.trans h
  | step hthread _ => rcases h.thread with ⟨l, e, h, -⟩ | h | h <;> cases hthread.symm.trans h
  | stopped hthread hstop => exact .inl ⟨hvm, hjoining, .inr (.inl rfl)⟩
  | again hthread hgo _ =>
    rcases h.thread with ⟨l, e, -, hstop⟩ | h | h
    · cases hgo.symm.trans hstop
    · cases hthread.symm.trans h
    · cases hthread.symm.trans h
  | done hthread hgo _ =>
    rcases h.thread with ⟨l, e, -, hstop⟩ | h | h
    · cases hgo.symm.trans hstop
    · cases hthread.symm.trans h
    · cases hthread.symm.trans h
  | leave hthread => exact .inl ⟨hvm, hjoining, .inr (.inr rfl)⟩

theorem Turn.joining_none {i : Option Issued} (h : Turn fpu limit s i s') (hi : i = none)
    (hnone : s.joining = none) : s'.joining = none := by
  cases h with
  | launch | relaunch | undo | redo | reset => cases hi
  | join hwait hend => rfl
  | stop | ignored | clear | step | stopped | again | done | leave => exact hnone

end Simulator

end RiscvSim
