import RiscvSim.Decimal

/-! The command line: a command word and the arguments after it. -/

namespace RiscvSim

namespace CommandHandler

inductive CommandType where
  | INVALID | MODIFY_CONFIG | LOAD | RUN | STOP | DEBUG_RUN | STEP | UNDO | REDO | RESET
  | MODIFY_REGISTER | GET_REGISTER | MODIFY_MEMORY | DUMP_MEMORY | PRINT_MEMORY
  | GET_MEMORY_POINT | DUMP_CACHE | ADD_BREAKPOINT | REMOVE_BREAKPOINT | VM_STDIN | EXIT
  deriving DecidableEq, Repr

@[ext] structure Command where
  type : CommandType
  args : List String
  deriving DecidableEq, Repr

def commandTypes : List (String × CommandType) :=
  [("modify_config", .MODIFY_CONFIG), ("mconfig", .MODIFY_CONFIG), ("load", .LOAD), ("l", .LOAD),
   ("run", .RUN), ("stop", .STOP), ("run_debug", .DEBUG_RUN), ("rd", .DEBUG_RUN), ("step", .STEP),
   ("s", .STEP), ("undo", .UNDO), ("u", .UNDO), ("redo", .REDO), ("r", .REDO), ("reset", .RESET),
   ("modify_register", .MODIFY_REGISTER), ("mreg", .MODIFY_REGISTER),
   ("get_register", .GET_REGISTER), ("greg", .GET_REGISTER), ("modify_memory", .MODIFY_MEMORY),
   ("mmem", .MODIFY_MEMORY), ("dump_mem", .DUMP_MEMORY), ("dmem", .DUMP_MEMORY),
   ("print_mem", .PRINT_MEMORY), ("pmem", .PRINT_MEMORY), ("get_mem_point", .GET_MEMORY_POINT),
   ("gmp", .GET_MEMORY_POINT), ("dump_cache", .DUMP_CACHE), ("add_breakpoint", .ADD_BREAKPOINT),
   ("remove_breakpoint", .REMOVE_BREAKPOINT), ("vm_stdin", .VM_STDIN), ("vmsin", .VM_STDIN),
   ("exit", .EXIT), ("quit", .EXIT), ("q", .EXIT)]

def commandType (word : String) : CommandType := (commandTypes.lookup word).getD .INVALID

/-- The loop over the characters after the command word. -/
structure Scan where
  args : List String := []
  currentArg : List Char := []
  inQuotes : Bool := false

namespace Scan

/-- The arguments read so far, with one that nothing has ended yet. -/
def finish (s : Scan) : List String :=
  if s.currentArg.isEmpty then s.args else s.args ++ [String.ofList s.currentArg]

def turn (s : Scan) (c : Char) : Scan :=
  if c = '"' then
    if s.inQuotes then
      { args := s.args ++ [String.ofList s.currentArg], currentArg := [], inQuotes := false }
    else { s with inQuotes := true }
  else if Decimal.isSpace c ∧ s.inQuotes = false then { s with args := s.finish, currentArg := [] }
  else { s with currentArg := s.currentArg ++ [c] }

def run (s : Scan) (cs : List Char) : Scan := cs.foldl turn s

end Scan

/-- `iss >> command_str` reads the first word; what follows it is scanned. -/
def parseCommand (input : List Char) : Command :=
  let rest := input.dropWhile Decimal.isSpace
  { type := commandType (String.ofList (rest.takeWhile (!Decimal.isSpace ·)))
    args := (Scan.run {} (rest.dropWhile (!Decimal.isSpace ·))).finish }

/-- Not empty and without whitespace. -/
structure CommandWord where
  text : List Char
  ne_nil : text ≠ []
  plain : ∀ c ∈ text, Decimal.isSpace c = false

/-- The two ways to write an argument. -/
inductive Argument where
  | quoted (text : List Char) (h : ∀ c ∈ text, c ≠ '"' ∧ c ≠ '\n')
  | bare (text : List Char) (hne : text ≠ []) (h : ∀ c ∈ text, Decimal.isSpace c = false ∧ c ≠ '"')

namespace Argument

def text : Argument → String
  | quoted cs _ => String.ofList cs
  | bare cs _ _ => String.ofList cs

def written : Argument → List Char
  | quoted cs _ => '"' :: (cs ++ ['"'])
  | bare cs _ _ => cs

end Argument

/-- Each argument with the number of spaces in front of it, less one. -/
def writtenArgs (args : List (Nat × Argument)) : List Char :=
  args.flatMap fun a => List.replicate (a.1 + 1) ' ' ++ a.2.written

namespace Scan

theorem run_append (s : Scan) (cs ds : List Char) : s.run (cs ++ ds) = (s.run cs).run ds :=
  List.foldl_append

/-- Inside quotes every character but a quote is kept. -/
theorem run_quoted {cs : List Char} (h : ∀ c ∈ cs, c ≠ '"') (s : Scan) (hs : s.inQuotes = true) :
    s.run cs = { s with currentArg := s.currentArg ++ cs } := by
  induction cs generalizing s with
  | nil => simp [run]
  | cons c cs ih =>
    have hc : s.turn c = { s with currentArg := s.currentArg ++ [c] } := by
      simp [turn, h c (by simp), hs]
    show (s.turn c).run cs = _
    rw [hc, ih (fun d hd => h d (by simp [hd])) { s with currentArg := s.currentArg ++ [c] } hs]
    simp

/-- Outside of quotes every character of a word is kept. -/
theorem run_bare {cs : List Char} (h : ∀ c ∈ cs, Decimal.isSpace c = false ∧ c ≠ '"') (s : Scan) :
    s.run cs = { s with currentArg := s.currentArg ++ cs } := by
  induction cs generalizing s with
  | nil => simp [run]
  | cons c cs ih =>
    have hc : s.turn c = { s with currentArg := s.currentArg ++ [c] } := by
      simp [turn, (h c (by simp)).1, (h c (by simp)).2]
    show (s.turn c).run cs = _
    rw [hc, ih (fun d hd => h d (by simp [hd]))]
    simp

/-- The first space ends an argument; those after it do nothing. -/
theorem run_spaces (n : Nat) (s : Scan) (hs : s.inQuotes = false) :
    s.run (List.replicate (n + 1) ' ') = { args := s.finish } := by
  have hspace : s.turn ' ' = { args := s.finish } := by
    simp [turn, hs, show Decimal.isSpace ' ' = true by decide]
  have hidle : ∀ args : List String, ({ args } : Scan).turn ' ' = { args } := by
    intro args
    simp [turn, finish, show Decimal.isSpace ' ' = true by decide]
  induction n with
  | zero => exact hspace
  | succ n ih => rw [List.replicate_succ', run_append, ih]; exact hidle _

theorem run_written (a : Argument) (args : List String) :
    (({ args } : Scan).run a.written).finish = args ++ [a.text] ∧
      (({ args } : Scan).run a.written).inQuotes = false := by
  cases a with
  | quoted cs h =>
    have hopen : ({ args } : Scan).turn '"' = { args, inQuotes := true } := rfl
    have hrun : ({ args } : Scan).run ('"' :: (cs ++ ['"'])) =
        { args := args ++ [String.ofList cs] } := by
      show (({ args } : Scan).turn '"').run (cs ++ ['"']) = _
      rw [hopen, run_append, run_quoted (fun c hc => (h c hc).1) _ rfl]
      rfl
    rw [Argument.written, hrun]
    exact ⟨rfl, rfl⟩
  | bare cs hne h =>
    rw [Argument.written, run_bare h]
    simp [finish, hne, Argument.text]

theorem run_writtenArgs (args : List (Nat × Argument)) (s : Scan) (hs : s.inQuotes = false) :
    (s.run (writtenArgs args)).finish = s.finish ++ args.map fun a => a.2.text := by
  induction args generalizing s with
  | nil => simp [writtenArgs, run]
  | cons a args ih =>
    obtain ⟨hfinish, hquotes⟩ := run_written a.2 s.finish
    have hcons : writtenArgs (a :: args) =
        List.replicate (a.1 + 1) ' ' ++ (a.2.written ++ writtenArgs args) := by
      simp [writtenArgs]
    rw [hcons, run_append, run_append, run_spaces a.1 s hs, ih _ hquotes, hfinish]
    simp

end Scan

/-- What follows the command word begins with a space. -/
theorem takeWhile_word (word : CommandWord) (args : List (Nat × Argument)) :
    (word.text ++ writtenArgs args).takeWhile (!Decimal.isSpace ·) = word.text ∧
      (word.text ++ writtenArgs args).dropWhile (!Decimal.isSpace ·) = writtenArgs args := by
  have hword : ∀ c ∈ word.text, (!Decimal.isSpace c) = true := by
    intro c hc
    simp [word.plain c hc]
  rw [List.takeWhile_append_of_pos hword, List.dropWhile_append_of_pos hword]
  cases args with
  | nil => simp [writtenArgs]
  | cons a args =>
    simp [writtenArgs, List.replicate_succ, show Decimal.isSpace ' ' = true by decide]

/-- Whatever the arguments, and however many spaces stand between them, they come back as they
were written. -/
theorem parseCommand_written (word : CommandWord) (args : List (Nat × Argument)) :
    parseCommand (word.text ++ writtenArgs args) =
      ⟨commandType (String.ofList word.text), args.map fun a => a.2.text⟩ := by
  have hfirst : (word.text ++ writtenArgs args).dropWhile Decimal.isSpace =
      word.text ++ writtenArgs args := by
    obtain ⟨c, cs, htext⟩ := List.exists_cons_of_ne_nil word.ne_nil
    have hc := word.plain c (by simp [htext])
    simp [htext, hc]
  obtain ⟨htake, hdrop⟩ := takeWhile_word word args
  rw [parseCommand, hfirst, htake, hdrop]
  exact Command.ext rfl (Scan.run_writtenArgs args {} rfl)

end CommandHandler

end RiscvSim
