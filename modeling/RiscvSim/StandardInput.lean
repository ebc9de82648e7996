import RiscvSim.Recorded

/-! The queue of inputs: pushed as whole strings, taken out by the read system call with a length
of its own. -/

namespace RiscvSim

namespace Memory

variable {m : Memory} {address : Word} {n : Nat} {bytes : List Byte}

theorem overwrite_byte (x : Word) : (m.overwrite address 0 bytes).byte x =
    (bytes[(x - address).toNat]?).getD (m.byte x) := by
  simp [overwrite]

/-- The bytes that were put at an address are there. -/
theorem bytesAt_of_byte (h : ∀ i < bytes.length,
    bytes[i]? = some (m.byte (address + BitVec.ofNat 64 i))) :
    m.bytesAt address bytes.length = bytes := by
  refine List.ext_getElem (by simp) fun i hi hi' => ?_
  have hbyte := h i hi'
  rw [List.getElem?_eq_getElem hi'] at hbyte
  simp only [bytesAt, List.getElem_map, List.getElem_range]
  exact (Option.some.inj hbyte).symm

end Memory

namespace Core

def pushInput (c : Core) (input : List Byte) : Core :=
  { c with inputQueue := c.inputQueue ++ [input] }

/-- The next instruction is an ECALL that reads from the standard input. -/
structure AtRead (c : Core) : Prop where
  syscall : c.registers.readGpr 17 = 63
  descriptor : c.registers.readGpr 10 = 0

def bufferAddress (c : Core) : Word := c.registers.readGpr 11

def bufferLength (c : Core) : Nat := (c.registers.readGpr 12).toNat

/-- The buffer has room for the input at the front of the queue. -/
def InputFits (c : Core) : Prop := ∀ input ∈ c.inputQueue.head?, input.length ≤ c.bufferLength

/-- From `c` to `d` a read has put the beginning of the first input into the buffer. -/
structure ReadsInto (c d : Core) (input : List Byte) : Prop where
  queue : c.inputQueue = input :: d.inputQueue
  count : (d.registers.readGpr 10).toNat = min c.bufferLength input.length
  delivered : d.memory.bytesAt c.bufferAddress (d.registers.readGpr 10).toNat =
    input.take c.bufferLength
  frame : ∀ x, c.bufferLength ≤ (x - c.bufferAddress).toNat → d.memory.byte x = c.memory.byte x

variable {c d : Core} {changes : Changes}

theorem handleSyscall_atRead (h : c.AtRead) : c.handleSyscall = c.syscallRead := by
  unfold handleSyscall
  rw [h.syscall, h.descriptor]
  rfl

/-- The memory after the input, and a NUL behind it if there is room, have been written. -/
theorem written_input {address : Word} {length : Nat} {input : List Byte} {m m₁ m₂ : Memory}
    (hlength : length < 2 ^ 64) (hin : ∀ i < length, address + BitVec.ofNat 64 i < m.size)
    (hwrite : m.writeBytes address 0 (input.take length) = .ok m₁)
    (hnul : (if input.length < length then
      m₁.writeByte (address + BitVec.ofNat 64 input.length) 0 else .ok m₁) = .ok m₂) :
    (∀ i < min length input.length,
      (input.take length)[i]? = some (m₂.byte (address + BitVec.ofNat 64 i))) ∧
    ∀ x, length ≤ (x - address).toNat → m₂.byte x = m.byte x := by
  have hshort : (input.take length).length = min length input.length := List.length_take
  have hm₁ : m₁ = m.overwrite address 0 (input.take length) := by
    rw [Memory.writeBytes_eq (by intro i hi; rw [Nat.zero_add]; exact hin i (by omega))
      (by omega)] at hwrite
    exact (Except.ok.inj hwrite).symm
  have hoffset : ∀ i < length, (address + BitVec.ofNat 64 i - address).toNat = i := by
    intro i hi
    rw [BitVec.add_comm, BitVec.add_sub_cancel, BitVec.toNat_ofNat]
    omega
  have hm₂ : ∀ x, (x - address).toNat ≠ input.length ∨ length ≤ (x - address).toNat →
      m₂.byte x = m₁.byte x := by
    intro x hx
    by_cases hroom : input.length < length
    · rw [if_pos hroom] at hnul
      obtain ⟨-, rfl⟩ := Memory.writeByte_eq_ok_iff.mp hnul
      have hne : x ≠ address + BitVec.ofNat 64 input.length := by
        rintro rfl
        rw [hoffset _ hroom] at hx
        omega
      exact Function.update_of_ne hne _ _
    · rw [if_neg hroom] at hnul
      rw [Except.ok.inj hnul]
  constructor
  · intro i hi
    have hi' : i < length ∧ i < input.length := by omega
    rw [hm₂ _ (by rw [hoffset i hi'.1]; omega), hm₁, Memory.overwrite_byte, hoffset i hi'.1]
    have hget : i < (input.take length).length := by omega
    rw [List.getElem?_eq_getElem hget, Option.getD_some]
  · intro x hx
    rw [hm₂ x (.inr hx), hm₁, Memory.overwrite_byte, List.getElem?_eq_none (by omega),
      Option.getD_none]

/-- What a read that returns has done. -/
theorem syscallRead_readsInto (h : c.syscallRead = .ok (d, changes)) :
    ∃ input, ReadsInto c d input := by
  unfold syscallRead at h
  dsimp only at h
  split at h
  · cases h
  · rename_i input inputQueue hqueue
    obtain ⟨old, hold, h⟩ := Loop.bind_eq_ok h
    obtain ⟨m₁, hwrite, h⟩ := Loop.bind_eq_ok h
    obtain ⟨m₂, hnul, h⟩ := Loop.bind_eq_ok h
    obtain ⟨new, -, h⟩ := Loop.bind_eq_ok h
    injection h with h
    obtain ⟨rfl, -⟩ := Prod.mk.inj h
    have hlength : c.bufferLength < 2 ^ 64 := (c.registers.readGpr 12).isLt
    obtain ⟨hbytes, hframe⟩ := written_input hlength (Memory.readBytes_eq_ok_iff.mp hold).1 hwrite hnul
    have hcount : ((c.registers.writeGpr 10
        (BitVec.ofNat 64 (min (c.registers.readGpr 12).toNat input.length))).readGpr 10).toNat =
        min c.bufferLength input.length := by
      rw [RegisterFile.readGpr_writeGpr, if_pos ⟨rfl, by decide⟩, BitVec.toNat_ofNat]
      exact Nat.mod_eq_of_lt (by omega)
    refine ⟨input, hqueue, hcount, ?_, hframe⟩
    have htake : (input.take c.bufferLength).length = min c.bufferLength input.length :=
      List.length_take
    refine (congrArg _ (hcount.trans htake.symm)).trans (Memory.bytesAt_of_byte fun i hi => ?_)
    exact hbytes i (by rw [htake] at hi; exact hi)

/-- Inputs are pushed and read system calls return; in between, the machine does anything that
does not touch the queue. `reads` has the states before and after each call. -/
inductive InputRun : Core → List (List Byte) → List (Core × Core) → Prop
  | start {c : Core} (h : c.inputQueue = []) : InputRun c [] []
  | push {c : Core} {pushed : List (List Byte)} {reads : List (Core × Core)} (input : List Byte)
      (h : InputRun c pushed reads) : InputRun (c.pushInput input) (pushed ++ [input]) reads
  | read {c d : Core} {pushed : List (List Byte)} {reads : List (Core × Core)} {changes : Changes}
      (h : InputRun c pushed reads) (hread : c.AtRead) (hcall : c.handleSyscall = .ok (d, changes)) :
      InputRun d pushed (reads ++ [(c, d)])
  | other {c d : Core} {pushed : List (List Byte)} {reads : List (Core × Core)}
      (h : InputRun c pushed reads) (hqueue : d.inputQueue = c.inputQueue) :
      InputRun d pushed reads

/-- The bytes that a read has put into its buffer, as many as it returns. -/
def deliveredBy (r : Core × Core) : List Byte :=
  r.2.memory.bytesAt r.1.bufferAddress (r.2.registers.readGpr 10).toNat

def delivered (reads : List (Core × Core)) : List Byte := reads.flatMap deliveredBy

theorem ReadsInto.inputFits {input : List Byte} (h : ReadsInto c d input) :
    c.InputFits ↔ input.length ≤ c.bufferLength := by
  rw [InputFits, h.queue]
  simp

variable {pushed : List (List Byte)} {reads : List (Core × Core)}

theorem InputRun.reads_into (h : InputRun c pushed reads) :
    ∀ r ∈ reads, ∃ input, ReadsInto r.1 r.2 input := by
  induction h with
  | start => simp
  | push input _ ih => exact ih
  | other _ _ ih => exact ih
  | read _ hread hcall ih =>
    intro r hr
    rcases List.mem_append.mp hr with hr | hr
    · exact ih r hr
    · obtain rfl := List.mem_singleton.mp hr
      exact syscallRead_readsInto (handleSyscall_atRead hread ▸ hcall)

/-- As long as every input fits, what was pushed is what was delivered and what is pending. -/
theorem InputRun.conserved (h : InputRun c pushed reads) (hfit : ∀ r ∈ reads, r.1.InputFits) :
    delivered reads ++ c.inputQueue.flatten = pushed.flatten := by
  induction h with
  | start hqueue => simp [delivered, hqueue]
  | push input _ ih => simp [pushInput, ← ih hfit]
  | other _ hqueue ih => rw [hqueue, ih hfit]
  | @read c d _ _ _ _ hread hcall ih =>
    obtain ⟨input, hinto⟩ := syscallRead_readsInto (handleSyscall_atRead hread ▸ hcall)
    have hlength : input.length ≤ c.bufferLength := hinto.inputFits.mp (hfit (c, d) (by simp))
    have hbytes : deliveredBy (c, d) = input :=
      hinto.delivered.trans (List.take_of_length_le hlength)
    rw [← ih fun r hr => hfit r (List.mem_append_left _ hr), hinto.queue]
    simp [delivered, hbytes]

/-- Bytes are never made up. -/
theorem InputRun.length_le (h : InputRun c pushed reads) :
    (delivered reads).length + c.inputQueue.flatten.length ≤ pushed.flatten.length := by
  induction h with
  | start hqueue => simp [delivered, hqueue]
  | push input _ ih =>
    simp only [pushInput, List.flatten_append, List.length_append]
    omega
  | other _ hqueue ih => rw [hqueue]; exact ih
  | @read c d _ reads _ _ hread hcall ih =>
    obtain ⟨input, hinto⟩ := syscallRead_readsInto (handleSyscall_atRead hread ▸ hcall)
    have hbytes : deliveredBy (c, d) = input.take c.bufferLength := hinto.delivered
    have hsplit : delivered (reads ++ [(c, d)]) = delivered reads ++ input.take c.bufferLength := by
      simp [delivered, hbytes]
    rw [hinto.queue, List.flatten_cons, List.length_append] at ih
    rw [hsplit, List.length_append, List.length_take]
    omega

/-- The rest of an input that does not fit is lost. -/
theorem InputRun.lost (h : InputRun c pushed reads) (hfit : ¬ ∀ r ∈ reads, r.1.InputFits) :
    (delivered reads).length + c.inputQueue.flatten.length < pushed.flatten.length := by
  induction h with
  | start hqueue => exact absurd (by simp) hfit
  | push input _ ih =>
    have := ih hfit
    simp only [pushInput, List.flatten_append, List.length_append]
    omega
  | other _ hqueue ih => rw [hqueue]; exact ih hfit
  | @read c d _ reads _ hrun hread hcall ih =>
    obtain ⟨input, hinto⟩ := syscallRead_readsInto (handleSyscall_atRead hread ▸ hcall)
    have hbytes : deliveredBy (c, d) = input.take c.bufferLength := hinto.delivered
    have hsplit : delivered (reads ++ [(c, d)]) = delivered reads ++ input.take c.bufferLength := by
      simp [delivered, hbytes]
    have hall := hrun.length_le
    rw [hinto.queue, List.flatten_cons, List.length_append] at ih hall
    rw [hsplit, List.length_append, List.length_take]
    by_cases hbefore : ∀ r ∈ reads, r.1.InputFits
    · have hnot : ¬ input.length ≤ c.bufferLength := by
        intro hlength
        refine hfit fun r hr => ?_
        rcases List.mem_append.mp hr with hr | hr
        · exact hbefore r hr
        · obtain rfl := List.mem_singleton.mp hr
          exact hinto.inputFits.mpr hlength
      omega
    · have := ih hbefore
      omega

/-- Exactly if every input fits into the buffer that takes it, what was pushed is what was
delivered and what is pending, in this order; and every read returns how many bytes it has put
into its buffer and leaves all others alone. -/
theorem inputRun_conserved_iff (h : InputRun c pushed reads) :
    ((∀ r ∈ reads, r.1.InputFits) ↔ delivered reads ++ c.inputQueue.flatten = pushed.flatten) ∧
    ((∀ r ∈ reads, r.1.InputFits) → delivered reads <+: pushed.flatten) ∧
    ∀ r ∈ reads, ∃ input, ReadsInto r.1 r.2 input := by
  refine ⟨⟨h.conserved, fun heq => ?_⟩, fun hfit => ⟨_, h.conserved hfit⟩, h.reads_into⟩
  by_contra hfit
  have hlost := h.lost hfit
  rw [← heq, List.length_append] at hlost
  exact Nat.lt_irrefl _ hlost

/-- A machine about to read two bytes, with some input pending. -/
def twoByteReader (inputQueue : List (List Byte)) : Core :=
  { Core.initial 0x1000 with
    inputQueue
    registers := ((RegisterFile.reset.writeGpr 17 63).writeGpr 11 0x100).writeGpr 12 2 }

theorem twoByteReader_atRead (inputQueue : List (List Byte)) : (twoByteReader inputQueue).AtRead :=
  ⟨rfl, rfl⟩

theorem twoByteReader_reads (input : List Byte) (h : input.length = 1 ∨ input.length = 3) :
    ∃ d changes, (twoByteReader [input]).handleSyscall = .ok (d, changes) ∧
      d.inputQueue = [] ∧ deliveredBy (twoByteReader [input], d) = input.take 2 := by
  have hcall : ∃ d changes, (twoByteReader [input]).handleSyscall = .ok (d, changes) := by
    obtain ⟨a, rfl⟩ | ⟨a, b, c, rfl⟩ : (∃ a, input = [a]) ∨ ∃ a b c, input = [a, b, c] := by
      rcases h with h | h
      · exact .inl (List.length_eq_one_iff.mp h)
      · exact .inr (List.length_eq_three.mp h)
    · exact ⟨_, _, rfl⟩
    · exact ⟨_, _, rfl⟩
  obtain ⟨d, changes, hcall⟩ := hcall
  obtain ⟨input', hinto⟩ :=
    syscallRead_readsInto (handleSyscall_atRead (twoByteReader_atRead [input]) ▸ hcall)
  obtain ⟨rfl, hrest⟩ := List.cons.inj hinto.queue
  exact ⟨d, changes, hcall, hrest.symm, hinto.delivered⟩

/-- Of three bytes the buffer takes two; the next read continues with the next input. -/
theorem not_delivered_prefix : ∃ c pushed reads, InputRun c pushed reads ∧
    ¬ delivered reads <+: pushed.flatten := by
  obtain ⟨d, changes, hcall, hrest, hbytes⟩ := twoByteReader_reads [97, 98, 99] (.inr rfl)
  obtain ⟨d', changes', hcall', -, hbytes'⟩ := twoByteReader_reads [100] (.inl rfl)
  have hfirst := ((InputRun.start (c := twoByteReader []) rfl).push [97, 98, 99]).read
    (twoByteReader_atRead [[97, 98, 99]]) hcall
  have hsecond := ((hfirst.push [100]).other (d := twoByteReader [[100]])
    (by simp [twoByteReader, pushInput, hrest])).read (twoByteReader_atRead [[100]]) hcall'
  refine ⟨_, _, _, hsecond, fun hprefix => ?_⟩
  have hdelivered : deliveredBy (twoByteReader [[97, 98, 99]], d) ++
      (deliveredBy (twoByteReader [[100]], d') ++ []) <+: [97, 98, 99, 100] := hprefix
  rw [hbytes, hbytes'] at hdelivered
  exact absurd hdelivered (by decide)

/-- Two inputs, both shorter than the buffer or as long. -/
theorem inputRun_conserved_iff_short : ∃ (c : Core) (reads : List (Core × Core)),
    InputRun c [[97], [98]] reads ∧
      ((∀ r ∈ reads, r.1.InputFits) ↔ delivered reads ++ c.inputQueue.flatten = [97, 98]) ∧
      ((∀ r ∈ reads, r.1.InputFits) → delivered reads <+: [97, 98]) ∧
      ∀ r ∈ reads, ∃ input, ReadsInto r.1 r.2 input := by
  obtain ⟨d, changes, hcall, -, -⟩ := twoByteReader_reads [97] (.inl rfl)
  have hrun := (((InputRun.start (c := twoByteReader []) rfl).push [97]).read
    (twoByteReader_atRead [[97]]) hcall).push [98]
  exact ⟨_, _, hrun, inputRun_conserved_iff hrun⟩

end Core

end RiscvSim
