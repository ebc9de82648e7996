import RiscvSim.Templates

/-! The object file of a program: the headers, what is written behind them, and what the headers
say about it. -/

namespace RiscvSim

namespace ElfFile

/-- The bytes of a value in the memory of the host, the lowest first. -/
def littleEndian (n : Nat) (value : BitVec (8 * n)) : List Byte :=
  (List.range n).map fun i => value.extractLsb' (8 * i) 8

@[simp] theorem littleEndian_length (n : Nat) (value : BitVec (8 * n)) :
    (littleEndian n value).length = n := by simp [littleEndian]

def text (s : String) : List Byte := s.toList.map fun c => BitVec.ofNat 8 c.toNat

structure ElfHeader where
  eIdent : List Byte := [0x7F] ++ text "ELF" ++ [1, 1, 1, 0] ++ List.replicate 8 0
  eType : BitVec 16 := 2
  eMachine : BitVec 16 := 0xF3
  eVersion : BitVec 32 := 1
  eEntry : BitVec 32 := 0x1000
  ePhoff : BitVec 32 := 0
  eShoff : BitVec 32 := 0
  eFlags : BitVec 32 := 0
  eEhsize : BitVec 16 := 52
  ePhentsize : BitVec 16 := 0
  ePhnum : BitVec 16 := 0
  eShentsize : BitVec 16 := 40
  eShnum : BitVec 16 := 3
  eShstrndx : BitVec 16 := 2

structure ElfSectionHeader where
  shName : BitVec 32
  shType : BitVec 32
  shFlags : BitVec 32
  shAddr : BitVec 32
  shOffset : BitVec 32
  shSize : BitVec 32
  shLink : BitVec 32
  shInfo : BitVec 32
  shAddralign : BitVec 32
  shEntsize : BitVec 32

/-- `sizeof(ElfHeader)` -/
def elfHeaderSize : Nat := 52

/-- `sizeof(ElfSectionHeader)` -/
def sectionHeaderSize : Nat := 40

def ElfHeader.bytes (h : ElfHeader) : List Byte :=
  h.eIdent ++ littleEndian 2 h.eType ++ littleEndian 2 h.eMachine ++ littleEndian 4 h.eVersion ++
    littleEndian 4 h.eEntry ++ littleEndian 4 h.ePhoff ++ littleEndian 4 h.eShoff ++
    littleEndian 4 h.eFlags ++ littleEndian 2 h.eEhsize ++ littleEndian 2 h.ePhentsize ++
    littleEndian 2 h.ePhnum ++ littleEndian 2 h.eShentsize ++ littleEndian 2 h.eShnum ++
    littleEndian 2 h.eShstrndx

def ElfSectionHeader.bytes (h : ElfSectionHeader) : List Byte :=
  [h.shName, h.shType, h.shFlags, h.shAddr, h.shOffset, h.shSize, h.shLink, h.shInfo,
    h.shAddralign, h.shEntsize].flatMap (littleEndian 4)

@[simp] theorem ElfSectionHeader.bytes_length (h : ElfSectionHeader) :
    h.bytes.length = sectionHeaderSize := by simp [bytes, sectionHeaderSize]

/-- A `std::string` made from a literal, which ends at the first zero byte. -/
def cString (literal : List Byte) : List Byte := literal.takeWhile (· ≠ 0)

/-- The literal `"\0.text\0.data\0.shstrtab\0"`. -/
def sectionNames : List Byte :=
  [0] ++ text ".text" ++ [0] ++ text ".data" ++ [0] ++ text ".shstrtab" ++ [0]

/-- The local variable `shstrtab`. -/
def shstrtab : List Byte := cString sectionNames

theorem shstrtab_eq : shstrtab = [] := rfl

section

variable (program : AssembledProgram)

/-- A product or a sum of `size_t`s that is stored in a `uint32_t`. -/
def narrow (n : Nat) : BitVec 32 := BitVec.ofNat 32 n

def textOffset : BitVec 32 := narrow (elfHeaderSize + 3 * sectionHeaderSize)

def dataOffset : BitVec 32 := textOffset + narrow (4 * program.textBuffer.length)

def shstrtabOffset : BitVec 32 :=
  narrow (elfHeaderSize + 3 * sectionHeaderSize + 4 * program.textBuffer.length +
    program.dataBuffer.length)

def elfHeader : ElfHeader where
  eShoff := narrow elfHeaderSize
  eShnum := 4
  eShstrndx := 3

def nullSection : ElfSectionHeader := ⟨0, 0, 0, 0, 0, 0, 0, 0, 0, 0⟩

def textSection : ElfSectionHeader :=
  ⟨1, 1, 6, 0x1000, textOffset, narrow (4 * program.textBuffer.length), 0, 0, 4, 0⟩

def dataSection : ElfSectionHeader :=
  ⟨7, 1, 3, 0x2000, dataOffset program, narrow program.dataBuffer.length, 0, 0, 4, 0⟩

def shstrtabSection : ElfSectionHeader :=
  ⟨13, 3, 0, 0, shstrtabOffset program, narrow shstrtab.length, 0, 0, 1, 0⟩

/-- What the loop over the data buffer writes for an element. -/
def writtenBytes : DataItem → List Byte
  | .byte x => littleEndian 1 x
  | .halfWord x => littleEndian 2 x
  | .word x => littleEndian 4 x
  | .doubleWord x => littleEndian 8 x
  | _ => []

def sectionHeaders : List Byte :=
  nullSection.bytes ++ (textSection program).bytes ++ (dataSection program).bytes ++
    (shstrtabSection program).bytes

def instructionBytes : List Byte := program.textBuffer.flatMap (littleEndian 4)

/-- The contents of the file that is written. -/
def generateElfFile : List Byte :=
  elfHeader.bytes ++ sectionHeaders program ++ instructionBytes program ++
    program.dataBuffer.flatMap writtenBytes ++ shstrtab

end

/-- The bytes of a file at `[offset, offset + size)` are `bytes`. -/
def Lies (file : List Byte) (offset size : Nat) (bytes : List Byte) : Prop :=
  offset + size ≤ file.length ∧ (file.drop offset).take size = bytes

instance (file : List Byte) (offset size : Nat) (bytes : List Byte) :
    Decidable (Lies file offset size bytes) := inferInstanceAs (Decidable (_ ∧ _))

/-- The section of a header is `bytes`. -/
def ElfSectionHeader.Holds (h : ElfSectionHeader) (file bytes : List Byte) : Prop :=
  Lies file h.shOffset.toNat h.shSize.toNat bytes

def ElfSectionHeader.contents (h : ElfSectionHeader) (file : List Byte) : List Byte :=
  (file.drop h.shOffset.toNat).take h.shSize.toNat

instance (h : ElfSectionHeader) (file bytes : List Byte) : Decidable (h.Holds file bytes) :=
  inferInstanceAs (Decidable (Lies _ _ _ _))

/-- The bytes of an element of the data section. -/
def itemBytes : DataItem → List Byte
  | .byte x => littleEndian 1 x
  | .halfWord x => littleEndian 2 x
  | .word x | .float x => littleEndian 4 x
  | .doubleWord x | .double x => littleEndian 8 x
  | .string bytes => bytes

/-- The name of a section, in the table that the file has. -/
def nameOf (program : AssembledProgram) (h : ElfSectionHeader) : List Byte :=
  cString (((shstrtabSection program).contents (generateElfFile program)).drop h.shName.toNat)

/-- The headers say where the sections are and what they are called. -/
structure SelfConsistent (program : AssembledProgram) : Prop where
  headers : Lies (generateElfFile program) elfHeader.eShoff.toNat
    (elfHeader.eShentsize.toNat * elfHeader.eShnum.toNat) (sectionHeaders program)
  text : (textSection program).Holds (generateElfFile program) (instructionBytes program)
  data : (dataSection program).Holds (generateElfFile program)
    (program.dataBuffer.flatMap itemBytes)
  names : (shstrtabSection program).Holds (generateElfFile program) sectionNames
  textName : nameOf program (textSection program) = ElfFile.text ".text"
  dataName : nameOf program (dataSection program) = ElfFile.text ".data"
  shstrtabName : nameOf program (shstrtabSection program) = ElfFile.text ".shstrtab"

section

variable {a b c : List Byte}

theorem lies_append : Lies (a ++ b ++ c) a.length b.length b := by
  refine ⟨by simp, ?_⟩
  rw [List.append_assoc, List.drop_left, List.take_left]

theorem Lies.length_eq {file bytes : List Byte} {offset size : Nat}
    (h : Lies file offset size bytes) : bytes.length = size := by
  have hbound := h.1
  rw [← h.2, List.length_take, List.length_drop]
  omega

theorem lies_iff : Lies (a ++ b) a.length c.length c ↔ c <+: b := by
  constructor
  · intro h
    have hbytes := h.2
    rw [List.drop_left] at hbytes
    exact hbytes ▸ List.take_prefix _ _
  · intro h
    refine ⟨by have := h.length_le; simp; omega, ?_⟩
    rw [List.drop_left, ← List.prefix_iff_eq_take.mp h]

end

section

variable (program : AssembledProgram)

theorem elfHeader_length : elfHeader.bytes.length = elfHeaderSize := rfl

theorem sectionHeaders_length : (sectionHeaders program).length = 4 * sectionHeaderSize := by
  simp [sectionHeaders, sectionHeaderSize]

theorem instructionBytes_length :
    (instructionBytes program).length = 4 * program.textBuffer.length := by
  simp [instructionBytes, List.length_flatMap, Nat.mul_comm]

/-- The section headers are where the header of the file says. -/
theorem sectionHeaders_lie : Lies (generateElfFile program) elfHeader.eShoff.toNat
    (elfHeader.eShentsize.toNat * elfHeader.eShnum.toNat) (sectionHeaders program) := by
  change Lies (generateElfFile program) elfHeaderSize (4 * sectionHeaderSize) _
  have h : Lies (elfHeader.bytes ++ sectionHeaders program ++ (instructionBytes program ++
      program.dataBuffer.flatMap writtenBytes ++ shstrtab)) elfHeader.bytes.length
      (sectionHeaders program).length (sectionHeaders program) := lies_append
  rw [elfHeader_length, sectionHeaders_length] at h
  simpa only [generateElfFile, List.append_assoc] using h

/-- The instructions lie behind all four of the section headers. -/
theorem instructions_lie : Lies (generateElfFile program) (elfHeaderSize + 4 * sectionHeaderSize)
    (4 * program.textBuffer.length) (instructionBytes program) := by
  have h : Lies (elfHeader.bytes ++ sectionHeaders program ++ instructionBytes program ++
      (program.dataBuffer.flatMap writtenBytes ++ shstrtab))
      (elfHeader.bytes ++ sectionHeaders program).length (instructionBytes program).length
      (instructionBytes program) := lies_append
  rw [List.length_append, elfHeader_length, sectionHeaders_length,
    instructionBytes_length] at h
  simpa only [generateElfFile, List.append_assoc] using h

/-- So do the elements of the data section, behind them, without the strings and the numbers in
floating point. -/
theorem elements_lie : Lies (generateElfFile program)
    (elfHeaderSize + 4 * sectionHeaderSize + 4 * program.textBuffer.length)
    (program.dataBuffer.flatMap writtenBytes).length
    (program.dataBuffer.flatMap writtenBytes) := by
  have h : Lies (elfHeader.bytes ++ sectionHeaders program ++ instructionBytes program ++
      program.dataBuffer.flatMap writtenBytes ++ shstrtab)
      (elfHeader.bytes ++ sectionHeaders program ++ instructionBytes program).length
      (program.dataBuffer.flatMap writtenBytes).length
      (program.dataBuffer.flatMap writtenBytes) := lies_append
  rw [List.length_append, List.length_append, elfHeader_length, sectionHeaders_length,
    instructionBytes_length] at h
  exact h

/-- The offset of the text section leaves out one of the section headers, so that the section
begins with that of the names. -/
theorem text_holds_iff :
    (textSection program).Holds (generateElfFile program) (instructionBytes program) ↔
      4 * program.textBuffer.length < 2 ^ 32 ∧
        instructionBytes program <+: (shstrtabSection program).bytes ++ instructionBytes program := by
  have hoffset : (textSection program).shOffset.toNat =
      (elfHeader.bytes ++ (nullSection.bytes ++ (textSection program).bytes ++
        (dataSection program).bytes)).length := by
    simp [elfHeader_length, textSection, sectionHeaderSize, elfHeaderSize, textOffset, narrow]
  have hsize : (textSection program).shSize.toNat = 4 * program.textBuffer.length % 2 ^ 32 :=
    BitVec.toNat_ofNat _ _
  have hfile : generateElfFile program = elfHeader.bytes ++ (nullSection.bytes ++
      (textSection program).bytes ++ (dataSection program).bytes) ++
      ((shstrtabSection program).bytes ++ instructionBytes program ++
        (program.dataBuffer.flatMap writtenBytes ++ shstrtab)) := by
    simp only [generateElfFile, sectionHeaders, List.append_assoc]
  rw [ElfSectionHeader.Holds, hoffset, hsize, hfile]
  constructor
  · intro h
    have hlength := h.length_eq
    rw [instructionBytes_length] at hlength
    rw [← hlength, ← instructionBytes_length] at h
    refine ⟨by omega, ?_⟩
    exact List.prefix_of_prefix_length_le (lies_iff.mp h) (List.prefix_append _ _) (by simp)
  · rintro ⟨hlt, hbegins⟩
    rw [Nat.mod_eq_of_lt hlt, ← instructionBytes_length]
    exact lies_iff.mpr (hbegins.trans (List.prefix_append _ _))

theorem shstrtab_size : (shstrtabSection program).shSize.toNat = 0 := rfl

/-- The table of the names is not there: the string that is written is the literal up to its
first byte, a zero. -/
theorem names_missing :
    ¬ (shstrtabSection program).Holds (generateElfFile program) sectionNames := by
  intro h
  have hlength := h.length_eq
  rw [shstrtab_size] at hlength
  exact absurd hlength (by decide)

/-- No section has a name. -/
theorem nameOf_eq (h : ElfSectionHeader) : nameOf program h = [] := by
  rw [nameOf, ElfSectionHeader.contents, shstrtab_size, List.take_zero, List.drop_nil]
  rfl

/-- No program has a consistent file. -/
theorem elfFile_inconsistent : ¬ SelfConsistent program := fun h => names_missing program h.names

end

/-- An instruction, a word and a string. -/
def greeting : AssembledProgram where
  textBuffer := [0x00500093]
  dataBuffer := [.word 7, .string [104, 105, 0]]

def greetingSource : List String :=
  [".data", "number: .word 7", "message: .string \"hi\"", ".text", "addi x1, x0, 5"]

theorem elfFile_inconsistent_greeting :
    (assemble .default noFloat 9 (greetingSource.map String.toList)).map
      (Option.map Assembly.toAssembledProgram) = .ok (some greeting) ∧
    ¬ (textSection greeting).Holds (generateElfFile greeting) (instructionBytes greeting) ∧
    ¬ (dataSection greeting).Holds (generateElfFile greeting)
      (greeting.dataBuffer.flatMap itemBytes) ∧
    ¬ (shstrtabSection greeting).Holds (generateElfFile greeting) sectionNames ∧
    ¬ SelfConsistent greeting := by
  have hparts : (assemble .default noFloat 9 (greetingSource.map String.toList)).map
      (Option.map Assembly.toAssembledProgram) = .ok (some greeting) ∧
      ¬ (textSection greeting).Holds (generateElfFile greeting) (instructionBytes greeting) ∧
      ¬ (dataSection greeting).Holds (generateElfFile greeting)
        (greeting.dataBuffer.flatMap itemBytes) ∧
      ¬ (shstrtabSection greeting).Holds (generateElfFile greeting) sectionNames := by
    decide +kernel
  obtain ⟨hprogram, htext, hdata, hnames⟩ := hparts
  exact ⟨hprogram, htext, hdata, hnames, fun h => hnames h.names⟩

end ElfFile

end RiscvSim
