import Mathlib.Data.List.Basic

/-! The instruction set of the assembler: the mnemonics by format, their encodings and their
syntaxes. -/

namespace RiscvSim

namespace InstructionSet

/-- What a statement may consist of: `O` the mnemonic, `GPR`, `FPR` and `CSR` registers, `C` a
comma, `I` an immediate, `LP` and `RP` parentheses, `IL` and `DL` labels, `RM` a rounding mode. -/
inductive SyntaxType where
  | O_GPR_C_GPR_C_GPR | O_GPR_C_GPR_C_I | O_GPR_C_I | O_GPR_C_GPR_C_IL | O_GPR_C_GPR_C_DL
  | O_GPR_C_IL | O_GPR_C_DL | O_GPR_C_I_LP_GPR_RP | O | PSEUDO
  | O_GPR_C_CSR_C_GPR | O_GPR_C_CSR_C_I
  | O_FPR_C_FPR_C_FPR_C_FPR | O_FPR_C_FPR_C_FPR_C_FPR_C_RM
  | O_FPR_C_FPR_C_FPR | O_FPR_C_FPR_C_FPR_C_RM | O_FPR_C_FPR | O_FPR_C_FPR_C_RM
  | O_FPR_C_GPR | O_FPR_C_GPR_C_RM | O_GPR_C_FPR | O_GPR_C_FPR_C_RM | O_GPR_C_FPR_C_FPR
  | O_FPR_C_I_LP_GPR_RP
  deriving DecidableEq, Repr

/-- The fixed fields of an instruction word; a format uses some of them. -/
structure Encoding where
  opcode : BitVec 7
  funct2 : BitVec 2 := 0
  funct3 : BitVec 3 := 0
  funct5 : BitVec 5 := 0
  funct6 : BitVec 6 := 0
  funct7 : BitVec 7 := 0
  deriving DecidableEq, Repr

def validInstructions : List String :=
  ["add", "sub", "and", "or", "xor", "sll", "srl", "sra", "slt", "sltu", "addw", "subw", "sllw",
   "srlw", "sraw", "addi", "xori", "ori", "andi", "slli", "srli", "srai", "slti", "sltiu",
   "addiw", "slliw", "srliw", "sraiw", "lb", "lh", "lw", "ld", "lbu", "lhu", "lwu", "sb", "sh",
   "sw", "sd", "beq", "bne", "blt", "bge", "bltu", "bgeu", "lui", "auipc", "jal", "jalr",
   "ecall", "csrrw", "csrrs", "csrrc", "csrrwi", "csrrsi", "csrrci", "la", "nop", "li", "mv",
   "not", "neg", "negw", "sext.w", "seqz", "snez", "sltz", "sgtz", "beqz", "bnez", "blez",
   "bgez", "bltz", "bgtz", "bgt", "ble", "bgtu", "bleu", "j", "jr", "ret", "call", "tail",
   "fence", "fence_i", "mul", "mulh", "mulhsu", "mulhu", "div", "divu", "rem", "remu", "mulw",
   "divw", "divuw", "remw", "remuw", "flw", "fsw", "fmadd.s", "fmsub.s", "fnmsub.s", "fnmadd.s",
   "fadd.s", "fsub.s", "fmul.s", "fdiv.s", "fsqrt.s", "fsgnj.s", "fsgnjn.s", "fsgnjx.s",
   "fmin.s", "fmax.s", "fcvt.w.s", "fcvt.wu.s", "fmv.x.w", "feq.s", "flt.s", "fle.s",
   "fclass.s", "fcvt.s.w", "fcvt.s.wu", "fmv.w.x", "fcvt.l.s", "fcvt.lu.s", "fcvt.s.l",
   "fcvt.s.lu", "fld", "fsd", "fmadd.d", "fmsub.d", "fnmsub.d", "fnmadd.d", "fadd.d", "fsub.d",
   "fmul.d", "fdiv.d", "fsqrt.d", "fsgnj.d", "fsgnjn.d", "fsgnjx.d", "fmin.d", "fmax.d",
   "fcvt.s.d", "fcvt.d.s", "feq.d", "flt.d", "fle.d", "fclass.d", "fcvt.w.d", "fcvt.wu.d",
   "fcvt.d.w", "fcvt.d.wu", "fcvt.l.d", "fcvt.lu.d", "fmv.x.d", "fcvt.d.l", "fcvt.d.lu",
   "fmv.d.x", "ldbm", "bigmul"]

def rTypeInstructions : List String :=
  ["add", "sub", "and", "or", "xor", "sll", "srl", "sra", "slt", "sltu", "addw", "subw", "sllw",
   "srlw", "sraw", "mul", "mulh", "mulhsu", "mulhu", "div", "divu", "rem", "remu", "mulw",
   "divw", "divuw", "remw", "remuw"]

def rlTypeInstructions : List String := ["ldbm"]

def srTypeInstructions : List String := ["bigmul"]

def i1TypeInstructions : List String :=
  ["addi", "xori", "ori", "andi", "sltiu", "slti", "addiw", "lb", "lh", "lw", "ld", "lbu",
   "lhu", "lwu", "jalr"]

def i2TypeInstructions : List String := ["slli", "srli", "srai", "slliw", "srliw", "sraiw"]

def i3TypeInstructions : List String := ["ecall"]

def sTypeInstructions : List String := ["sb", "sh", "sw", "sd"]

def bTypeInstructions : List String := ["beq", "bne", "blt", "bge", "bltu", "bgeu"]

def uTypeInstructions : List String := ["lui", "auipc"]

def jTypeInstructions : List String := ["jal"]

def csrrInstructions : List String := ["csrrw", "csrrs", "csrrc"]

def csriInstructions : List String := ["csrrwi", "csrrsi", "csrrci"]

def mExtensionInstructions : List String :=
  ["mul", "mulh", "mulhsu", "mulhu", "div", "divu", "rem", "remu", "mulw", "divw", "divuw",
   "remw", "remuw"]

def fdExtensionRTypeInstructions : List String :=
  ["fsgnj.s", "fsgnjn.s", "fsgnjx.s", "fmin.s", "fmax.s", "feq.s", "flt.s", "fle.s", "fsgnj.d",
   "fsgnjn.d", "fsgnjx.d", "fmin.d", "fmax.d", "feq.d", "flt.d", "fle.d"]

def fdExtensionR1TypeInstructions : List String :=
  ["fadd.s", "fsub.s", "fmul.s", "fdiv.s", "fadd.d", "fsub.d", "fmul.d", "fdiv.d"]

def fdExtensionR2TypeInstructions : List String :=
  ["fsqrt.s", "fcvt.w.s", "fcvt.wu.s", "fcvt.s.w", "fcvt.s.wu", "fcvt.l.s", "fcvt.lu.s",
   "fcvt.s.l", "fcvt.s.lu", "fsqrt.d", "fcvt.s.d", "fcvt.d.s", "fcvt.w.d", "fcvt.wu.d",
   "fcvt.d.w", "fcvt.d.wu", "fcvt.l.d", "fcvt.lu.d", "fcvt.d.l", "fcvt.d.lu"]

def fdExtensionR3TypeInstructions : List String :=
  ["fmv.x.w", "fmv.w.x", "fclass.s", "fclass.d", "fmv.x.d", "fmv.d.x"]

def fdExtensionR4TypeInstructions : List String :=
  ["fmadd.s", "fmsub.s", "fnmsub.s", "fnmadd.s", "fmadd.d", "fmsub.d", "fnmsub.d", "fnmadd.d"]

def fdExtensionITypeInstructions : List String := ["flw", "fld"]

def fdExtensionSTypeInstructions : List String := ["fsw", "fsd"]

def isValidInstruction (s : String) : Bool := validInstructions.contains s

def isValidRTypeInstruction (s : String) : Bool := rTypeInstructions.contains s

def isValidRLTypeInstruction (s : String) : Bool := rlTypeInstructions.contains s

def isValidSRTypeInstruction (s : String) : Bool := srTypeInstructions.contains s

def isValidI1TypeInstruction (s : String) : Bool := i1TypeInstructions.contains s

def isValidI2TypeInstruction (s : String) : Bool := i2TypeInstructions.contains s

def isValidI3TypeInstruction (s : String) : Bool := i3TypeInstructions.contains s

def isValidITypeInstruction (s : String) : Bool :=
  isValidI1TypeInstruction s || isValidI2TypeInstruction s || isValidI3TypeInstruction s

def isValidSTypeInstruction (s : String) : Bool := sTypeInstructions.contains s

def isValidBTypeInstruction (s : String) : Bool := bTypeInstructions.contains s

def isValidUTypeInstruction (s : String) : Bool := uTypeInstructions.contains s

def isValidJTypeInstruction (s : String) : Bool := jTypeInstructions.contains s

def isValidCSRRTypeInstruction (s : String) : Bool := csrrInstructions.contains s

def isValidCSRITypeInstruction (s : String) : Bool := csriInstructions.contains s

def isValidMExtensionInstruction (s : String) : Bool := mExtensionInstructions.contains s

def isValidFDRTypeInstruction (s : String) : Bool := fdExtensionRTypeInstructions.contains s

def isValidFDR1TypeInstruction (s : String) : Bool := fdExtensionR1TypeInstructions.contains s

def isValidFDR2TypeInstruction (s : String) : Bool := fdExtensionR2TypeInstructions.contains s

def isValidFDR3TypeInstruction (s : String) : Bool := fdExtensionR3TypeInstructions.contains s

def isValidFDR4TypeInstruction (s : String) : Bool := fdExtensionR4TypeInstructions.contains s

def isValidFDITypeInstruction (s : String) : Bool := fdExtensionITypeInstructions.contains s

def isValidFDSTypeInstruction (s : String) : Bool := fdExtensionSTypeInstructions.contains s

def rTypeInstructionEncodingMap : List (String × Encoding) :=
  [("add", { opcode := 0b0110011, funct3 := 0b000, funct7 := 0b0000000 }),
   ("sub", { opcode := 0b0110011, funct3 := 0b000, funct7 := 0b0100000 }),
   ("xor", { opcode := 0b0110011, funct3 := 0b100, funct7 := 0b0000000 }),
   ("or", { opcode := 0b0110011, funct3 := 0b110, funct7 := 0b0000000 }),
   ("and", { opcode := 0b0110011, funct3 := 0b111, funct7 := 0b0000000 }),
   ("sll", { opcode := 0b0110011, funct3 := 0b001, funct7 := 0b0000000 }),
   ("srl", { opcode := 0b0110011, funct3 := 0b101, funct7 := 0b0000000 }),
   ("sra", { opcode := 0b0110011, funct3 := 0b101, funct7 := 0b0100000 }),
   ("slt", { opcode := 0b0110011, funct3 := 0b010, funct7 := 0b0000000 }),
   ("sltu", { opcode := 0b0110011, funct3 := 0b011, funct7 := 0b0000000 }),
   ("addw", { opcode := 0b0111011, funct3 := 0b000, funct7 := 0b0000000 }),
   ("subw", { opcode := 0b0111011, funct3 := 0b000, funct7 := 0b0100000 }),
   ("sllw", { opcode := 0b0111011, funct3 := 0b001, funct7 := 0b0000000 }),
   ("srlw", { opcode := 0b0111011, funct3 := 0b101, funct7 := 0b0000000 }),
   ("sraw", { opcode := 0b0111011, funct3 := 0b101, funct7 := 0b0100000 }),
   ("mul", { opcode := 0b0110011, funct3 := 0b000, funct7 := 0b0000001 }),
   ("mulh", { opcode := 0b0110011, funct3 := 0b001, funct7 := 0b0000001 }),
   ("mulhsu", { opcode := 0b0110011, funct3 := 0b010, funct7 := 0b0000001 }),
   ("mulhu", { opcode := 0b0110011, funct3 := 0b011, funct7 := 0b0000001 }),
   ("div", { opcode := 0b0110011, funct3 := 0b100, funct7 := 0b0000001 }),
   ("divu", { opcode := 0b0110011, funct3 := 0b101, funct7 := 0b0000001 }),
   ("rem", { opcode := 0b0110011, funct3 := 0b110, funct7 := 0b0000001 }),
   ("remu", { opcode := 0b0110011, funct3 := 0b111, funct7 := 0b0000001 }),
   ("mulw", { opcode := 0b0111011, funct3 := 0b000, funct7 := 0b0000001 }),
   ("divw", { opcode := 0b0111011, funct3 := 0b100, funct7 := 0b0000001 }),
   ("divuw", { opcode := 0b0111011, funct3 := 0b101, funct7 := 0b0000001 }),
   ("remw", { opcode := 0b0111011, funct3 := 0b110, funct7 := 0b0000001 }),
   ("remuw", { opcode := 0b0111011, funct3 := 0b111, funct7 := 0b0000001 })]

def rlTypeInstructionEncodingMap : List (String × Encoding) :=
  [("ldbm", { opcode := 0b0101010, funct3 := 0b000, funct7 := 0b0000000 })]

def srTypeInstructionEncodingMap : List (String × Encoding) :=
  [("bigmul", { opcode := 0b0111111, funct3 := 0b000 })]

def i1TypeInstructionEncodingMap : List (String × Encoding) :=
  [("addi", { opcode := 0b0010011, funct3 := 0b000 }),
   ("xori", { opcode := 0b0010011, funct3 := 0b100 }),
   ("ori", { opcode := 0b0010011, funct3 := 0b110 }),
   ("andi", { opcode := 0b0010011, funct3 := 0b111 }),
   ("sltiu", { opcode := 0b0010011, funct3 := 0b011 }),
   ("slti", { opcode := 0b0010011, funct3 := 0b010 }),
   ("addiw", { opcode := 0b0011011, funct3 := 0b000 }),
   ("lb", { opcode := 0b0000011, funct3 := 0b000 }),
   ("lh", { opcode := 0b0000011, funct3 := 0b001 }),
   ("lw", { opcode := 0b0000011, funct3 := 0b010 }),
   ("ld", { opcode := 0b0000011, funct3 := 0b011 }),
   ("lbu", { opcode := 0b0000011, funct3 := 0b100 }),
   ("lhu", { opcode := 0b0000011, funct3 := 0b101 }),
   ("lwu", { opcode := 0b0000011, funct3 := 0b110 }),
   ("jalr", { opcode := 0b1100111, funct3 := 0b000 })]

def i3TypeInstructionEncodingMap : List (String × Encoding) :=
  [("ecall", { opcode := 0b1110011, funct3 := 0b000, funct7 := 0b0000000 })]

def i2TypeInstructionEncodingMap : List (String × Encoding) :=
  [("slli", { opcode := 0b0010011, funct3 := 0b001, funct6 := 0b000000 }),
   ("srli", { opcode := 0b0010011, funct3 := 0b101, funct6 := 0b000000 }),
   ("srai", { opcode := 0b0010011, funct3 := 0b101, funct6 := 0b010000 }),
   ("slliw", { opcode := 0b0011011, funct3 := 0b001, funct6 := 0b000000 }),
   ("srliw", { opcode := 0b0011011, funct3 := 0b101, funct6 := 0b000000 }),
   ("sraiw", { opcode := 0b0011011, funct3 := 0b101, funct6 := 0b010000 })]

def sTypeInstructionEncodingMap : List (String × Encoding) :=
  [("sb", { opcode := 0b0100011, funct3 := 0b000 }),
   ("sh", { opcode := 0b0100011, funct3 := 0b001 }),
   ("sw", { opcode := 0b0100011, funct3 := 0b010 }),
   ("sd", { opcode := 0b0100011, funct3 := 0b011 })]

def bTypeInstructionEncodingMap : List (String × Encoding) :=
  [("beq", { opcode := 0b1100011, funct3 := 0b000 }),
   ("bne", { opcode := 0b1100011, funct3 := 0b001 }),
   ("blt", { opcode := 0b1100011, funct3 := 0b100 }),
   ("bge", { opcode := 0b1100011, funct3 := 0b101 }),
   ("bltu", { opcode := 0b1100011, funct3 := 0b110 }),
   ("bgeu", { opcode := 0b1100011, funct3 := 0b111 })]

def uTypeInstructionEncodingMap : List (String × Encoding) :=
  [("lui", { opcode := 0b0110111 }), ("auipc", { opcode := 0b0010111 })]

def jTypeInstructionEncodingMap : List (String × Encoding) :=
  [("jal", { opcode := 0b1101111 })]

def csrRTypeInstructionEncodingMap : List (String × Encoding) :=
  [("csrrw", { opcode := 0b1110011, funct3 := 0b001 }),
   ("csrrs", { opcode := 0b1110011, funct3 := 0b010 }),
   ("csrrc", { opcode := 0b1110011, funct3 := 0b011 })]

def csrITypeInstructionEncodingMap : List (String × Encoding) :=
  [("csrrwi", { opcode := 0b1110011, funct3 := 0b101 }),
   ("csrrsi", { opcode := 0b1110011, funct3 := 0b110 }),
   ("csrrci", { opcode := 0b1110011, funct3 := 0b111 })]

def fdRTypeInstructionEncodingMap : List (String × Encoding) :=
  [("fsgnj.s", { opcode := 0b1010011, funct3 := 0b000, funct7 := 0b0010000 }),
   ("fsgnjn.s", { opcode := 0b1010011, funct3 := 0b001, funct7 := 0b0010000 }),
   ("fsgnjx.s", { opcode := 0b1010011, funct3 := 0b010, funct7 := 0b0010000 }),
   ("fmin.s", { opcode := 0b1010011, funct3 := 0b000, funct7 := 0b0010100 }),
   ("fmax.s", { opcode := 0b1010011, funct3 := 0b001, funct7 := 0b0010100 }),
   ("feq.s", { opcode := 0b1010011, funct3 := 0b010, funct7 := 0b1010000 }),
   ("flt.s", { opcode := 0b1010011, funct3 := 0b001, funct7 := 0b1010000 }),
   ("fle.s", { opcode := 0b1010011, funct3 := 0b000, funct7 := 0b1010000 }),
   ("feq.d", { opcode := 0b1010011, funct3 := 0b010, funct7 := 0b1010001 }),
   ("flt.d", { opcode := 0b1010011, funct3 := 0b001, funct7 := 0b1010001 }),
   ("fle.d", { opcode := 0b1010011, funct3 := 0b000, funct7 := 0b1010001 }),
   ("fsgnj.d", { opcode := 0b1010011, funct3 := 0b000, funct7 := 0b0010001 }),
   ("fsgnjn.d", { opcode := 0b1010011, funct3 := 0b001, funct7 := 0b0010001 }),
   ("fsgnjx.d", { opcode := 0b1010011, funct3 := 0b010, funct7 := 0b0010001 }),
   ("fmin.d", { opcode := 0b1010011, funct3 := 0b000, funct7 := 0b0010101 }),
   ("fmax.d", { opcode := 0b1010011, funct3 := 0b001, funct7 := 0b0010101 })]

def fdR1TypeInstructionEncodingMap : List (String × Encoding) :=
  [("fadd.s", { opcode := 0b1010011, funct7 := 0b0000000 }),
   ("fsub.s", { opcode := 0b1010011, funct7 := 0b0000100 }),
   ("fmul.s", { opcode := 0b1010011, funct7 := 0b0001000 }),
   ("fdiv.s", { opcode := 0b1010011, funct7 := 0b0001100 }),
   ("fadd.d", { opcode := 0b1010011, funct7 := 0b0000001 }),
   ("fsub.d", { opcode := 0b1010011, funct7 := 0b0000101 }),
   ("fmul.d", { opcode := 0b1010011, funct7 := 0b0001001 }),
   ("fdiv.d", { opcode := 0b1010011, funct7 := 0b0001101 })]

def fdR2TypeInstructionEncodingMap : List (String × Encoding) :=
  [("fsqrt.s", { opcode := 0b1010011, funct5 := 0b00000, funct7 := 0b0101100 }),
   ("fcvt.w.s", { opcode := 0b1010011, funct5 := 0b00000, funct7 := 0b1100000 }),
   ("fcvt.wu.s", { opcode := 0b1010011, funct5 := 0b00001, funct7 := 0b1100000 }),
   ("fcvt.l.s", { opcode := 0b1010011, funct5 := 0b00010, funct7 := 0b1100000 }),
   ("fcvt.lu.s", { opcode := 0b1010011, funct5 := 0b00011, funct7 := 0b1100000 }),
   ("fcvt.s.w", { opcode := 0b1010011, funct5 := 0b00000, funct7 := 0b1101000 }),
   ("fcvt.s.wu", { opcode := 0b1010011, funct5 := 0b00001, funct7 := 0b1101000 }),
   ("fcvt.s.l", { opcode := 0b1010011, funct5 := 0b00010, funct7 := 0b1101000 }),
   ("fcvt.s.lu", { opcode := 0b1010011, funct5 := 0b00011, funct7 := 0b1101000 }),
   ("fsqrt.d", { opcode := 0b1010011, funct5 := 0b00000, funct7 := 0b0101101 }),
   ("fcvt.w.d", { opcode := 0b1010011, funct5 := 0b00000, funct7 := 0b1100001 }),
   ("fcvt.wu.d", { opcode := 0b1010011, funct5 := 0b00001, funct7 := 0b1100001 }),
   ("fcvt.l.d", { opcode := 0b1010011, funct5 := 0b00010, funct7 := 0b1100001 }),
   ("fcvt.lu.d", { opcode := 0b1010011, funct5 := 0b00011, funct7 := 0b1100001 }),
   ("fcvt.d.w", { opcode := 0b1010011, funct5 := 0b00000, funct7 := 0b1101001 }),
   ("fcvt.d.wu", { opcode := 0b1010011, funct5 := 0b00001, funct7 := 0b1101001 }),
   ("fcvt.d.l", { opcode := 0b1010011, funct5 := 0b00010, funct7 := 0b1101001 }),
   ("fcvt.d.lu", { opcode := 0b1010011, funct5 := 0b00011, funct7 := 0b1101001 }),
   ("fcvt.s.d", { opcode := 0b1010011, funct5 := 0b00001, funct7 := 0b0100000 }),
   ("fcvt.d.s", { opcode := 0b1010011, funct5 := 0b00000, funct7 := 0b0100001 })]

def fdR3TypeInstructionEncodingMap : List (String × Encoding) :=
  [("fmv.w.x", { opcode := 0b1010011, funct3 := 0b000, funct5 := 0b00000, funct7 := 0b1111000 }),
   ("fmv.x.w", { opcode := 0b1010011, funct3 := 0b000, funct5 := 0b00000, funct7 := 0b1110000 }),
   ("fclass.s", { opcode := 0b1010011, funct3 := 0b001, funct5 := 0b00000, funct7 := 0b1110000 }),
   ("fmv.d.x", { opcode := 0b1010011, funct3 := 0b000, funct5 := 0b00000, funct7 := 0b1111001 }),
   ("fmv.x.d", { opcode := 0b1010011, funct3 := 0b000, funct5 := 0b00000, funct7 := 0b1110001 }),
   ("fclass.d", { opcode := 0b1010011, funct3 := 0b001, funct5 := 0b00000, funct7 := 0b1110001 })]

def fdR4TypeInstructionEncodingMap : List (String × Encoding) :=
  [("fmadd.s", { opcode := 0b1000011, funct2 := 0b00 }),
   ("fmsub.s", { opcode := 0b1000111, funct2 := 0b00 }),
   ("fnmsub.s", { opcode := 0b1001011, funct2 := 0b00 }),
   ("fnmadd.s", { opcode := 0b1001111, funct2 := 0b00 }),
   ("fmadd.d", { opcode := 0b1000011, funct2 := 0b01 }),
   ("fmsub.d", { opcode := 0b1000111, funct2 := 0b01 }),
   ("fnmsub.d", { opcode := 0b1001011, funct2 := 0b01 }),
   ("fnmadd.d", { opcode := 0b1001111, funct2 := 0b01 })]

def fdITypeInstructionEncodingMap : List (String × Encoding) :=
  [("flw", { opcode := 0b0000111, funct3 := 0b010 }),
   ("fld", { opcode := 0b0000111, funct3 := 0b011 })]

def fdSTypeInstructionEncodingMap : List (String × Encoding) :=
  [("fsw", { opcode := 0b0100111, funct3 := 0b010 }),
   ("fsd", { opcode := 0b0100111, funct3 := 0b011 })]

/-- Where the source lists a mnemonic twice, the first entry counts. -/
def instructionSyntaxMap : List (String × List SyntaxType) :=
  [("add", [.O_GPR_C_GPR_C_GPR]), ("sub", [.O_GPR_C_GPR_C_GPR]), ("xor", [.O_GPR_C_GPR_C_GPR]),
   ("or", [.O_GPR_C_GPR_C_GPR]), ("and", [.O_GPR_C_GPR_C_GPR]), ("sll", [.O_GPR_C_GPR_C_GPR]),
   ("srl", [.O_GPR_C_GPR_C_GPR]), ("sra", [.O_GPR_C_GPR_C_GPR]), ("slt", [.O_GPR_C_GPR_C_GPR]),
   ("sltu", [.O_GPR_C_GPR_C_GPR]), ("ldbm", [.O_GPR_C_GPR_C_GPR]),
   ("bigmul", [.O_GPR_C_I_LP_GPR_RP]), ("addi", [.O_GPR_C_GPR_C_I]), ("xori", [.O_GPR_C_GPR_C_I]),
   ("ori", [.O_GPR_C_GPR_C_I]), ("andi", [.O_GPR_C_GPR_C_I]), ("slli", [.O_GPR_C_GPR_C_I]),
   ("srli", [.O_GPR_C_GPR_C_I]), ("srai", [.O_GPR_C_GPR_C_I]), ("slti", [.O_GPR_C_GPR_C_I]),
   ("sltiu", [.O_GPR_C_GPR_C_I]), ("lb", [.O_GPR_C_I_LP_GPR_RP, .O_GPR_C_DL]),
   ("lh", [.O_GPR_C_I_LP_GPR_RP, .O_GPR_C_DL]), ("lw", [.O_GPR_C_I_LP_GPR_RP, .O_GPR_C_DL]),
   ("ld", [.O_GPR_C_I_LP_GPR_RP, .O_GPR_C_DL]), ("lbu", [.O_GPR_C_I_LP_GPR_RP]),
   ("lhu", [.O_GPR_C_I_LP_GPR_RP]), ("lwu", [.O_GPR_C_I_LP_GPR_RP]), ("sb", [.O_GPR_C_I_LP_GPR_RP]),
   ("sh", [.O_GPR_C_I_LP_GPR_RP]), ("sw", [.O_GPR_C_I_LP_GPR_RP]), ("sd", [.O_GPR_C_I_LP_GPR_RP]),
   ("beq", [.O_GPR_C_GPR_C_I, .O_GPR_C_GPR_C_IL]), ("bne", [.O_GPR_C_GPR_C_I, .O_GPR_C_GPR_C_IL]),
   ("blt", [.O_GPR_C_GPR_C_I, .O_GPR_C_GPR_C_IL]), ("bge", [.O_GPR_C_GPR_C_I, .O_GPR_C_GPR_C_IL]),
   ("bltu", [.O_GPR_C_GPR_C_I, .O_GPR_C_GPR_C_IL]), ("bgeu", [.O_GPR_C_GPR_C_I, .O_GPR_C_GPR_C_IL]),
   ("lui", [.O_GPR_C_I]), ("auipc", [.O_GPR_C_I]), ("jal", [.O_GPR_C_I, .O_GPR_C_IL]),
   ("jalr", [.O_GPR_C_I_LP_GPR_RP]), ("ecall", [.O]), ("csrrw", [.O_GPR_C_CSR_C_GPR]),
   ("csrrs", [.O_GPR_C_CSR_C_GPR]), ("csrrc", [.O_GPR_C_CSR_C_GPR]), ("csrrwi", [.O_GPR_C_CSR_C_I]),
   ("csrrsi", [.O_GPR_C_CSR_C_I]), ("csrrci", [.O_GPR_C_CSR_C_I]), ("fence", [.O]),
   ("fence_i", [.O]), ("nop", [.PSEUDO]), ("li", [.PSEUDO]), ("la", [.PSEUDO]), ("mv", [.PSEUDO]),
   ("not", [.PSEUDO]), ("neg", [.PSEUDO]), ("negw", [.PSEUDO]), ("sext.w", [.PSEUDO]),
   ("seqz", [.PSEUDO]), ("snez", [.PSEUDO]), ("sltz", [.PSEUDO]), ("sgtz", [.PSEUDO]),
   ("beqz", [.PSEUDO]), ("bnez", [.PSEUDO]), ("blez", [.PSEUDO]), ("bgez", [.PSEUDO]),
   ("bltz", [.PSEUDO]), ("bgtz", [.PSEUDO]), ("bgt", [.PSEUDO]), ("ble", [.PSEUDO]),
   ("bgtu", [.PSEUDO]), ("bleu", [.PSEUDO]), ("j", [.PSEUDO]), ("jr", [.PSEUDO]),
   ("ret", [.PSEUDO]), ("call", [.PSEUDO]), ("tail", [.PSEUDO]), ("fence", [.PSEUDO]),
   ("fence_i", [.PSEUDO]), ("mul", [.O_GPR_C_GPR_C_GPR]), ("mulh", [.O_GPR_C_GPR_C_GPR]),
   ("mulhsu", [.O_GPR_C_GPR_C_GPR]), ("mulhu", [.O_GPR_C_GPR_C_GPR]), ("div", [.O_GPR_C_GPR_C_GPR]),
   ("divu", [.O_GPR_C_GPR_C_GPR]), ("rem", [.O_GPR_C_GPR_C_GPR]), ("remu", [.O_GPR_C_GPR_C_GPR]),
   ("mulw", [.O_GPR_C_GPR_C_GPR]), ("divw", [.O_GPR_C_GPR_C_GPR]), ("divuw", [.O_GPR_C_GPR_C_GPR]),
   ("remw", [.O_GPR_C_GPR_C_GPR]), ("remuw", [.O_GPR_C_GPR_C_GPR]), ("flw", [.O_FPR_C_I_LP_GPR_RP]),
   ("fsw", [.O_FPR_C_I_LP_GPR_RP]),
   ("fmadd.s", [.O_FPR_C_FPR_C_FPR_C_FPR, .O_FPR_C_FPR_C_FPR_C_FPR_C_RM]),
   ("fmsub.s", [.O_FPR_C_FPR_C_FPR_C_FPR, .O_FPR_C_FPR_C_FPR_C_FPR_C_RM]),
   ("fnmsub.s", [.O_FPR_C_FPR_C_FPR_C_FPR, .O_FPR_C_FPR_C_FPR_C_FPR_C_RM]),
   ("fnmadd.s", [.O_FPR_C_FPR_C_FPR_C_FPR, .O_FPR_C_FPR_C_FPR_C_FPR_C_RM]),
   ("fadd.s", [.O_FPR_C_FPR_C_FPR, .O_FPR_C_FPR_C_FPR_C_RM]),
   ("fsub.s", [.O_FPR_C_FPR_C_FPR, .O_FPR_C_FPR_C_FPR_C_RM]),
   ("fmul.s", [.O_FPR_C_FPR_C_FPR, .O_FPR_C_FPR_C_FPR_C_RM]),
   ("fdiv.s", [.O_FPR_C_FPR_C_FPR, .O_FPR_C_FPR_C_FPR_C_RM]),
   ("fsqrt.s", [.O_FPR_C_FPR, .O_FPR_C_FPR_C_RM]), ("fsgnj.s", [.O_FPR_C_FPR_C_FPR]),
   ("fsgnjn.s", [.O_FPR_C_FPR_C_FPR]), ("fsgnjx.s", [.O_FPR_C_FPR_C_FPR]),
   ("fmin.s", [.O_FPR_C_FPR_C_FPR]), ("fmax.s", [.O_FPR_C_FPR_C_FPR]),
   ("feq.s", [.O_GPR_C_FPR_C_FPR]), ("flt.s", [.O_GPR_C_FPR_C_FPR]),
   ("fle.s", [.O_GPR_C_FPR_C_FPR]), ("fclass.s", [.O_GPR_C_FPR]), ("fmv.x.w", [.O_GPR_C_FPR]),
   ("fmv.w.x", [.O_FPR_C_GPR]), ("fcvt.w.s", [.O_GPR_C_FPR, .O_GPR_C_FPR_C_RM]),
   ("fcvt.wu.s", [.O_GPR_C_FPR, .O_GPR_C_FPR_C_RM]),
   ("fcvt.l.s", [.O_GPR_C_FPR, .O_GPR_C_FPR_C_RM]),
   ("fcvt.lu.s", [.O_GPR_C_FPR, .O_GPR_C_FPR_C_RM]),
   ("fcvt.s.w", [.O_FPR_C_GPR, .O_FPR_C_GPR_C_RM]),
   ("fcvt.s.wu", [.O_FPR_C_GPR, .O_FPR_C_GPR_C_RM]),
   ("fcvt.s.l", [.O_FPR_C_GPR, .O_FPR_C_GPR_C_RM]),
   ("fcvt.s.lu", [.O_FPR_C_GPR, .O_FPR_C_GPR_C_RM]), ("fld", [.O_FPR_C_I_LP_GPR_RP]),
   ("fsd", [.O_FPR_C_I_LP_GPR_RP]),
   ("fmadd.d", [.O_FPR_C_FPR_C_FPR_C_FPR, .O_FPR_C_FPR_C_FPR_C_FPR_C_RM]),
   ("fmsub.d", [.O_FPR_C_FPR_C_FPR_C_FPR, .O_FPR_C_FPR_C_FPR_C_FPR_C_RM]),
   ("fnmsub.d", [.O_FPR_C_FPR_C_FPR_C_FPR, .O_FPR_C_FPR_C_FPR_C_FPR_C_RM]),
   ("fnmadd.d", [.O_FPR_C_FPR_C_FPR_C_FPR, .O_FPR_C_FPR_C_FPR_C_FPR_C_RM]),
   ("fadd.d", [.O_FPR_C_FPR_C_FPR, .O_FPR_C_FPR_C_FPR_C_RM]),
   ("fsub.d", [.O_FPR_C_FPR_C_FPR, .O_FPR_C_FPR_C_FPR_C_RM]),
   ("fmul.d", [.O_FPR_C_FPR_C_FPR, .O_FPR_C_FPR_C_FPR_C_RM]),
   ("fdiv.d", [.O_FPR_C_FPR_C_FPR, .O_FPR_C_FPR_C_FPR_C_RM]),
   ("fsqrt.d", [.O_FPR_C_FPR, .O_FPR_C_FPR_C_RM]), ("fsgnj.d", [.O_FPR_C_FPR_C_FPR]),
   ("fsgnjn.d", [.O_FPR_C_FPR_C_FPR]), ("fsgnjx.d", [.O_FPR_C_FPR_C_FPR]),
   ("fmin.d", [.O_FPR_C_FPR_C_FPR]), ("fmax.d", [.O_FPR_C_FPR_C_FPR]),
   ("feq.d", [.O_GPR_C_FPR_C_FPR]), ("flt.d", [.O_GPR_C_FPR_C_FPR]),
   ("fle.d", [.O_GPR_C_FPR_C_FPR]), ("fclass.d", [.O_GPR_C_FPR]),
   ("fcvt.w.d", [.O_GPR_C_FPR, .O_FPR_C_GPR_C_RM]),
   ("fcvt.wu.d", [.O_GPR_C_FPR, .O_FPR_C_GPR_C_RM]),
   ("fcvt.l.d", [.O_GPR_C_FPR, .O_FPR_C_GPR_C_RM]),
   ("fcvt.lu.d", [.O_GPR_C_FPR, .O_FPR_C_GPR_C_RM]),
   ("fcvt.d.w", [.O_FPR_C_GPR, .O_GPR_C_FPR_C_RM]),
   ("fcvt.d.wu", [.O_FPR_C_GPR, .O_GPR_C_FPR_C_RM]),
   ("fcvt.d.l", [.O_FPR_C_GPR, .O_FPR_C_GPR_C_RM]),
   ("fcvt.d.lu", [.O_FPR_C_GPR, .O_FPR_C_GPR_C_RM]),
   ("fcvt.s.d", [.O_FPR_C_FPR, .O_GPR_C_FPR_C_RM]), ("fcvt.d.s", [.O_FPR_C_FPR, .O_GPR_C_FPR_C_RM]),
   ("fmv.x.d", [.O_GPR_C_FPR]), ("fmv.d.x", [.O_FPR_C_GPR])]

def opcodeSyntaxMap : List (String × String) :=
  [("nop", "nop"), ("li", "li <reg>, <imm>"), ("mv", "mv <reg>, <reg>"),
   ("not", "not <reg>, <reg>"), ("neg", "neg <reg>, <reg>"), ("seqz", "seqz <reg>, <reg>"),
   ("snez", "snez <reg>, <reg>"), ("sltz", "sltz <reg>, <reg>"), ("sgtz", "sgtz <reg>, <reg>"),
   ("beqz", "beqz <reg>, <text label>"), ("bnez", "bnez <reg>, <text label>"),
   ("blez", "blez <reg>, <text label>"), ("bgez", "bgez <reg>, <text label>"),
   ("bltz", "bltz <reg>, <text label>"), ("bgtz", "bgtz <reg>, <text label>"),
   ("j", "j <text label>"), ("jr", "jr <reg>"), ("la", "la <reg>, <text label>"),
   ("call", "call <text label>"), ("tail", "tail <text label>"), ("fence", "fence")]

def syntaxTypeToString : List (SyntaxType × String) :=
  [(.O, "<empty>"), (.O_GPR_C_GPR_C_GPR, "<gp-reg>, <gp-reg>, <gp-reg>"),
   (.O_GPR_C_GPR_C_I, "<gp-reg>, <gp-reg>, <imm>"),
   (.O_GPR_C_GPR_C_IL, "<gp-reg>, <gp-reg>, <text-label>"),
   (.O_GPR_C_GPR_C_DL, "<gp-reg>, <gp-reg>, <data-label>"),
   (.O_GPR_C_I_LP_GPR_RP, "<gp-reg>, <gp-imm>(<gp-reg>)"), (.O_GPR_C_I, "<gp-reg>, <imm>"),
   (.O_GPR_C_IL, "<gp-reg>, <text-label>"), (.O_GPR_C_DL, "<gp-reg>, <data-label>"),
   (.O_GPR_C_CSR_C_GPR, "<gp-reg>, <csr>, <gp-reg>"), (.O_GPR_C_CSR_C_I, "<gp-reg>, <csr>, <uimm>"),
   (.O_FPR_C_FPR_C_FPR_C_FPR, "<fp-reg>, <fp-reg>, <fp-reg>, <fp-reg>"),
   (.O_FPR_C_FPR_C_FPR_C_FPR_C_RM, "<fp-reg>, <fp-reg>, <fp-reg>, <fp-reg>, <rm>"),
   (.O_FPR_C_FPR_C_FPR, "<fp-reg>, <fp-reg>, <fp-reg>"),
   (.O_FPR_C_FPR_C_FPR_C_RM, "<fp-reg>, <fp-reg>, <fp-reg>, <rm>"),
   (.O_FPR_C_FPR, "<fp-reg>, <fp-reg>"), (.O_FPR_C_FPR_C_RM, "<fp-reg>, <fp-reg>, <rm>"),
   (.O_FPR_C_GPR, "<fp-reg>, <gp-reg>"), (.O_FPR_C_GPR_C_RM, "<fp-reg>, <gp-reg>, <rm>"),
   (.O_GPR_C_FPR, "<gp-reg>, <fp-reg>"), (.O_GPR_C_FPR_C_RM, "<gp-reg>, <fp-reg>, <rm>"),
   (.O_GPR_C_FPR_C_FPR, "<gp-reg>, <fp-reg>, <fp-reg>"),
   (.O_FPR_C_I_LP_GPR_RP, "<fp-reg>, <imm>(<gp-reg>)")]

/-- `instruction_syntax_map[opcode]`: a mnemonic without an entry has no syntax. -/
def syntaxes (opcode : String) : List SyntaxType := (instructionSyntaxMap.lookup opcode).getD []

/-- The text of one syntax, with `" or "` before all but the first. -/
def expectedSyntax (opcode : String) (s : SyntaxType) : String :=
  match syntaxTypeToString.lookup s with
  | some text => opcode ++ " " ++ text
  | none => ""

def getExpectedSyntaxes (opcode : String) : String :=
  match opcodeSyntaxMap.lookup opcode with
  | some text => text
  | none => " or ".intercalate ((syntaxes opcode).map (expectedSyntax opcode))

end InstructionSet

end RiscvSim
