import RiscvSim.AlignedRuns
import RiscvSim.BigmulRtl
import RiscvSim.BlockMemory
import RiscvSim.BlockSizes
import RiscvSim.CommandLine
import RiscvSim.CsaPipeline
import RiscvSim.CustomDecode
import RiscvSim.CustomSteps
import RiscvSim.CustomUndo
import RiscvSim.DataAddress
import RiscvSim.DataLayout
import RiscvSim.DebugSession
import RiscvSim.Disassembly
import RiscvSim.ElfFile
import RiscvSim.FloatCsrs
import RiscvSim.FloatLiteral
import RiscvSim.FloatRecognition
import RiscvSim.FpLoads
import RiscvSim.HostDivision
import RiscvSim.HostRounding
import RiscvSim.InstructionLimit
import RiscvSim.IntegerInstructions
import RiscvSim.LdbmLoad
import RiscvSim.LineMaps
import RiscvSim.MultiplierRuns
import RiscvSim.NameClashes
import RiscvSim.OperandHistory
import RiscvSim.PartialWrites
import RiscvSim.RunStep
import RiscvSim.SevenStages
import RiscvSim.Shifts
import RiscvSim.StandardInput
import RiscvSim.StringContents
import RiscvSim.StringLiteral
import RiscvSim.Systolic
import RiscvSim.Threads
import RiscvSim.UndoExact
import RiscvSim.UnitDecoding
import RiscvSim.UnrecordedRun
import RiscvSim.UnrecordedWrites
import RiscvSim.Layouts
import RiscvSim.ProgramParse
import RiscvSim.ProgramPasses
