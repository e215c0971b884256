import Chip8Emulator.Foundations.Runs
import Chip8Emulator.Foundations.Loops
import Chip8Emulator.Foundations.WordDigits
import Chip8Emulator.Machine
import Chip8Emulator.Instructions
import Chip8Emulator.Process
import Chip8Emulator.Foundations.Memory
import Chip8Emulator.InstructionSet
import Chip8Emulator.Operands
import Chip8Emulator.HandlerProofs
import Chip8Emulator.LoopHandlerProofs
import Chip8Emulator.ProcessRefinement
import Chip8Emulator.FaultCharacterisation
import Chip8Emulator.InstructionFrames
import Chip8Emulator.CallStack
import Chip8Emulator.Foundations.Toggles
import Chip8Emulator.SpriteDrawing
import Chip8Emulator.FontGlyphs
import Chip8Emulator.DelayTimer
import Chip8Emulator.KeyWait
import Chip8Emulator.Loading
import Chip8Emulator.ProgramEnd
import Chip8Emulator.FrameLaw
import Chip8Emulator.TimerControl
import Chip8Emulator.Keypad
import Chip8Emulator.ControlFlow
import Chip8Emulator.ClockIndependence
import Chip8Emulator.Displays
import Chip8Emulator.Arithmetic
import Chip8Emulator.MemoryInstructions
import Chip8Emulator.PartialEffects
import Chip8Emulator.StraightLine
import Chip8Emulator.Foundations.Interleavings
import Chip8Emulator.Isolation
import Chip8Emulator.VirtualMachine
import Chip8Emulator.VirtualMachineRefinement
import Chip8Emulator.Foundations.Numerals
import Chip8Emulator.Application
import Chip8Emulator.FrontPanel
import Chip8Emulator.Foundations.Throttle
import Chip8Emulator.MonitorRefresh
import Chip8Emulator.ProgramImage
import Chip8Emulator.ClosedPrograms
import Chip8Emulator.UserEvents
import Chip8Emulator.InputDependence
import Chip8Emulator.DeadEnd
import Chip8Emulator.Foundations.LeadsTo
import Chip8Emulator.ProgramLogic
import Chip8Emulator.RegisterBlocks
import Chip8Emulator.DecimalDisplay
import Chip8Emulator.KeyEcho
import Chip8Emulator.KeyPolling
import Chip8Emulator.UserView
