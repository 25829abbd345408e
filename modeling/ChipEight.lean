import ChipEight.Host.Bench
import ChipEight.Instruction.Notation
import ChipEight.Main
import ChipEight.Window
import ChipEight.Proofs.Decoding
import ChipEight.Proofs.CallStack
import ChipEight.Proofs.BoundedList
import ChipEight.Proofs.Control
import ChipEight.Proofs.Reachable
import ChipEight.Proofs.Halting
import ChipEight.Proofs.Subroutine
import ChipEight.Proofs.Countdown
import ChipEight.Proofs.Timers
import ChipEight.Proofs.Advance
import ChipEight.Proofs.Pace
import ChipEight.Proofs.History
import ChipEight.Proofs.Beeper
import ChipEight.Proofs.IdealClock
import ChipEight.Proofs.RealTime
import ChipEight.Proofs.Schedule
import ChipEight.Proofs.Pacing
import ChipEight.Proofs.Session
import ChipEight.Proofs.Limit
import ChipEight.Proofs.Untimed
import ChipEight.Proofs.TimeIndependence
import ChipEight.Proofs.Progress
import ChipEight.Proofs.Screen
import ChipEight.Proofs.Tone
import ChipEight.Proofs.Interleaving
import ChipEight.Proofs.Quitting
import ChipEight.Proofs.TurnTaking
import ChipEight.Proofs.MainBeeper
import ChipEight.Proofs.Exchange
import ChipEight.Proofs.Accounting
import ChipEight.Proofs.MaskTable
import ChipEight.Proofs.Hold
import ChipEight.Proofs.Footprint
import ChipEight.Proofs.Falls
import ChipEight.Proofs.Torus
import ChipEight.Proofs.Strokes
import ChipEight.Proofs.Collision
import ChipEight.Proofs.ProgramCounter
import ChipEight.Proofs.BlockTransfer
import ChipEight.Proofs.Arithmetic
import ChipEight.Proofs.KeyWait
import ChipEight.Proofs.WakeUp
import ChipEight.Proofs.Assembler
import ChipEight.Proofs.Reset
import ChipEight.Proofs.Loading
import ChipEight.Proofs.Rounding
import ChipEight.Proofs.SquareWave
