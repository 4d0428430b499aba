import ChipEight.Advance
import ChipEight.Archive.Bits
import ChipEight.Archive.Checksum
import ChipEight.Archive.Directory
import ChipEight.Archive.EntryName
import ChipEight.Archive.ExtraField
import ChipEight.Archive.Extract
import ChipEight.Archive.Failure
import ChipEight.Archive.Inflate
import ChipEight.Archive.PrefixCode
import ChipEight.Board.Basic
import ChipEight.Board.Execution
import ChipEight.Board.Overview
import ChipEight.Board.Step
import ChipEight.CallStack
import ChipEight.CommandLine.Address
import ChipEight.CommandLine.Arguments
import ChipEight.CommandLine.Program
import ChipEight.CommandLine.Setting
import ChipEight.Countdown
import ChipEight.Cpu
import ChipEight.Cpu.Report
import ChipEight.Event
import ChipEight.Fault
import ChipEight.Font
import ChipEight.Instruction.Arithmetic
import ChipEight.Instruction.Basic
import ChipEight.Instruction.Mnemonic
import ChipEight.Instruction.Word
import ChipEight.Keypad
import ChipEight.Listing
import ChipEight.Main
import ChipEight.Memory
import ChipEight.RandomSource
import ChipEight.Rom.Basic
import ChipEight.Rom.Error
import ChipEight.Rom.File
import ChipEight.Screen.Basic
import ChipEight.Screen.Grid
import ChipEight.Screen.Picture
import ChipEight.Session.Basic
import ChipEight.Session.Cadence
import ChipEight.Session.Run
import ChipEight.Sizes
import ChipEight.Text.Chunk
import ChipEight.Text.ControlSequence
import ChipEight.Text.Numeral
import ChipEight.Text.NumeralReader
import ChipEight.Tone.Bank
import ChipEight.Tone.Basic
import ChipEight.Tone.Wave
import ChipEight.Proofs.Memory.Access
import ChipEight.Proofs.Board.Fetch
import ChipEight.Proofs.Screen.Sprite
import ChipEight.Proofs.Screen.Parity
import ChipEight.Proofs.Screen.Fading
import ChipEight.Proofs.Board.Drawing
import ChipEight.Proofs.Board.Faults
import ChipEight.Proofs.Board.Footprint
import ChipEight.Proofs.Board.Keys
import ChipEight.Proofs.Board.Residue
import ChipEight.Proofs.Board.Flow
import ChipEight.Proofs.Board.History
import ChipEight.Proofs.Board.Executions
import ChipEight.Proofs.Board.Calls
import ChipEight.Proofs.Board.KeyWait
import ChipEight.Proofs.Board.Operations
import ChipEight.Proofs.Board.Guise
import ChipEight.Proofs.Board.Likeness
import ChipEight.Proofs.Session.Journal
import ChipEight.Proofs.Session.Unthrottled
import ChipEight.Proofs.Session.PlainLoop
import ChipEight.Proofs.Session.Composition
import ChipEight.Proofs.Session.Console
import ChipEight.Proofs.Session.Delivery
import ChipEight.Proofs.Session.Breakpoints
import ChipEight.Proofs.Session.Endings
import ChipEight.Proofs.Board.Presentation
import ChipEight.Proofs.Board.Reset
import ChipEight.Proofs.Board.Timers
import ChipEight.Proofs.Rom.Loading
import ChipEight.Proofs.Board.Commuting
import ChipEight.Proofs.Board.HeldKeys
import ChipEight.Proofs.Board.Randomness
import ChipEight.Proofs.Overview.MemoryRows
import ChipEight.Proofs.Text.Numerals
import ChipEight.Proofs.Overview.Rows
import ChipEight.Proofs.Overview.Reading
import ChipEight.Proofs.Board.Retrying
import ChipEight.Proofs.Board.Redrawing
import ChipEight.Proofs.Board.BlockTransfer
import ChipEight.Proofs.Session.StepLimit
import ChipEight.Proofs.Session.Termination
import ChipEight.Proofs.Session.Resumption
import ChipEight.Proofs.Board.Combining
import ChipEight.Proofs.Overview.Collapsing
import ChipEight.Proofs.Text.Columns
import ChipEight.Proofs.Listing.Dump
import ChipEight.Proofs.Listing.Writing
import ChipEight.Proofs.Listing.Instructions
import ChipEight.Proofs.Instruction.Fields
import ChipEight.Proofs.Instruction.Assembly
import ChipEight.Proofs.CommandLine.Addresses
import ChipEight.Proofs.Board.Tracing
import ChipEight.Proofs.Cpu.Reporting
