import PocketConsole.Address
import PocketConsole.Assembly.Basic
import PocketConsole.Assembly.Literal
import PocketConsole.Assembly.Statement
import PocketConsole.Bank
import PocketConsole.Binary64
import PocketConsole.Button
import PocketConsole.CommandLine.Arguments
import PocketConsole.CommandLine.Png
import PocketConsole.CommandLine.Press
import PocketConsole.CommandLine.Rate
import PocketConsole.CommandLine.Run
import PocketConsole.Console.Basic
import PocketConsole.Console.Buttons
import PocketConsole.Console.Screen
import PocketConsole.Duration
import PocketConsole.Event
import PocketConsole.Fault
import PocketConsole.Files.AnyStore
import PocketConsole.Files.Folder
import PocketConsole.Files.MakeFolders
import PocketConsole.Files.Tree
import PocketConsole.Flag
import PocketConsole.Json.Basic
import PocketConsole.Json.Numeral
import PocketConsole.Json.Text
import PocketConsole.Machine.Arithmetic
import PocketConsole.Machine.Basic
import PocketConsole.Machine.Execute
import PocketConsole.Machine.Rig
import PocketConsole.Main
import PocketConsole.Opcode
import PocketConsole.Program
import PocketConsole.Proofs.Assembly.JumpTarget
import PocketConsole.Proofs.Assembly.LabelTable
import PocketConsole.Proofs.Console.Footprint
import PocketConsole.Proofs.Console.Isolation
import PocketConsole.Proofs.Console.Packets
import PocketConsole.Proofs.Console.Script
import PocketConsole.Proofs.Console.SerialLine
import PocketConsole.Proofs.Json.Grammar
import PocketConsole.Proofs.Json.Lexemes
import PocketConsole.Proofs.Json.Limits
import PocketConsole.Proofs.Json.Numerals
import PocketConsole.Proofs.Json.Reading
import PocketConsole.Proofs.Json.Strings
import PocketConsole.Proofs.Machine.Confinement
import PocketConsole.Proofs.Machine.Contents
import PocketConsole.Proofs.Machine.Continuation
import PocketConsole.Proofs.Machine.Cycle
import PocketConsole.Proofs.Machine.Expression
import PocketConsole.Proofs.Machine.Frame
import PocketConsole.Proofs.Machine.Image
import PocketConsole.Proofs.Machine.Jump
import PocketConsole.Proofs.Machine.Lockstep
import PocketConsole.Proofs.Machine.Replay
import PocketConsole.Proofs.Machine.Time
import PocketConsole.Proofs.Machine.Words
import PocketConsole.Proofs.Memory.Regions
import PocketConsole.Proofs.Saves.Entries
import PocketConsole.Proofs.Saves.History
import PocketConsole.Proofs.Saves.RoundTrip
import PocketConsole.Region
import PocketConsole.Register
import PocketConsole.SaveRecord
import PocketConsole.Scheduler
import PocketConsole.SortedMap
import PocketConsole.Store
import PocketConsole.Text.Blank
import PocketConsole.Text.Hex
import PocketConsole.Text.Letters
import PocketConsole.Text.Lines
import PocketConsole.Text.Printable
import PocketConsole.Text.Quoted
import PocketConsole.Proofs.Console.Sending
import PocketConsole.Proofs.Console.Presses
import PocketConsole.Proofs.Console.Flags
import PocketConsole.Proofs.Saves.Canonical
import PocketConsole.Proofs.Console.Handshake
import PocketConsole.Proofs.Assembly.Words
import PocketConsole.Proofs.CommandLine.Presses
import PocketConsole.Proofs.Assembly.Layout
import PocketConsole.Proofs.Assembly.LetterCase
import PocketConsole.Proofs.Assembly.Literals
import PocketConsole.Proofs.Assembly.Listing
import PocketConsole.Proofs.Assembly.Extension
import PocketConsole.Proofs.Assembly.Numbering
import PocketConsole.Proofs.Assembly.Constants
import PocketConsole.Proofs.Machine.SavedReturn
import PocketConsole.Proofs.Machine.Targets
import PocketConsole.Proofs.Machine.Sleep
import PocketConsole.Proofs.Machine.Halting
import PocketConsole.Proofs.Machine.Successor
import PocketConsole.Proofs.Machine.StraightLine
import PocketConsole.Proofs.Machine.Pass
import PocketConsole.Proofs.Machine.Call
import PocketConsole.Proofs.Machine.Integers
import PocketConsole.Proofs.Machine.Canvas
import PocketConsole.Proofs.Machine.Loading
import PocketConsole.Proofs.Machine.Ring
import PocketConsole.Proofs.Machine.Transfer
import PocketConsole.Proofs.Memory.Clipping
import PocketConsole.Proofs.Memory.Windows
import PocketConsole.Proofs.Console.Standstill
import PocketConsole.Proofs.Console.ButtonHistory
import PocketConsole.Proofs.Machine.Timer
import PocketConsole.Proofs.Machine.Offsets
import PocketConsole.Proofs.Time.Rounding
import PocketConsole.Proofs.Time.Spans
import PocketConsole.Proofs.Time.CatchingUp
import PocketConsole.Proofs.Console.Frames
import PocketConsole.Proofs.CommandLine.Course
import PocketConsole.Proofs.CommandLine.Sums
import PocketConsole.Proofs.CommandLine.PictureFile
import PocketConsole.Proofs.Files.ReadBack
import PocketConsole.Proofs.CommandLine.Picture
import PocketConsole.Proofs.Memory.Spans
import PocketConsole.Proofs.Text.Pieces
import PocketConsole.Proofs.Files.Places
import PocketConsole.Proofs.Files.Keys
import PocketConsole.Proofs.CommandLine.PressText
