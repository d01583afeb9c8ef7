import BytecodeDebugger.Breakpoint
import BytecodeDebugger.Bytes
import BytecodeDebugger.Command
import BytecodeDebugger.CommandLine.Arguments
import BytecodeDebugger.CommandLine.Basic
import BytecodeDebugger.CommandLine.Directory
import BytecodeDebugger.CommandLine.Inputs
import BytecodeDebugger.CommandLine.Report
import BytecodeDebugger.Debugger
import BytecodeDebugger.Frame
import BytecodeDebugger.Handler.Basic
import BytecodeDebugger.Handler.Script
import BytecodeDebugger.Instruction.Basic
import BytecodeDebugger.Instruction.Listing
import BytecodeDebugger.Instruction.Table
import BytecodeDebugger.Interpreter
import BytecodeDebugger.Journal
import BytecodeDebugger.Json.Basic
import BytecodeDebugger.Json.Document
import BytecodeDebugger.Json.Number
import BytecodeDebugger.Json.Token
import BytecodeDebugger.Machine.Basic
import BytecodeDebugger.Machine.Code
import BytecodeDebugger.Machine.Fault
import BytecodeDebugger.Machine.Memory
import BytecodeDebugger.Machine.Stack
import BytecodeDebugger.Main
import BytecodeDebugger.Prompt.Basic
import BytecodeDebugger.Prompt.Notice
import BytecodeDebugger.Proofs.Debugger.Operation
import BytecodeDebugger.Proofs.Handler.Prompt
import BytecodeDebugger.Proofs.Handler.Script
import BytecodeDebugger.Proofs.Handler.Transcript
import BytecodeDebugger.Proofs.Handler.Typed
import BytecodeDebugger.Proofs.Instruction.Cursor
import BytecodeDebugger.Proofs.Instruction.Fault
import BytecodeDebugger.Proofs.Instruction.Listing
import BytecodeDebugger.Proofs.Machine.Action
import BytecodeDebugger.Proofs.Machine.Code
import BytecodeDebugger.Proofs.Run.Boundary
import BytecodeDebugger.Proofs.Run.Bracket
import BytecodeDebugger.Proofs.Run.Gather
import BytecodeDebugger.Proofs.Run.History
import BytecodeDebugger.Proofs.Run.Lockstep
import BytecodeDebugger.Proofs.Run.Pause
import BytecodeDebugger.Proofs.Run.Plain
import BytecodeDebugger.Proofs.Run.Resumption
import BytecodeDebugger.Proofs.Session.Alike
import BytecodeDebugger.Proofs.Session.Entries
import BytecodeDebugger.Proofs.Session.Exchange
import BytecodeDebugger.Proofs.Session.Release
import BytecodeDebugger.Proofs.Source.LineMap
import BytecodeDebugger.Session.Basic
import BytecodeDebugger.Session.Dialogue
import BytecodeDebugger.Source.LineMap
import BytecodeDebugger.Source.LineMapFile
import BytecodeDebugger.Source.Text
import BytecodeDebugger.Text.Backspace
import BytecodeDebugger.Text.Blank
import BytecodeDebugger.Text.Cluster
import BytecodeDebugger.Text.ClusterClass
import BytecodeDebugger.Text.Column
import BytecodeDebugger.Text.Hex
import BytecodeDebugger.Text.Line
import BytecodeDebugger.Text.Numeral
import BytecodeDebugger.Word
import BytecodeDebugger.Proofs.Debugger.Hits
import BytecodeDebugger.Proofs.Debugger.Edits
import BytecodeDebugger.Proofs.Run.Restart
import BytecodeDebugger.Proofs.Run.ReturnData
import BytecodeDebugger.Proofs.CommandLine.Outcome
import BytecodeDebugger.Proofs.Machine.Bytes
import BytecodeDebugger.Proofs.Machine.Memory
import BytecodeDebugger.Proofs.Text.ByteOrder
import BytecodeDebugger.Proofs.Source.LineMapFile
import BytecodeDebugger.Proofs.Machine.Checked
import BytecodeDebugger.Proofs.Instruction.Checked
import BytecodeDebugger.Proofs.Run.Limits
import BytecodeDebugger.Proofs.Run.Forward
import BytecodeDebugger.Proofs.Instruction.Above
import BytecodeDebugger.Proofs.Run.Above
import BytecodeDebugger.Proofs.Instruction.Tiling
import BytecodeDebugger.Proofs.Machine.BigEndian
import BytecodeDebugger.Proofs.Run.Push
import BytecodeDebugger.Proofs.Run.Failure
import BytecodeDebugger.Proofs.Text.Blank
import BytecodeDebugger.Proofs.Text.Numeral
import BytecodeDebugger.Proofs.Command.Grammar
import BytecodeDebugger.Proofs.Session.Reply
import BytecodeDebugger.Proofs.Text.Hex
import BytecodeDebugger.Proofs.CommandLine.Address
import BytecodeDebugger.Proofs.Text.Number
import BytecodeDebugger.Proofs.Source.Context
import BytecodeDebugger.Proofs.Run.Operands
import BytecodeDebugger.Proofs.Run.Ending
import BytecodeDebugger.Proofs.CommandLine.Ending
import BytecodeDebugger.Proofs.Machine.Stream
