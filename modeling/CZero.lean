import CZero.Cbor.Content
import CZero.Cbor.Item
import CZero.Cell
import CZero.CommandLine.Options
import CZero.CommandLine.Session
import CZero.Config
import CZero.Console
import CZero.Failure
import CZero.Fault
import CZero.Files.Basic
import CZero.Files.Parent
import CZero.Files.Path
import CZero.Frame
import CZero.Heap.Arrays
import CZero.Heap.Basic
import CZero.Heap.Strings
import CZero.Instr
import CZero.Library.CharArrays
import CZero.Library.Integers
import CZero.Library.Strings
import CZero.Library.Table
import CZero.Library.Terminal
import CZero.Library.Tokens
import CZero.Loader
import CZero.Machine.Run
import CZero.Machine.State
import CZero.Machine.Step
import CZero.Main
import CZero.Native
import CZero.Opcode
import CZero.Program.Basic
import CZero.Program.Binary
import CZero.Program.HexText
import CZero.Program.Image
import CZero.Proofs.Action
import CZero.Proofs.Addresses
import CZero.Proofs.Arithmetic
import CZero.Proofs.Arrays
import CZero.Proofs.CallChain
import CZero.Proofs.CallReturn
import CZero.Proofs.Cbor
import CZero.Proofs.Cells
import CZero.Proofs.CharArrays
import CZero.Proofs.Characters
import CZero.Proofs.Composition
import CZero.Proofs.Config
import CZero.Proofs.Console
import CZero.Proofs.Delivery
import CZero.Proofs.Files
import CZero.Proofs.Frame
import CZero.Proofs.Guards
import CZero.Proofs.Heap.Basic
import CZero.Proofs.Heap.Blocks
import CZero.Proofs.Heap.Contents
import CZero.Proofs.Heap.Evolution
import CZero.Proofs.Heap.Filling
import CZero.Proofs.Heap.Fresh
import CZero.Proofs.Heap.Limit
import CZero.Proofs.Heap.Space
import CZero.Proofs.Heap.Strings
import CZero.Proofs.Input
import CZero.Proofs.Library
import CZero.Proofs.Loader
import CZero.Proofs.Location
import CZero.Proofs.NativeMemory
import CZero.Proofs.Natives
import CZero.Proofs.Numerals
import CZero.Proofs.Output
import CZero.Proofs.Paths
import CZero.Proofs.Program.Binary
import CZero.Proofs.Program.HexText
import CZero.Proofs.Program.Image
import CZero.Proofs.Run
import CZero.Proofs.Safety
import CZero.Proofs.SharedImages
import CZero.Proofs.Space
import CZero.Proofs.Step
import CZero.Proofs.StringPool
import CZero.Proofs.Strings
import CZero.Proofs.Terminal
import CZero.Proofs.Text
import CZero.Proofs.Tokens
import CZero.Proofs.Underlay
import CZero.Text.Blank
import CZero.Text.Bytes
import CZero.Text.Integer
import CZero.Text.Lines
import CZero.Text.Lowercase
import CZero.Text.Printable
import CZero.Text.Quoted
import CZero.Text.Utf8
import CZero.Toml.Basic
import CZero.Toml.Document
import CZero.Toml.Moment
import CZero.Toml.Number
import CZero.Toml.Statement
import CZero.Toml.Text
