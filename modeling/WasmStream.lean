import WasmStream.Assembly.Basic
import WasmStream.Decoder
import WasmStream.Proofs.Varint
import WasmStream.Registry.Listing
import WasmStream.Registry.Standard
import WasmStream.Proofs.Operands
import WasmStream.Proofs.Coding
import WasmStream.Proofs.Moves
import WasmStream.Proofs.Steps
import WasmStream.Proofs.Runs
import WasmStream.Proofs.BlockMachine
import WasmStream.Proofs.Brackets
import WasmStream.Proofs.Acceptance
import WasmStream.Proofs.BodyEnd
import WasmStream.Proofs.Canonical
import WasmStream.Proofs.Extension
import WasmStream.Proofs.Points
import WasmStream.Proofs.Reachability
import WasmStream.Proofs.Decimals
import WasmStream.Proofs.Rounding
import WasmStream.Proofs.Floats
import WasmStream.Proofs.Lines
import WasmStream.Proofs.Printing
import WasmStream.Proofs.Reassembly
import WasmStream.Proofs.Matching
import WasmStream.Proofs.Trails
import WasmStream.Proofs.OpenFrames
import WasmStream.Proofs.Calls
import WasmStream.Proofs.Causes
import WasmStream.Proofs.Displacement
import WasmStream.Proofs.EnclosedBody
import WasmStream.Proofs.Explanations
import WasmStream.Proofs.LargerRegistry
import WasmStream.Proofs.Concatenation
import WasmStream.Proofs.FieldReading
import WasmStream.Proofs.OperandWriting
import WasmStream.Proofs.LineByLine
import WasmStream.Proofs.Indexing
import WasmStream.Proofs.LineGrammar
import WasmStream.Proofs.WrittenNumbers
import WasmStream.Proofs.OperandGrammar
import WasmStream.Proofs.NearestValue
import WasmStream.Proofs.FloatGrammar
import WasmStream.Proofs.Attempts
import WasmStream.Proofs.Segments
import WasmStream.Proofs.Tiling
import WasmStream.Proofs.BranchTables
import WasmStream.Proofs.Requests
import WasmStream.Proofs.Rectangle
