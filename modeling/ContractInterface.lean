import ContractInterface.Main
import ContractInterface.Service.Host
import ContractInterface.Proofs.Grammar
import ContractInterface.Proofs.Grammar.Unambiguous
import ContractInterface.Proofs.Grammar.Reads
import ContractInterface.Proofs.Grammar.Types
import ContractInterface.Proofs.Grammar.Body
import ContractInterface.Proofs.Grammar.Declarations
import ContractInterface.Proofs.Grammar.Units
import ContractInterface.Proofs.Json.Lexemes
import ContractInterface.Proofs.Json.RoundTrip
import ContractInterface.Proofs.Json.Plain
import ContractInterface.Proofs.Json.Views
import ContractInterface.Proofs.Grammar.Shape
import ContractInterface.Proofs.Description
import ContractInterface.Proofs.Stub
import ContractInterface.Proofs.Rendering
import ContractInterface.Proofs.Surface
import ContractInterface.Proofs.Typing.Checker
import ContractInterface.Proofs.Typing.Infer
import ContractInterface.Proofs.Typing.Positions
import ContractInterface.Proofs.Typing.Reuse
import ContractInterface.Proofs.Scan.Tiling
import ContractInterface.Proofs.Scan.Failures
import ContractInterface.Proofs.Scan.Lines
import ContractInterface.Proofs.Text.Returns
import ContractInterface.Proofs.Outcome
import ContractInterface.Proofs.Stub.Schema
import ContractInterface.Proofs.CommandLine.Calls
import ContractInterface.Proofs.Decode
import ContractInterface.Proofs.Agreement
import ContractInterface.Proofs.Scan.Returns
import ContractInterface.Proofs.LineEnds
import ContractInterface.Proofs.Scan.Append
import ContractInterface.Proofs.Sameness
import ContractInterface.Proofs.Typing.Surface
import ContractInterface.Proofs.Grammar.Blindness
import ContractInterface.Proofs.Composition
import ContractInterface.Proofs.Layout
import ContractInterface.Proofs.Rereading
import ContractInterface.Proofs.Stub.Surface
import ContractInterface.Proofs.Grammar.Stops
import ContractInterface.Proofs.SyntaxFailures
import ContractInterface.Proofs.Ambiguity
import ContractInterface.Proofs.Order
import ContractInterface.Proofs.Typing.Symmetry
import ContractInterface.Proofs.Stub.Source
import ContractInterface.Proofs.InvalidBytes
import ContractInterface.Proofs.Sessions
import ContractInterface.Proofs.CommandLine.Delivery
import ContractInterface.Proofs.Text.Ranges
import ContractInterface.Proofs.Text.Printable
import ContractInterface.Proofs.Messages
import ContractInterface.Proofs.Cursor
import ContractInterface.Proofs.Cursor.Scanner
import ContractInterface.Proofs.Cursor.Follows
import ContractInterface.Proofs.Cursor.Types
import ContractInterface.Proofs.Cursor.Parser
import ContractInterface.Proofs.Cursor.Stopping
