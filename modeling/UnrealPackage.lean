import UnrealPackage.Binary.CompactInt
import UnrealPackage.Binary.Cursor
import UnrealPackage.Binary.Decode
import UnrealPackage.Binary.Text
import UnrealPackage.CommandLine.Arguments
import UnrealPackage.CommandLine.Command
import UnrealPackage.CommandLine.Listing
import UnrealPackage.CommandLine.Run
import UnrealPackage.Decimal.Layout
import UnrealPackage.Decimal.Shortest
import UnrealPackage.Error
import UnrealPackage.Field.Decode
import UnrealPackage.Field.Record
import UnrealPackage.Files.Path
import UnrealPackage.Files.Tree
import UnrealPackage.Flags
import UnrealPackage.Json.Basic
import UnrealPackage.Json.Parser
import UnrealPackage.Library.Basic
import UnrealPackage.Library.Fields
import UnrealPackage.Library.Queries
import UnrealPackage.Library.Session
import UnrealPackage.Library.Source
import UnrealPackage.Main
import UnrealPackage.Package.Basic
import UnrealPackage.Package.Change
import UnrealPackage.Package.Draft
import UnrealPackage.Package.Exports
import UnrealPackage.Package.Header
import UnrealPackage.Package.Imports
import UnrealPackage.Package.Relocation
import UnrealPackage.Proofs.Binary.CompactInt
import UnrealPackage.Proofs.Binary.Cursor
import UnrealPackage.Proofs.Binary.Position
import UnrealPackage.Proofs.Binary.Reads
import UnrealPackage.Proofs.Binary.Text
import UnrealPackage.Proofs.Field.Layout
import UnrealPackage.Proofs.Field.ScriptRange
import UnrealPackage.Proofs.Library.Bounds
import UnrealPackage.Proofs.Library.Consult
import UnrealPackage.Proofs.Library.Depth
import UnrealPackage.Proofs.Library.Fields
import UnrealPackage.Proofs.Library.Memo
import UnrealPackage.Proofs.Library.Naming
import UnrealPackage.Proofs.Library.Reading
import UnrealPackage.Proofs.Library.Session
import UnrealPackage.Proofs.Library.Source
import UnrealPackage.Proofs.Library.Template
import UnrealPackage.Proofs.Library.Walk
import UnrealPackage.Proofs.Package.AddExport
import UnrealPackage.Proofs.Package.AddImports
import UnrealPackage.Proofs.Package.Change
import UnrealPackage.Proofs.Package.Distinct
import UnrealPackage.Proofs.Package.Draft
import UnrealPackage.Proofs.Package.ExportPath
import UnrealPackage.Proofs.Package.Exports
import UnrealPackage.Proofs.Package.Failure
import UnrealPackage.Proofs.Package.Fixed
import UnrealPackage.Proofs.Package.Header
import UnrealPackage.Proofs.Package.Imports
import UnrealPackage.Proofs.Package.Intact
import UnrealPackage.Proofs.Package.Layout
import UnrealPackage.Proofs.Package.Payload
import UnrealPackage.Proofs.Package.Ready
import UnrealPackage.Proofs.Package.Relocation
import UnrealPackage.Proofs.Package.Rename
import UnrealPackage.Proofs.Package.Run
import UnrealPackage.Proofs.Package.Spread
import UnrealPackage.Proofs.Package.Stored
import UnrealPackage.Proofs.Package.TableEdit
import UnrealPackage.Proofs.Property.Accepted
import UnrealPackage.Proofs.Property.Agree
import UnrealPackage.Proofs.Property.Consult
import UnrealPackage.Proofs.Property.Extent
import UnrealPackage.Proofs.Property.Framing
import UnrealPackage.Proofs.Property.Gathering
import UnrealPackage.Proofs.Property.Limits
import UnrealPackage.Proofs.Property.Order
import UnrealPackage.Proofs.Property.Record
import UnrealPackage.Proofs.Property.Refusal
import UnrealPackage.Proofs.Property.Regroup
import UnrealPackage.Proofs.Property.Respelled
import UnrealPackage.Proofs.Property.Rewriting
import UnrealPackage.Proofs.Property.RoundTrip
import UnrealPackage.Proofs.Property.SetValues
import UnrealPackage.Proofs.Property.Values
import UnrealPackage.Proofs.Property.WellFormed
import UnrealPackage.Proofs.Script.Accepted
import UnrealPackage.Proofs.Script.Boundaries
import UnrealPackage.Proofs.Script.Calls
import UnrealPackage.Proofs.Script.Canonical
import UnrealPackage.Proofs.Script.Conversion
import UnrealPackage.Proofs.Script.Limits
import UnrealPackage.Proofs.Script.Loops
import UnrealPackage.Proofs.Script.Operands
import UnrealPackage.Proofs.Script.PlainCalls
import UnrealPackage.Proofs.Script.Reads
import UnrealPackage.Proofs.Script.Rewriting
import UnrealPackage.Proofs.Script.RoundTrip
import UnrealPackage.Proofs.Script.Spelled
import UnrealPackage.Proofs.Script.Spelling
import UnrealPackage.Proofs.Script.WellFormed
import UnrealPackage.Proofs.Tables.Distinct
import UnrealPackage.Proofs.Tables.Entry
import UnrealPackage.Proofs.Tables.FullName
import UnrealPackage.Proofs.Tables.FullNameMemo
import UnrealPackage.Proofs.Tables.Growth
import UnrealPackage.Proofs.Tables.Known
import UnrealPackage.Proofs.Tables.Lookup
import UnrealPackage.Proofs.Tables.Meaning
import UnrealPackage.Proofs.Tables.Names
import UnrealPackage.Proofs.Tables.Owners
import UnrealPackage.Proofs.Tables.Rename
import UnrealPackage.Proofs.Tables.Requests
import UnrealPackage.Proofs.Text.Charset
import UnrealPackage.Proofs.Text.Dotted
import UnrealPackage.Proofs.Text.Utf16
import UnrealPackage.Proofs.Text.Utf8
import UnrealPackage.Property.Decode
import UnrealPackage.Property.Encode
import UnrealPackage.Property.Json
import UnrealPackage.Property.Kind
import UnrealPackage.Property.Value
import UnrealPackage.Schema.Basic
import UnrealPackage.Schema.Json
import UnrealPackage.Script.Expr.Basic
import UnrealPackage.Script.Expr.Decode
import UnrealPackage.Script.Expr.Encode
import UnrealPackage.Script.Expr.Render
import UnrealPackage.Script.Native
import UnrealPackage.Script.Native.Stock
import UnrealPackage.Script.Opcode
import UnrealPackage.Tables.Basic
import UnrealPackage.Tables.Entry
import UnrealPackage.Tables.FullName
import UnrealPackage.Tables.FullNameMemo
import UnrealPackage.Tables.Reference
import UnrealPackage.Text.Case
import UnrealPackage.Text.Charset
import UnrealPackage.Text.Digits
import UnrealPackage.Text.Dotted
import UnrealPackage.Text.Printable
import UnrealPackage.Text.Quoted
import UnrealPackage.Text.Utf16
import UnrealPackage.Text.Utf8
import UnrealPackage.Proofs.Package.Setters
import UnrealPackage.Proofs.Script.Lexemes
import UnrealPackage.Proofs.Script.Precedence
import UnrealPackage.Proofs.Script.Wrappers
import UnrealPackage.Proofs.Script.Operation
import UnrealPackage.Proofs.Script.OperationLines
import UnrealPackage.Proofs.Binary.CompactForm
import UnrealPackage.Proofs.Schema.Flattening
import UnrealPackage.Proofs.Binary.StoredText
import UnrealPackage.Proofs.Tables.OwnerChain
import UnrealPackage.Proofs.Schema.Members
import UnrealPackage.Proofs.Json.RoundTrip
import UnrealPackage.Proofs.Schema.RoundTrip
import UnrealPackage.Proofs.Package.InPlace
