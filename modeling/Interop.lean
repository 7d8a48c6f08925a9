import Interop.Configuration.Writer
import Interop.Constant.Reader
import Interop.Proofs.Declaration.RoundTrip
import Interop.Json.Printer
import Interop.Main
import Interop.Proofs.Generation.Closure
import Interop.Proofs.Session.Calls
import Interop.Proofs.Generation.Directory
import Interop.Proofs.Generation.Partition
import Interop.Proofs.Expression.Inquiry
import Interop.Proofs.Expression.Promotion
import Interop.Proofs.Session.Order
import Interop.Proofs.Macro.Evaluation
import Interop.Proofs.Macro.Memory
import Interop.Proofs.Macro.Need
import Interop.Proofs.Constant.Numeral
import Interop.Proofs.Expression.Precedence
import Interop.Proofs.Expression.Spacing
import Interop.Proofs.Expression.SignedNumeral
import Interop.Proofs.Context.Index
import Interop.Proofs.Context.Naming
import Interop.Proofs.Context.Unification
import Interop.Proofs.Generation.Independence
import Interop.Proofs.Failure
import Interop.Proofs.Session.Contract
import Interop.Proofs.Session.Nesting
import Interop.Proofs.Session.Counter
import Interop.Proofs.Session.MemberNames
import Interop.Proofs.Session.Pointer
import Interop.Proofs.Generation.Cause
import Interop.Proofs.Session.OwnEnumeration
import Interop.Proofs.Session.Overrides
import Interop.Proofs.Session.Abandonment
import Interop.Proofs.Context.Alias
import Interop.Proofs.Macro.Extraction
import Interop.Proofs.Expression.Cast
import Interop.Proofs.Expression.Specifier
import Interop.Proofs.Expression.Outcome
import Interop.Proofs.Expression.Typing
import Interop.Proofs.Expression.Identifiers
import Interop.Proofs.Document.Code
import Interop.Proofs.Document.FixedArray
import Interop.Proofs.Document.StringLiteral
import Interop.Proofs.Identifier
import Interop.Proofs.Target
import Interop.Proofs.Document.Layout
import Interop.Proofs.Document.Signature
import Interop.Proofs.Document.Literal
import Interop.Proofs.Document.Member
import Interop.Proofs.Document.Names
import Interop.Proofs.Generation.Reserved
import Interop.Proofs.Generation.Redeclaration
import Interop.Proofs.Expression.Malformed
import Interop.Proofs.Document.Nesting
import Interop.Proofs.Declaration.Dump
import Interop.Proofs.CommandLine.Overrides
