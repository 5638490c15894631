import Stela.Check.Body
import Stela.Check.Capture
import Stela.Check.Closure
import Stela.Check.Error
import Stela.Check.Expr
import Stela.Check.Module
import Stela.Check.Names
import Stela.Check.Operation
import Stela.Check.Overload
import Stela.Check.Result
import Stela.Check.State
import Stela.Check.Transfer
import Stela.Check.TypeDecl
import Stela.Check.TypeRef
import Stela.Command.Arguments
import Stela.Command.Directory
import Stela.Command.Run
import Stela.Diagnostic
import Stela.Helper.Listing
import Stela.Helper.Name
import Stela.LogFilter
import Stela.Main
import Stela.Memory.Block
import Stela.Memory.Heap
import Stela.Modules.Order
import Stela.Scope
import Stela.Session
import Stela.Session.Check
import Stela.Session.Host
import Stela.Settings
import Stela.Source.Lines
import Stela.Source.Path
import Stela.Source.Span
import Stela.Syntax.Error
import Stela.Syntax.Grammar
import Stela.Syntax.Literal
import Stela.Syntax.Module
import Stela.Syntax.NodeMap
import Stela.Syntax.Parse
import Stela.Syntax.Paths
import Stela.Syntax.Tree
import Stela.Text.Alphanumeric
import Stela.Text.Blank
import Stela.Token.Kind
import Stela.Token.Lexer
import Stela.Token.Pattern
import Stela.Types.Equality
import Stela.Types.Layout
import Stela.Types.Lifetime
import Stela.Types.Symbol
import Stela.Types.Table
import Stela.Proofs.Helper.Listing
import Stela.Proofs.Types.Alias
import Stela.Proofs.Types.Bisimilarity
import Stela.Proofs.Types.Interchange
import Stela.Proofs.Session.Captures
import Stela.Proofs.Session.ControlFlow
import Stela.Proofs.Session.Deduction
import Stela.Proofs.Session.Placeholders
import Stela.Proofs.Modules.Exactness
import Stela.Proofs.Session.Importing
import Stela.Proofs.Session.Overloads
import Stela.Proofs.Session.Storage
import Stela.Proofs.Session.Settings
import Stela.Proofs.Session.Safety
import Stela.Proofs.Memory.Holding
import Stela.Proofs.Memory.References
import Stela.Proofs.Syntax.Accepting
import Stela.Proofs.Syntax.Rereading
import Stela.Proofs.Scopes.Visibility
import Stela.Proofs.Session.Diagnostics
import Stela.Proofs.Session.Coverage
import Stela.Proofs.Token.Partition
import Stela.Proofs.Token.Spacing
import Stela.Proofs.Helper.Decoding
import Stela.Proofs.Types.Layout
import Stela.Proofs.Memory.Growth
import Stela.Proofs.Syntax.Termination
import Stela.Proofs.Syntax.Nesting
import Stela.Proofs.Syntax.Forest
import Stela.Proofs.Syntax.Quotations
import Stela.Proofs.Session.Aliases
import Stela.Proofs.Session.Hosting
import Stela.Proofs.Check.Lookups
import Stela.Proofs.Session.Balance
import Stela.Proofs.Types.Interning
import Stela.Proofs.Source.Offsets
import Stela.Proofs.Session.Helpers
import Stela.Proofs.Types.Recursion
import Stela.Proofs.Session.Operators
import Stela.Proofs.Session.Literals
import Stela.Proofs.Session.Variables
