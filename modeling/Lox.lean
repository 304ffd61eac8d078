import Lox.Main
import Lox.Proofs.Grammar.Balance
import Lox.Proofs.Grammar.ErrorOrder
import Lox.Proofs.Grammar.Nesting
import Lox.Proofs.Grammar.Operators
import Lox.Proofs.Grammar.Programs
import Lox.Proofs.Grammar.Progress
import Lox.Proofs.Grammar.Recovery
import Lox.Proofs.Lexical.Loops
import Lox.Proofs.Machine.Access
import Lox.Proofs.Machine.Appending
import Lox.Proofs.Machine.Calls
import Lox.Proofs.Machine.Confinement
import Lox.Proofs.Machine.Fuel
import Lox.Proofs.Machine.Impossible
import Lox.Proofs.Machine.Loopless
import Lox.Proofs.Machine.Operations
import Lox.Proofs.Machine.Truncation
import Lox.Proofs.Number.Nearest
import Lox.Proofs.Number.Printing
import Lox.Proofs.Renaming.Sessions
import Lox.Proofs.Repl.Conversation
import Lox.Proofs.Scope.Agreement
import Lox.Proofs.Scope.Diagnostics
import Lox.Proofs.Scope.Identities
import Lox.Proofs.Scope.Returns
import Lox.Proofs.Syntax.Readability
import Lox.Proofs.Text.Encoding
import Lox.Proofs.Token.Coverage
import Lox.Proofs.Token.Cutting
import Lox.Proofs.Token.Longest
import Lox.Proofs.Token.Separation
import Lox.Proofs.Token.Stepwise
import Lox.Proofs.Twins.Joined
import Lox.Proofs.Values.Order
