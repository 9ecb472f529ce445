import PipeExpr.CommandLine.Answer
import PipeExpr.Main
import PipeExpr.Proofs.Grammar.Words
import PipeExpr.Proofs.Grammar.Signature
import PipeExpr.Proofs.Registry.Built
import PipeExpr.Proofs.Lexer.Context
import PipeExpr.Proofs.Parser.Language
import PipeExpr.Proofs.Parser.SharedSymbols
import PipeExpr.Proofs.Render.RoundTrip
import PipeExpr.Proofs.Expr.Foresight
import PipeExpr.Proofs.Session.Cache
import PipeExpr.Proofs.Session.Validation
import PipeExpr.Proofs.Expr.Levels
import PipeExpr.Proofs.Expr.Parts
import PipeExpr.Proofs.Expr.Calls
import PipeExpr.Proofs.Expr.Path
import PipeExpr.Proofs.Expr.Visits
import PipeExpr.Proofs.Expr.Subjects
import PipeExpr.Proofs.Form.Lookups
import PipeExpr.Proofs.Workflow.Routes
import PipeExpr.Proofs.Parser.Precedence
import PipeExpr.Proofs.Expr.Limits
import PipeExpr.Proofs.Parser.Limits
import PipeExpr.Proofs.Session.Limits
import PipeExpr.Proofs.Parser.Height
import PipeExpr.Proofs.Registry.Represented
import PipeExpr.Proofs.Session.History
import PipeExpr.Proofs.Phrase.Names
import PipeExpr.Proofs.Parser.Names
import PipeExpr.Proofs.Lexer.Places
import PipeExpr.Proofs.Parser.SharedOperators
import PipeExpr.Proofs.Registry.Usable
import PipeExpr.Proofs.Registry.Unaffected
import PipeExpr.Proofs.Expr.Extraction
import PipeExpr.Proofs.Registry.LongestMatch
import PipeExpr.Proofs.Expr.Preorder
import PipeExpr.Proofs.Expr.Steps
import PipeExpr.Proofs.Expr.Identifiers
import PipeExpr.Proofs.Expr.Surroundings
import PipeExpr.Proofs.Expr.Folding
import PipeExpr.Proofs.Lexer.Quoted
import PipeExpr.Proofs.Render.JsonText
import PipeExpr.Proofs.Session.Findings
import PipeExpr.Proofs.Parser.Located
import PipeExpr.Proofs.Lexer.Progress
import PipeExpr.Proofs.Lexer.Names
import PipeExpr.Proofs.Parser.Respacing
import PipeExpr.Proofs.Parser.WellFormed
import PipeExpr.Proofs.Form.Traversal
import PipeExpr.Proofs.Form.Construction
import PipeExpr.Proofs.Form.SourceOrder
import PipeExpr.Proofs.Parser.Balance
