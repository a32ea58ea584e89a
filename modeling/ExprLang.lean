import ExprLang.Main
import ExprLang.Parser.Lemmas
import ExprLang.Proofs.Aliasing
import ExprLang.Proofs.Blocks
import ExprLang.Proofs.EarliestError
import ExprLang.Proofs.Forest
import ExprLang.Proofs.Identity
import ExprLang.Proofs.Insertion
import ExprLang.Proofs.Interference
import ExprLang.Proofs.Invocations
import ExprLang.Proofs.LexicalScope
import ExprLang.Proofs.Locations
import ExprLang.Proofs.Parameters
import ExprLang.Proofs.Precedence
import ExprLang.Proofs.Purity
import ExprLang.Proofs.Sexpr
import ExprLang.Proofs.Undefined
import ExprLang.Proofs.Writing
import ExprLang.Proofs.Calls
import ExprLang.Proofs.Comparison
import ExprLang.Proofs.Json
import ExprLang.Proofs.NumberJson
