import ExprLang.Parser.Grammar
import ExprLang.Token.Lexed

/-! # Parsers

A `Parser` reads constructs off a source one after another.  Each call takes up
where the last one ended, also where that failed.  `Expr.ofSource` reads a whole
program.

The grammar sees tokens without locations.  A location is looked up only for an
error: it is where the offending token stops, or where the source ends. -/

namespace ExprLang

/-- A source that is being read construct by construct. -/
structure Parser where
  lexed : Lexed
  /-- The tokens that have not been used. -/
  unread : List Lexeme

namespace Parser

/-- A parser at the beginning of a source. -/
def ofSource (source : String) : Parser :=
  let lexed := Lexed.ofSource source
  ⟨lexed, lexed.lexemes⟩

/-- The whole text. -/
def source (p : Parser) : String := p.lexed.source

/-- The unread tokens without their locations. -/
def tokens (p : Parser) : List Token := p.unread.map (·.token)

/-- The last unread tokens, as many as there are in `rest`. -/
def lexemesOf (p : Parser) (rest : List Token) : List Lexeme :=
  p.unread.drop (p.unread.length - rest.length)

/-- The end of the first of the last unread tokens, or that of the source. -/
def stopOf (p : Parser) (rest : List Token) : Location :=
  match p.lexemesOf rest with
  | l :: _ => l.stop
  | [] => p.lexed.ending

/-- The answer to a call and the parser behind it. -/
def settle {α : Type} {n : Nat} (p : Parser) : Step α n → Except SyntaxError α × Parser
  | .ok a rest _ => (.ok a, { p with unread := p.lexemesOf rest })
  | .fail f => (.error ⟨f.fault, p.stopOf f.offending⟩, { p with unread := p.lexemesOf f.rest })

/-! ### The constructs -/

/-- A whole program, up to the end of the source. -/
def program (p : Parser) : Except SyntaxError Expr × Parser :=
  p.settle ((Grammar.program p.lexed.fault p.tokens).map .program)

/-- An expression. -/
def expression (p : Parser) : Except SyntaxError Expr × Parser :=
  p.settle (Grammar.expression p.lexed.fault p.tokens)

/-- An operand with the calls behind it. -/
def atom (p : Parser) : Except SyntaxError Expr × Parser :=
  p.settle (Grammar.atom p.lexed.fault p.tokens)

/-- A block in braces. -/
def block (p : Parser) : Except SyntaxError Expr × Parser :=
  p.settle (Grammar.block p.lexed.fault p.tokens)

/-- A condition. -/
def condition (p : Parser) : Except SyntaxError Expr × Parser :=
  p.settle (Grammar.condition p.lexed.fault p.tokens)

/-- A truth value. -/
def boolean (p : Parser) : Except SyntaxError Expr × Parser :=
  p.settle (Grammar.boolean p.lexed.fault p.tokens)

/-- The parameters and the body of a function. -/
def lambda (p : Parser) : Except SyntaxError Expr × Parser :=
  p.settle (Grammar.lambda p.lexed.fault p.tokens)

/-- The name of a variable. -/
def name (p : Parser) : Except SyntaxError String × Parser :=
  p.settle (Grammar.name p.lexed.fault p.tokens)

/-- The arguments of a call of `function`. -/
def call (p : Parser) (function : Expr) : Except SyntaxError Expr × Parser :=
  p.settle (Grammar.call p.lexed.fault function p.tokens)

/-- Items between two marks. -/
def delimited {α : Type} (p : Parser) (start stop separator : Char)
    (item : Option LexicalFault → (ts : List Token) → Step α ts.length) :
    Except SyntaxError (List α) × Parser :=
  p.settle <| Grammar.delimited p.lexed.fault start stop separator p.tokens fun r _ =>
    item p.lexed.fault r

end Parser

/-- The program that a source holds. -/
def Expr.ofSource (source : String) : Except SyntaxError Expr := (Parser.ofSource source).program.1

end ExprLang
