import ExprLang.Source.LexicalError
import ExprLang.Token.Basic

/-! # Syntax errors

What can be wrong with a sequence of tokens, or with the text behind it. -/

namespace ExprLang

/-- A cause of a syntax error. -/
inductive SyntaxFault where
  /-- Another token had to stand there. -/
  | expecting (kind : TokenKind) (text : String)
  /-- The name of a variable had to stand there. -/
  | nonVariable
  /-- No expression begins with this token, given in JSON; `null` is the end of the source. -/
  | unexpectedToken (json : String)
  /-- The source has no further token. -/
  | lexical (fault : LexicalFault)
deriving DecidableEq

namespace SyntaxFault

/-- The code under which the cause is documented. -/
def code : SyntaxFault → String
  | .expecting _ _ => "PR001"
  | .nonVariable => "PR002"
  | .unexpectedToken _ => "PR003"
  | .lexical fault => fault.code

/-- The cause in words. -/
def message : SyntaxFault → String
  | .expecting kind text => s!"Expecting {kind.name}: \"{text}\""
  | .nonVariable => "Expecting variable name"
  | .unexpectedToken json => s!"Unexpected token: {json}"
  | .lexical fault => fault.message

/-- The cause as a term. -/
def debug : SyntaxFault → String
  | .expecting kind text => s!"Expecting \x7b kind: {kind.name}, value: {quoteString text} \x7d"
  | .nonVariable => "NonVariable"
  | .unexpectedToken json => s!"UnexpectedToken({quoteString json})"
  | .lexical fault => s!"Lexical({fault.debug})"

end SyntaxFault

/-- A syntax fault and where it was noticed: behind the offending token, or at the end. -/
structure SyntaxError where
  fault : SyntaxFault
  location : Location
deriving DecidableEq

namespace SyntaxError

/-- The error in words. -/
def message (e : SyntaxError) : String := s!"{e.fault.message} ({e.location.display})"

/-- The error as a term. -/
def debug (e : SyntaxError) : String :=
  s!"ParserError \x7b kind: {e.fault.debug}, location: {e.location.debug} \x7d"

end SyntaxError

end ExprLang
