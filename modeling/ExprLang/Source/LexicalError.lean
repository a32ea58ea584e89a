import ExprLang.Source.Location
import ExprLang.Text.Quoted

/-! # Lexical errors

What can be wrong with the characters of a source, whatever its tokens mean. -/

namespace ExprLang

/-- A cause of a lexical error. -/
inductive LexicalFault where
  /-- No token begins with this character. -/
  | unexpected (c : Char)
  /-- The text looks like a number and denotes none. -/
  | invalidNumber (text : String)
deriving DecidableEq

namespace LexicalFault

/-- The code under which the cause is documented. -/
def code : LexicalFault → String
  | .unexpected _ => "LX001"
  | .invalidNumber _ => "LX002"

/-- The cause in words. -/
def message : LexicalFault → String
  | .unexpected c => s!"Unexpected character: {c}"
  | .invalidNumber text => s!"Invalid number literal: {text}"

/-- The cause as a term. -/
def debug : LexicalFault → String
  | .unexpected c => s!"Unexpected({quoteChar c})"
  | .invalidNumber text => s!"InvalidNumber({quoteString text})"

end LexicalFault

/-- A lexical fault and where it was noticed. -/
structure LexicalError where
  fault : LexicalFault
  location : Location
deriving DecidableEq

namespace LexicalError

/-- The error in words. -/
def message (e : LexicalError) : String := s!"{e.fault.message} ({e.location.display})"

/-- The error as a term. -/
def debug (e : LexicalError) : String :=
  s!"LexicalError \x7b kind: {e.fault.debug}, location: {e.location.debug} \x7d"

end LexicalError

end ExprLang
