import ExprLang.Number.Text
import ExprLang.Text.Json
import ExprLang.Text.Quoted

/-! # Tokens

A source is a sequence of tokens of six kinds.  `Token.display`, `Token.debug`
and `Token.json` are their three written forms. -/

namespace ExprLang

/-- The words that are no names. -/
inductive Keyword where
  | ifWord
  | thenWord
  | elseWord
  | defWord
  | trueWord
  | falseWord
deriving DecidableEq

namespace Keyword

/-- All keywords. -/
def all : List Keyword := [.ifWord, .thenWord, .elseWord, .defWord, .trueWord, .falseWord]

/-- The word as it stands in a source. -/
def text : Keyword → String
  | .ifWord => "if"
  | .thenWord => "then"
  | .elseWord => "else"
  | .defWord => "def"
  | .trueWord => "true"
  | .falseWord => "false"

/-- The word as a term. -/
def debug : Keyword → String
  | .ifWord => "If"
  | .thenWord => "Then"
  | .elseWord => "Else"
  | .defWord => "Def"
  | .trueWord => "True"
  | .falseWord => "False"

/-- The keyword that a word is. -/
def ofText? (word : String) : Option Keyword := all.find? (·.text = word)

end Keyword

/-- The kinds of tokens. -/
inductive TokenKind where
  | keyword
  | variable
  | number
  | string
  | operator
  | punctuation
deriving DecidableEq

namespace TokenKind

/-- All kinds. -/
def all : List TokenKind := [.keyword, .variable, .number, .string, .operator, .punctuation]

/-- The name of the kind. -/
def name : TokenKind → String
  | .keyword => "Keyword"
  | .variable => "Variable"
  | .number => "Number"
  | .string => "String"
  | .operator => "Operator"
  | .punctuation => "Punctuation"

/-- The kind with the given name. -/
def ofName? (name : String) : Option TokenKind := all.find? (·.name = name)

end TokenKind

/-- The smallest meaningful piece of a source. -/
inductive Token where
  | keyword (word : Keyword)
  | variable (name : String)
  | number (value : Number)
  /-- The characters meant, without the quotes and the escaping backslashes. -/
  | string (value : String)
  | operator (text : String)
  | punctuation (mark : Char)
deriving DecidableEq

namespace Token

/-- The kind of a token. -/
def kind : Token → TokenKind
  | .keyword _ => .keyword
  | .variable _ => .variable
  | .number _ => .number
  | .string _ => .string
  | .operator _ => .operator
  | .punctuation _ => .punctuation

/-- The token that a word is: a keyword if it is one, else the name of a variable. -/
def ofWord (word : String) : Token :=
  match Keyword.ofText? word with
  | some k => .keyword k
  | none => .variable word

/-- The token is the given punctuation mark. -/
def isPunctuation (t : Token) (mark : Char) : Bool := t = .punctuation mark

/-- The token is the given keyword. -/
def isKeyword (t : Token) (word : Keyword) : Bool := t = .keyword word

/-! ### Written forms -/

/-- The token for a reader; strings are quoted. -/
def display : Token → String
  | .keyword k => k.text
  | .variable name => name
  | .number x => x.display
  | .string s => quoteString s
  | .operator text => text
  | .punctuation c => c.toString

/-- Kind and token, as in a table of tokens. -/
def entry (t : Token) : String := s!"{t.kind.name} {t.display}"

/-- The token as a term. -/
def debug : Token → String
  | .keyword k => s!"Keyword({k.debug})"
  | .variable name => s!"Variable({quoteString name})"
  | .number x => s!"Number({x.debug})"
  | .string s => s!"String({quoteString s})"
  | .operator text => s!"Operator({quoteString text})"
  | .punctuation c => s!"Punctuation({quoteChar c})"

/-- The value of the token in JSON: a number is written as it is displayed, and everything else is
a string. -/
def jsonValue : Token → String
  | .keyword k => jsonString k.text
  | .variable name => jsonString name
  | .number x => x.display
  | .string s => jsonString s
  | .operator text => jsonString text
  | .punctuation c => jsonString c.toString

/-- The token as a JSON object of its kind and value. -/
def json (t : Token) : String :=
  "\x7b\"type\":\"" ++ t.kind.name ++ "\",\"value\":" ++ t.jsonValue ++ "\x7d"

end Token

end ExprLang
