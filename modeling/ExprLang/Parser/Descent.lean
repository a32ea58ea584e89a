import ExprLang.Parser.Grammar
import ExprLang.Token.Lexer

/-! # Recursive descent over a lexer

`Parser` reads sources that have been cut into tokens beforehand.  A `Descent` reads the same
constructs off a lexer, which hands out one token at a time and can look one ahead: every decision
is a request to the lexer, and every error is where the lexer stands.

Nothing in the way it asks makes a descent end, so each call and each round of a loop goes one level
deeper and there is a bound on how deep it may go. -/

namespace ExprLang

/-- A computation that asks a lexer.  It has no answer if it goes deeper than it was allowed to. -/
def Descent (α : Type) : Type := Lexer → Option (Except SyntaxError α × Lexer)

namespace Descent

variable {α β : Type}

/-! ### Asking -/

/-- Goes on with the value, if there is one, and with the lexer as it was left. -/
def bind (d : Descent α) (next : α → Descent β) : Descent β := fun l =>
  match d l with
  | some (.ok a, l) => next a l
  | some (.error e, l) => some (.error e, l)
  | none => none

instance : Monad Descent where
  pure a := fun l => some (.ok a, l)
  bind := Descent.bind

/-- It would have to go deeper than it was allowed to. -/
def unfinished : Descent α := fun _ => none

/-- A fault that shows where the lexer stands. -/
def fail (fault : SyntaxFault) : Descent α := fun l => some (.error ⟨fault, l.location⟩, l)

/-- The answer of the lexer to a request.  An error of the lexer is one of the descent. -/
def ask (request : Lexer → Except LexicalError α × Lexer) : Descent α := fun l =>
  match request l with
  | (.ok a, l) => some (.ok a, l)
  | (.error e, l) => some (.error ⟨.lexical e.fault, e.location⟩, l)

/-- The next token, which stays where it is. -/
def peek : Descent (Option Token) := ask Lexer.peek

/-- The next token, which is used up. -/
def nextToken : Descent (Option Token) := ask Lexer.nextToken

/-- There is no next token. -/
def isAtEnd : Descent Bool := ask Lexer.isAtEnd

/-- The next token is the given punctuation mark. -/
def isMark (c : Char) : Descent Bool := return (← peek).any (·.isPunctuation c)

/-- The next token is the given keyword. -/
def isWord (k : Keyword) : Descent Bool := return (← peek).any (·.isKeyword k)

/-- The operator that a token is. -/
def operatorOf? : Token → Option Operator
  | .operator text => Operator.ofText? text
  | _ => none

/-- The operator that is the next token. -/
def operatorAhead : Descent (Option Operator) := return (← peek).bind operatorOf?

/-! ### Single tokens -/

/-- A token of a kind, which is the next one or is missing. -/
def expect (isNext : Descent Bool) (missing : SyntaxFault) : Descent Unit := do
  if ← isNext then
    let _ ← nextToken
    return ()
  else
    fail missing

/-- A punctuation mark. -/
def mark (c : Char) : Descent Unit := expect (isMark c) (.expecting .punctuation c.toString)

/-- A keyword. -/
def word (k : Keyword) : Descent Unit := expect (isWord k) (.expecting .keyword k.text)

/-- The keyword before the first branch of a condition, which may be missing before a brace. -/
def thenWord : Descent Unit := do
  if ← isMark '\x7b' then return () else word .thenWord

/-- The separator behind an expression of a program, which may be missing at the end. -/
def separator : Descent Unit := do
  if ← isAtEnd then return () else mark ';'

/-- The name of a variable. -/
def name : Descent String := do
  match ← nextToken with
  | some (.variable x) => return x
  | _ => fail .nonVariable

/-- A truth value. -/
def boolean : Descent Expr := do
  match ← nextToken with
  | some (.keyword .trueWord) => return .boolean true
  | some (.keyword .falseWord) => return .boolean false
  | _ => fail (.expecting .keyword Keyword.trueWord.text)

/-! ### Lists between marks -/

/-- The separator before an item, which is missing before the first. -/
def between (separator : Char) (first : Bool) : Descent Unit :=
  if first then return () else mark separator

/-- The items of a list up to the mark that stops it. -/
def items (stop separator : Char) (item : Descent α) : (depth : Nat) → (first : Bool) →
    Descent (List α)
  | 0, _ => unfinished
  | depth + 1, first => do
    if ← isAtEnd then return []
    if ← isMark stop then return []
    between separator first
    if ← isMark stop then return []
    let a ← item
    let as ← items stop separator item depth false
    return a :: as

/-- Any number of items between two marks. -/
def delimited (depth : Nat) (start stop separator : Char) (item : Descent α) :
    Descent (List α) := do
  mark start
  let as ← items stop separator item depth true
  mark stop
  return as

/-! ### Expressions -/

section Expressions

-- An expression may look for calls once more behind its operators.
variable (again : Bool)

mutual

/-- An expression. -/
def expression : (depth : Nat) → Descent Expr
  | 0 => unfinished
  | depth + 1 => do
    let a ← atom depth
    let e ← operators depth a 0
    if again then calls depth e else return e

/-- An operand: a bare one and all calls behind it. -/
def atom : (depth : Nat) → Descent Expr
  | 0 => unfinished
  | depth + 1 => do
    let a ← bareAtom depth
    calls depth a

/-- An operand without the calls behind it. -/
def bareAtom : (depth : Nat) → Descent Expr
  | 0 => unfinished
  | depth + 1 => do
    match ← peek with
    | some (.punctuation '(') =>
      let _ ← nextToken
      let e ← expression depth
      mark ')'
      return e
    | some (.punctuation '\x7b') => block depth
    | some (.keyword .ifWord) => condition depth
    | some (.keyword .trueWord) => boolean
    | some (.keyword .falseWord) => boolean
    | some (.keyword .defWord) =>
      let _ ← nextToken
      lambda depth
    | some (.number x) =>
      let _ ← nextToken
      return .number x
    | some (.string s) =>
      let _ ← nextToken
      return .string s
    | some (.variable x) =>
      let _ ← nextToken
      return .variable x
    | some t =>
      let _ ← nextToken
      fail (.unexpectedToken t.json)
    | none => fail (.unexpectedToken "null")

/-- Expressions in braces. -/
def block : (depth : Nat) → Descent Expr
  | 0 => unfinished
  | depth + 1 => do
    let es ← delimited depth '\x7b' '\x7d' ';' (expression depth)
    return Grammar.blockOf es

/-- A condition with one or two branches. -/
def condition : (depth : Nat) → Descent Expr
  | 0 => unfinished
  | depth + 1 => do
    word .ifWord
    let test ← expression depth
    thenWord
    let consequent ← expression depth
    if ← isWord .elseWord then
      let _ ← nextToken
      let other ← expression depth
      return .condition test consequent (some other)
    else
      return .condition test consequent none

/-- The parameters and the body of a function, the keyword before them being read already. -/
def lambda : (depth : Nat) → Descent Expr
  | 0 => unfinished
  | depth + 1 => do
    let parameters ← delimited depth '(' ')' ',' name
    let body ← expression depth
    return .lambda parameters body

/-- The arguments of one call of `function`. -/
def call : (depth : Nat) → (function : Expr) → Descent Expr
  | 0, _ => unfinished
  | depth + 1, function => do
    let arguments ← delimited depth '(' ')' ',' (expression depth)
    return .call function arguments

/-- All calls that follow `function` immediately. -/
def calls : (depth : Nat) → (function : Expr) → Descent Expr
  | 0, _ => unfinished
  | depth + 1, function => do
    if ← isMark '(' then
      let function ← call depth function
      calls depth function
    else
      return function

/-- Operators of a precedence above `bound` and their right operands, folded onto `left`. -/
def operators : (depth : Nat) → (left : Expr) → (bound : Nat) → Descent Expr
  | 0, _, _ => unfinished
  | depth + 1, left, bound => do
    match ← operatorAhead with
    | none => return left
    | some op =>
      if op.precedence ≤ bound then
        return left
      else
        let _ ← nextToken
        let a ← atom depth
        let right ← operators depth a op.rightBound
        operators depth (op.apply left right) bound

end

/-- Expressions up to the end, with separators between them and perhaps one behind the last. -/
def expressions : (depth : Nat) → Descent (List Expr)
  | 0 => unfinished
  | depth + 1 => do
    if ← isAtEnd then return []
    let e ← expression again depth
    separator
    let es ← expressions depth
    return e :: es

/-- A whole program, up to the end of the source. -/
def program (depth : Nat) : Descent Expr := return .program (← expressions again depth)

end Expressions

end Descent

end ExprLang
