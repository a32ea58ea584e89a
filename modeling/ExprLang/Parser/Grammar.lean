import ExprLang.Expr.Basic
import ExprLang.Parser.Step

/-! # The grammar of expressions

Functions that read the constructs of the language off the front of a list of
tokens; `ending` is the fault that the source has behind the last token, if it
has one.  Each decides by the next token alone.

An expression is a chain of operands with operators between them.  `operators`
takes those that bind more tightly than a bound, an operand and all that binds
to it on the right at a time.  A token that could go on with several open
constructs goes to the innermost one, because every construct takes what it can
before it ends. -/

namespace ExprLang.Grammar

variable (ending : Option LexicalFault)

/-! ### Single tokens -/

/-- A punctuation mark. -/
def mark (c : Char) : (ts : List Token) → Step Unit ts.length
  | [] => .atEnd ending (.expecting .punctuation c.toString)
  | t :: rest =>
    if t.isPunctuation c then .leaving () rest
    else .reject (.expecting .punctuation c.toString) (t :: rest)

/-- A keyword. -/
def word (k : Keyword) : (ts : List Token) → Step Unit ts.length
  | [] => .atEnd ending (.expecting .keyword k.text)
  | t :: rest =>
    if t.isKeyword k then .leaving () rest
    else .reject (.expecting .keyword k.text) (t :: rest)

/-- The name of a variable.  Any other token is used up. -/
def name : (ts : List Token) → Step String ts.length
  | [] => .atEnd ending .nonVariable
  | .variable x :: rest => .leaving x rest
  | t :: rest => .consume .nonVariable t rest

/-- A truth value.  Any other token is used up. -/
def boolean : (ts : List Token) → Step Expr ts.length
  | [] => .atEnd ending (.expecting .keyword Keyword.trueWord.text)
  | .keyword .trueWord :: rest => .leaving (.boolean true) rest
  | .keyword .falseWord :: rest => .leaving (.boolean false) rest
  | t :: rest => .consume (.expecting .keyword Keyword.trueWord.text) t rest

/-! ### Lists between marks -/

section Lists

variable {α : Type}

/-- What follows an item: the mark that stops the list, or a separator and more items.  A separator
may stand before the stop mark too. -/
def followItem (stop separator : Char) (a : α) (ts : List Token)
    (more : (r : List Token) → r.length < ts.length → Step (List α) r.length) :
    Step (List α) (ts.length + 1) :=
  match ts with
  | [] => .atEnd ending (.expecting .punctuation stop.toString)
  | t :: r =>
    if t.isPunctuation stop then
      (Step.leaving [a] r).loose
    else if t.isPunctuation separator then
      if r.head?.any (·.isPunctuation stop) then
        (Step.leaving [a] r.tail).weaken
          (by simp only [List.length_tail, List.length_cons]; omega)
      else
        ((more r (length_lt_cons t r)).map (a :: ·)).loose.loose
    else
      .reject (.expecting .punctuation separator.toString) (t :: r)

/-- One item or more, and the mark that stops them. -/
def items (stop separator : Char) (ts : List Token)
    (item : (r : List Token) → r.length ≤ ts.length → Step α r.length) : Step (List α) ts.length :=
  (item ts (Nat.le_refl _)).bind fun a r _ =>
    followItem ending stop separator a r fun r' _ =>
      items stop separator r' fun r'' _ => item r'' (by omega)
termination_by ts.length
decreasing_by omega

/-- Any number of items between two marks, with separators between them and perhaps one behind the
last. -/
def delimited (start stop separator : Char) (ts : List Token)
    (item : (r : List Token) → r.length < ts.length → Step α r.length) : Step (List α) ts.length :=
  (mark ending start ts).bind fun _ r _ =>
    match r with
    | [] => .atEnd ending (.expecting .punctuation stop.toString)
    | t :: r =>
      if t.isPunctuation stop then
        (Step.leaving [] r).loose
      else
        (items ending stop separator (t :: r) fun r' h =>
          item r' (by simp only [List.length_cons] at *; omega)).loose

end Lists

/-- The expression that a block with the given body is: an empty one is false, and a single
expression is itself. -/
def blockOf : List Expr → Expr
  | [] => .boolean false
  | [e] => e
  | es => .program es

/-! ### Expressions -/

mutual

/-- An expression. -/
def expression (ts : List Token) : Step Expr ts.length :=
  (atom ts).bind fun a r _ =>
    (operators a 0 r).bind fun e r _ =>
      calls e r
termination_by 4 * ts.length + 3
decreasing_by all_goals omega

/-- An operand: a bare one and all calls behind it. -/
def atom (ts : List Token) : Step Expr ts.length :=
  (bareAtom ts).bind fun a r _ => calls a r
termination_by 4 * ts.length + 2
decreasing_by all_goals omega

/-- An operand without the calls behind it.  A token that begins none is used up. -/
def bareAtom (ts : List Token) : Step Expr ts.length :=
  match ts with
  | [] => .atEnd ending (.unexpectedToken "null")
  | .number x :: rest => .leaving (.number x) rest
  | .string s :: rest => .leaving (.string s) rest
  | .variable x :: rest => .leaving (.variable x) rest
  | .punctuation '(' :: rest =>
    ((expression rest).bind fun e r _ => ((mark ending ')' r).map fun _ => e).loose).loose
  | .punctuation '\x7b' :: rest => block (.punctuation '\x7b' :: rest)
  | .keyword .ifWord :: rest => condition (.keyword .ifWord :: rest)
  | .keyword .trueWord :: rest => boolean ending (.keyword .trueWord :: rest)
  | .keyword .falseWord :: rest => boolean ending (.keyword .falseWord :: rest)
  | .keyword .defWord :: rest => (lambda rest).loose
  | t :: rest => .consume (.unexpectedToken t.json) t rest
termination_by 4 * ts.length + 1
decreasing_by all_goals simp only [List.length_cons] at *; omega

/-- Expressions in braces. -/
def block (ts : List Token) : Step Expr ts.length :=
  (delimited ending '\x7b' '\x7d' ';' ts fun r _ => expression r).map blockOf
termination_by 4 * ts.length
decreasing_by all_goals omega

/-- A condition with one or two branches. -/
def condition (ts : List Token) : Step Expr ts.length :=
  (word ending .ifWord ts).bind fun _ r _ =>
    ((expression r).bind fun test r _ =>
      ((branch r).bind fun consequent r _ =>
        (alternative r).map fun other => .condition test consequent other).loose).loose
termination_by 4 * ts.length
decreasing_by all_goals omega

/-- The first branch of a condition.  The word before it may be missing if the branch begins with a
brace. -/
def branch (ts : List Token) : Step Expr ts.length :=
  match ts with
  | .punctuation '\x7b' :: rest => expression (.punctuation '\x7b' :: rest)
  | ts => (word ending .thenWord ts).bind fun _ r _ => (expression r).loose
termination_by 4 * ts.length + 4
decreasing_by all_goals omega

/-- The second branch of a condition, if there is one. -/
def alternative (ts : List Token) : Step (Option Expr) (ts.length + 1) :=
  match ts with
  | [] => .done ending none
  | .keyword .elseWord :: rest => ((expression rest).map some).loose.loose
  | ts => .leaving none ts
termination_by 4 * ts.length
decreasing_by all_goals simp only [List.length_cons] at *; omega

/-- The parameters and the body of a function, the keyword before them being read already. -/
def lambda (ts : List Token) : Step Expr ts.length :=
  (delimited ending '(' ')' ',' ts fun r _ => name ending r).bind fun parameters r _ =>
    ((expression r).map fun body => .lambda parameters body).loose
termination_by 4 * ts.length
decreasing_by all_goals omega

/-- The arguments of one call of `function`. -/
def call (function : Expr) (ts : List Token) : Step Expr ts.length :=
  (delimited ending '(' ')' ',' ts fun r _ => expression r).map fun arguments =>
    .call function arguments
termination_by 4 * ts.length
decreasing_by all_goals omega

/-- All calls that follow `function` immediately. -/
def calls (function : Expr) (ts : List Token) : Step Expr (ts.length + 1) :=
  match ts with
  | [] => .done ending function
  | .punctuation '(' :: rest =>
    ((call function (.punctuation '(' :: rest)).bind fun e r _ => calls e r).loose
  | ts => .leaving function ts
termination_by 4 * ts.length + 1
decreasing_by all_goals simp only [List.length_cons] at *; omega

/-- Operators of a precedence above `bound` and their right operands, folded onto `left`. -/
def operators (left : Expr) (bound : Nat) (ts : List Token) : Step Expr (ts.length + 1) :=
  match ts with
  | [] => .done ending left
  | .operator text :: rest =>
    match Operator.ofText? text with
    | none => .leaving left (.operator text :: rest)
    | some op =>
      if op.precedence ≤ bound then
        .leaving left (.operator text :: rest)
      else
        ((atom rest).bind fun a r _ =>
          (operators a op.rightBound r).bind fun right r _ =>
            operators (op.apply left right) bound r).loose.loose
  | ts => .leaving left ts
termination_by 4 * ts.length
decreasing_by all_goals simp only [List.length_cons] at *; omega

end

/-- What follows an expression of a program: the end, or a separator and the rest of the program. -/
def followExpression (e : Expr) (ts : List Token)
    (more : (r : List Token) → r.length < ts.length → Step (List Expr) (r.length + 1)) :
    Step (List Expr) (ts.length + 1) :=
  match ts with
  | [] => .done ending [e]
  | t :: r =>
    if t.isPunctuation ';' then
      ((more r (length_lt_cons t r)).map (e :: ·)).loose
    else
      .reject (.expecting .punctuation ";") (t :: r)

/-- A whole program: expressions up to the end, with separators between them and perhaps one behind
the last. -/
def program (ts : List Token) : Step (List Expr) (ts.length + 1) :=
  match ts with
  | [] => .done ending []
  | t :: ts =>
    ((expression ending (t :: ts)).bind fun e r _ =>
      followExpression ending e r fun r' _ => program r').loose
termination_by ts.length
decreasing_by omega

end ExprLang.Grammar
