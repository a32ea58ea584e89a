import ExprLang.Expr.Basic

/-! # Outlines

An `Outline` is a term that is written over several lines: what is inside a
bracket is indented by four blanks, and every item stands on a line of its own
with a comma behind it.  `Expr.outline` is the outline of an expression, with
the names of all its parts, and `Expr.debug` writes it. -/

namespace ExprLang

mutual

/-- A term to be written over several lines. -/
inductive Outline where
  /-- A term on a single line. -/
  | atom (text : String)
  /-- A term whose items stand between `opening` and `closing`. -/
  | group (opening : String) (items : Outlines) (closing : String)

/-- Items of a term, each with a label before it. -/
inductive Outlines where
  | nil
  | cons (label : String) (item : Outline) (rest : Outlines)

end

/-- The beginning of a line that is `level` brackets deep. -/
def indentation (level : Nat) : String := String.ofList (List.replicate (4 * level) ' ')

mutual

/-- The text of a term that is `level` brackets deep. -/
def Outline.render (level : Nat) : Outline → String
  | .atom text => text
  | .group opening .nil closing => opening ++ closing
  | .group opening items closing =>
    opening ++ "\n" ++ items.render (level + 1) ++ indentation level ++ closing

/-- The lines of items that are `level` brackets deep. -/
def Outlines.render (level : Nat) : Outlines → String
  | .nil => ""
  | .cons label item rest =>
    indentation level ++ label ++ item.render level ++ ",\n" ++ rest.render level

end

namespace Outline

/-- A term with one nameless part. -/
def wrap (name : String) (item : Outline) : Outline :=
  .group (name ++ "(") (.cons "" item .nil) ")"

/-- A term with named parts. -/
def record (name : String) (fields : List (String × Outline)) : Outline :=
  .group (name ++ " \x7b")
    (fields.foldr (fun (label, item) rest => .cons (label ++ ": ") item rest) .nil) "\x7d"

/-- Items in order. -/
def list (items : Outlines) : Outline := .group "[" items "]"

/-- Strings in order, quoted. -/
def strings (ss : List String) : Outline :=
  .list (ss.foldr (fun s rest => .cons "" (.atom (quoteString s)) rest) .nil)

end Outline

namespace Expr

mutual

/-- The outline of a tree. -/
def outline : Expr → Outline
  | .number x => .wrap "Number" (.atom x.debug)
  | .string s => .wrap "String" (.atom (quoteString s))
  | .boolean b => .wrap "Boolean" (.atom (toString b))
  | .variable name => .wrap "Variable" (.atom (quoteString name))
  | .lambda parameters body =>
    .wrap "Lambda" (.record "Lambda" [("parameters", .strings parameters), ("body", body.outline)])
  | .call function arguments =>
    .record "Call" [("function", function.outline), ("arguments", .list (outlines arguments))]
  | .condition test consequent alternative =>
    .record "Condition" [("condition", test.outline), ("then", consequent.outline),
      ("otherwise", outline? alternative)]
  | .assignment target value =>
    .record "Assignment" [("lhs", target.outline), ("rhs", value.outline)]
  | .binary op left right =>
    .record "Binary" [("operator", .atom op.debug), ("lhs", left.outline), ("rhs", right.outline)]
  | .program body => .wrap "Program" (.list (outlines body))

/-- The outline of a part that may be missing. -/
def outline? : Option Expr → Outline
  | none => .atom "None"
  | some e => .wrap "Some" e.outline

/-- The outlines of trees in order. -/
def outlines : List Expr → Outlines
  | [] => .nil
  | e :: es => .cons "" e.outline (outlines es)

end

/-- The outline of the tree as text. -/
def debug (e : Expr) : String := e.outline.render 0

end Expr

end ExprLang
