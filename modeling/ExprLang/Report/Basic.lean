import ExprLang.Parser.Error
import ExprLang.Report.Spot
import ExprLang.Value.Error

/-! # Reports

A `Report` shows an error to a user: its code and title, the line of the source
that it is about, a mark under the character and the message behind the mark.
`Report.render` sets it out in colour. -/

namespace ExprLang

/-- An error, told to a user. -/
structure Report where
  code : String
  title : String
  message : String
  /-- Bytes of the source before the place the report points at. -/
  offset : Nat

namespace LexicalError

/-- The report on a lexical error. -/
def report (e : LexicalError) : Report :=
  ⟨e.fault.code, "Unrecognised input", e.fault.message, e.location.offset⟩

end LexicalError

namespace SyntaxError

/-- The report on a syntax error. -/
def report (e : SyntaxError) : Report :=
  ⟨e.fault.code, "Failed to parse program", e.fault.message, e.location.offset⟩

end SyntaxError

namespace EvalError

/-- The report on a failed evaluation.  It has no place and points at the beginning. -/
def report (e : EvalError) : Report :=
  ⟨e.code, "Failed to evaluate program", e.verbose, 0⟩

end EvalError

/-- The colours of a report, by their codes. -/
inductive Paint where
  | heading
  | frame
  | gutter
  | plain
  | mark

namespace Paint

/-- The code of the colour. -/
def code : Paint → String
  | .heading => "31"
  | .frame => "38;5;246"
  | .gutter => "38;5;240"
  | .plain => "38;5;249"
  | .mark => "91"

/-- The text in colour. -/
def on (p : Paint) (text : String) : String := "\x1b[" ++ p.code ++ "m" ++ text ++ "\x1b[0m"

end Paint

/-- The given number of blanks. -/
def blanks (n : Nat) : String := String.ofList (List.replicate n ' ')

/-- The text as often as given. -/
def times (n : Nat) (text : String) : String := String.join (List.replicate n text)

namespace Spot

/-- Columns between the edge of the report and its frame, a blank on either side not counted. -/
def margin (s : Spot) : Nat := (toString s.number).length

/-- The line of the source, character by character, the one in question in the colour of the
mark. -/
def sourceLine (s : Spot) : String :=
  String.join <| s.text.mapIdx fun i c =>
    let paint := if s.isCharacter ∧ i = s.column then Paint.mark else Paint.plain
    if isWhiteSpace c then times (s.width i) (paint.on " ") else paint.on c.toString

/-- Indices that the lines below the source reach to: up to the spot and two more. -/
def reach (s : Spot) : List Nat := List.range (s.column + (if s.isCharacter then 1 else 0) + 2)

/-- A mark as wide as the spot: `head` and then `tail` in every further column. -/
def marked (s : Spot) (head tail : String) : String :=
  match s.width s.column with
  | 0 => ""
  | w + 1 => Paint.mark.on head ++ times w (Paint.mark.on tail)

/-- The line with the mark under the spot. -/
def markLine (s : Spot) : String :=
  String.join <| s.reach.map fun i =>
    if i = s.column then
      if s.isCharacter then s.marked "┬" "─" else s.marked "│" " "
    else
      blanks (s.width i)

/-- The line that leads from the mark to the message. -/
def arrowLine (s : Spot) : String :=
  String.join <| s.reach.map fun i =>
    if i < s.column then blanks (s.width i)
    else if i = s.column then s.marked "╰" "─"
    else times (s.width i) (Paint.mark.on "─")

end Spot

/-- The report on a source that was read from `path`. -/
def Report.render (r : Report) (path source : String) : String :=
  let spot := Spot.find source (.find source r.offset)
  let frame := Paint.frame.on
  let edge := blanks (spot.margin + 2)
  let gutter := " " ++ Paint.gutter.on (blanks (spot.margin + 1) ++ "│") ++ " "
  String.join <| List.map (· ++ "\n") [
    Paint.heading.on s!"[{r.code}] Error:" ++ " " ++ r.title,
    edge ++ frame "╭" ++ frame "─" ++ frame "[" ++
      s!" {path}:{spot.number}:{spot.column + 1} " ++ frame "]",
    edge ++ frame "│",
    " " ++ frame s!"{spot.number} │" ++ " " ++ spot.sourceLine,
    gutter ++ spot.markLine,
    gutter ++ spot.arrowLine ++ " " ++ r.message,
    frame (times (spot.margin + 2) "─" ++ "╯")]

end ExprLang
