import ExprLang.Eval.Run
import ExprLang.Expr.Outline
import ExprLang.Report.Basic

/-! # Commands

A `Command` does one of three things with a source: it lists its tokens, shows
the tree of its program, or runs it.  `Command.run` gives what is written to the
two output streams and the exit code. -/

namespace ExprLang

/-- How tokens are listed. -/
inductive TokenFormat where
  | basic
  | debug

/-- How a tree is shown. -/
inductive ExprFormat where
  | sexpr
  | debug

/-- How a value is shown. -/
inductive ValueFormat where
  | basic
  | debug

/-- What to do with a source. -/
inductive Command where
  | tokenize (format : TokenFormat)
  | parse (format : ExprFormat)
  | evaluate (format : ValueFormat)

/-- What a command leaves behind. -/
structure CommandResult where
  exitCode : Nat
  stdout : String
  stderr : String

/-- A token as the format has it. -/
def TokenFormat.show : TokenFormat → Token → String
  | .basic => Token.entry
  | .debug => Token.debug

/-- A tree as the format has it. -/
def ExprFormat.show : ExprFormat → Expr → String
  | .sexpr => Expr.sexpr
  | .debug => Expr.debug

/-- A value as the format has it. -/
def ValueFormat.show : ValueFormat → Value → String
  | .basic => Value.display
  | .debug => Value.debug

namespace CommandResult

/-- Everything went well. -/
def success (stdout : String) : CommandResult := ⟨0, stdout, ""⟩

/-- The source is at fault. -/
def failure (stdout : String) (r : Report) (path source : String) : CommandResult :=
  ⟨65, stdout, r.render path source ++ "\n"⟩

end CommandResult

namespace Command

/-- The command with the given name; without a format it has the first one. -/
def ofNames? (routine : String) (format : Option String) : Option Command :=
  match routine, format with
  | "tokenize", none | "tokenize", some "basic" => some (.tokenize .basic)
  | "tokenize", some "debug" => some (.tokenize .debug)
  | "parse", none | "parse", some "sexpr" => some (.parse .sexpr)
  | "parse", some "debug" => some (.parse .debug)
  | "evaluate", none | "evaluate", some "basic" => some (.evaluate .basic)
  | "evaluate", some "debug" => some (.evaluate .debug)
  | _, _ => none

/-- Does what the command says with a source that was read from `path`. -/
def run (command : Command) (path source : String) : CommandResult :=
  match command with
  | .tokenize format =>
    let lexed := Lexed.ofSource source
    let stdout := String.join (lexed.tokens.map (format.show · ++ "\n"))
    match lexed.error? with
    | none => .success stdout
    | some e => .failure stdout e.report path source
  | .parse format =>
    match Expr.ofSource source with
    | .ok program => .success (format.show program ++ "\n")
    | .error e => .failure "" e.report path source
  | .evaluate format =>
    let (s, σ) := Store.empty.root
    match (σ.run s source).1 with
    | .ok v => .success (format.show v ++ "\n")
    | .error (.source e) => .failure "" e.report path source
    | .error (.evaluation e) => .failure "" e.report path source
    | .error .unfinished => ⟨70, "", "The evaluation goes too deep\n"⟩

end Command

end ExprLang
