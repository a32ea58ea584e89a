import ExprLang.Command

/-! # The command line

`exprlang (tokenize | parse | evaluate) FILE [--format FORMAT]` -/

namespace ExprLang

/-- The command and the file that the arguments name; the format may stand anywhere. -/
def readArguments (arguments : List String) : Option (Command × String) :=
  match arguments with
  | [routine, path] => (Command.ofNames? routine none).map (·, path)
  | [routine, path, "--format", format] => (Command.ofNames? routine (some format)).map (·, path)
  | [routine, "--format", format, path] => (Command.ofNames? routine (some format)).map (·, path)
  | _ => none

/-- How the program is called. -/
def usage : String := "Usage: exprlang (tokenize | parse | evaluate) FILE [--format FORMAT]"

end ExprLang

open ExprLang in
def main (arguments : List String) : IO UInt32 := do
  match readArguments arguments with
  | none =>
    IO.eprintln usage
    return 2
  | some (command, path) =>
    let result := command.run path (← IO.FS.readFile path)
    IO.print result.stdout
    IO.eprint result.stderr
    return result.exitCode.toUInt32
