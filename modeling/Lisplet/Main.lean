import Lisplet.CommandLine

/-! The program: it reads its arguments and the environment, and answers on standard output. -/
namespace Lisplet
namespace Program

def readEnvironment : IO Environment := do
  let mut env : Environment := []
  for name in [Settings.promptVariable, Settings.quitVariable, Settings.levelVariable] do
    if let some value ← IO.getEnv name then env := (name, value) :: env
  return env

def writeLog (log : List LogRecord) : IO Unit := do
  for record in log do IO.eprint record.line

def failureText : Failure → String
  | .longNumeral digits => longNumeralMessage digits
  | .malformed what => what.message
  | .namelessLevel => namelessLevelMessage
  | _ => longIntegerMessage

/-- Writes an answer and tells whether the session goes on. -/
def writeAnswer (debug : Bool) (source : String) : IO Bool := do
  let reply := Session.answer .standard debug source.toList
  writeLog reply.log
  match reply.text with
  | .ok text =>
    IO.println text
    return true
  | .error why =>
    IO.eprintln (failureText why)
    return false

def withoutLineEnd (line : String) : String :=
  match line.toList.getLast? with
  | some '\n' => String.ofList line.toList.dropLast
  | _ => line

partial def converse (debug : Bool) (env : Environment) : IO UInt32 := do
  IO.print (Settings.prompt env)
  (← IO.getStdout).flush
  let line ← (← IO.getStdin).getLine
  if line.isEmpty then
    IO.println ""
    writeLog (LogRecord.finished.noted debug)
    return 0
  let line := withoutLineEnd line
  if Dialogue.quits (Settings.quitWord env) line then
    writeLog (LogRecord.finished.noted debug)
    return 0
  if ← writeAnswer debug line then converse debug env else return 1

def run (arguments : List String) : IO UInt32 := do
  let env ← readEnvironment
  match CommandLine.request arguments with
  | .misuse =>
    IO.eprint CommandLine.helpText
    return 2
  | .help =>
    IO.print CommandLine.helpText
    return 0
  | .version =>
    IO.print CommandLine.versionText
    return 0
  | .run expressions level =>
    match CommandLine.debugs level env with
    | .error why =>
      IO.eprintln (failureText why)
      return 1
    | .ok debug =>
      if expressions.isEmpty then return ← converse debug env
      for expression in expressions do
        if !(← writeAnswer debug expression) then return 1
      return 0

end Program
end Lisplet

def main (arguments : List String) : IO UInt32 := Lisplet.Program.run arguments
