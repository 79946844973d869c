import Lisplet.Reading
import Lisplet.Evaluation

/-! Sessions: a source text is answered with a text, the value of its first expression or what is
wrong with it, and with the records that a log at debug level gets. A dialogue is a prompt, a line
and an answer, until the quit word or the end of the lines; its settings are taken from the
environment. -/
namespace Lisplet

abbrev Environment := List (String × String)

namespace Settings

def promptVariable : String := "MINISCHEME_PROMPT"

def quitVariable : String := "MINISCHEME_QUIT"

def levelVariable : String := "MINISCHEME_LOG_LEVEL"

def setting (env : Environment) (name : String) (standard : String) : String :=
  match env.lookup name with
  | some value => if (trim value.toList).isEmpty then standard else value
  | none => standard

def prompt (env : Environment) : String := setting env promptVariable "Lisp>>> "

def quitWord (env : Environment) : String := strip (setting env quitVariable "quit")

/-- Characters beyond ASCII whose capitals are ASCII letters. -/
def capitals : List (Char × List Char) :=
  [('ß', ['S', 'S']), ('ı', ['I']), ('ſ', ['S']), ('ﬀ', ['F', 'F']), ('ﬁ', ['F', 'I']),
    ('ﬂ', ['F', 'L']), ('ﬃ', ['F', 'F', 'I']), ('ﬄ', ['F', 'F', 'L']), ('ﬅ', ['S', 'T']),
    ('ﬆ', ['S', 'T'])]

/-- The capitals of a character as far as the names of levels can tell. -/
def capital (c : Char) : List Char := (capitals.lookup c).getD [c.toUpper]

def levels : List (String × Nat) :=
  [("CRITICAL", 50), ("FATAL", 50), ("ERROR", 40), ("WARNING", 30), ("WARN", 30), ("INFO", 20),
    ("DEBUG", 10), ("NOTSET", 0)]

def standardLevel : Nat := 30

/-- The level of a name in any case; a name that is none means the standard level. -/
def levelOf (name : String) : Nat :=
  (levels.lookup (String.ofList ((trim name.toList).flatMap capital))).getD standardLevel

def logLevel (env : Environment) : Nat := levelOf (setting env levelVariable "WARNING")

def keepsDebug (level : Nat) : Bool := level ≤ 10

end Settings

structure LogRecord where
  logger : String
  message : String
  deriving DecidableEq

namespace LogRecord

def ofInterpreter (message : String) : LogRecord := ⟨"minischeme.interpreter", message⟩

/-- An expression was evaluated. Both it and its value are written, so the record can fail. -/
def evaluated (room : Room) (form value : Datum) : Outcome LogRecord := do
  let source ← form.text room
  let result ← value.text room
  .ok (ofInterpreter ("Evaluated " ++ source ++ " -> " ++ result))

def trapped (f : Fault) : LogRecord := ofInterpreter ("Trapped " ++ f.report.className)

def trappedWriting : LogRecord := ofInterpreter "Trapped RecursionError while rendering"

def finished : LogRecord := ⟨"minischeme.repl", "REPL finished"⟩

def line (r : LogRecord) : String := "DEBUG " ++ r.logger ++ ": " ++ r.message ++ "\n"

def noted (debug : Bool) (r : LogRecord) : List LogRecord := if debug then [r] else []

end LogRecord

structure Reply where
  text : Outcome String
  log : List LogRecord

namespace Reply

/-- An answer that could not be written for want of room says so. -/
def conclude (debug : Bool) (log : List LogRecord) : Outcome String → Reply
  | .error .exhausted =>
    ⟨.ok tooDeepMessage, log ++ LogRecord.trappedWriting.noted debug⟩
  | written => ⟨written, log⟩

end Reply

namespace Session

def readEval (room : Room) (cs : List Char) : Outcome (Datum × Datum) := do
  let form ← read room cs
  let value ← form.evaluate room
  .ok (form, value)

def evaluationLog (room : Room) (debug : Bool) (form value : Datum) : Outcome (List LogRecord) :=
  if debug then (LogRecord.evaluated room form value).map ([·]) else .ok []

/-- The answer to a text. Neither a fault of the program nor nesting too deep to write ends a
session; an integer too long for text does. -/
def answer (room : Room) (debug : Bool) (cs : List Char) : Reply :=
  match readEval room cs with
  | .ok (form, value) =>
    match evaluationLog room debug form value with
    | .ok log => Reply.conclude debug log (value.text room)
    | .error why => Reply.conclude debug [] (.error why)
  | .error (.fault f) =>
    Reply.conclude debug ((LogRecord.trapped f).noted debug) (f.report.text room)
  | .error why => Reply.conclude debug [] (.error why)

end Session

structure Transcript where
  output : String
  linesRead : Nat
  log : List LogRecord

namespace Dialogue

def quits (quit line : String) : Bool := strip line == quit

/-- The whole dialogue over some lines. An answer that ends the session ends the dialogue. -/
def run (room : Room) (debug : Bool) (prompt quit : String) : List String → Outcome Transcript
  | [] => .ok ⟨prompt ++ "\n", 0, LogRecord.finished.noted debug⟩
  | line :: lines =>
    if quits quit line then .ok ⟨prompt, 1, LogRecord.finished.noted debug⟩
    else do
      let reply := Session.answer room debug line.toList
      let text ← reply.text
      let later ← run room debug prompt quit lines
      .ok ⟨prompt ++ text ++ "\n" ++ later.output, later.linesRead + 1, reply.log ++ later.log⟩

end Dialogue

end Lisplet
