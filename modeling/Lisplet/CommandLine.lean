import Lisplet.Session

/-! The command line. Flags may be shortened to any beginning that is not ambiguous, a value may
follow a flag as the next argument, behind an equals sign, or directly behind a short flag, and
nothing may stand alone. -/
namespace Lisplet
namespace CommandLine

inductive Flag
  | help | eval | logLevel | version
  deriving DecidableEq

def spellings : List (List Char × Flag) :=
  [("-h".toList, .help), ("--help".toList, .help), ("-e".toList, .eval), ("--eval".toList, .eval),
    ("--log-level".toList, .logLevel), ("--version".toList, .version)]

/-- What an argument is. The text behind a flag is what stands in the same argument, with or without
an equals sign before it. `unknown` looks like a flag and is none. -/
inductive Argument
  | plain (value : String)
  | divider
  | unknown
  | flag (flag : Flag) (short : Bool) (text : Option (List Char))

/-- A minus sign and a number, with or without a line end behind it. -/
def isNegativeNumber (cs : List Char) : Bool :=
  match cs with
  | '-' :: body =>
    let body := if body.getLast? = some '\n' then body.dropLast else body
    let isDigit := fun c => (digitOfScript? c).isSome
    match body.dropWhile isDigit with
    | [] => !body.isEmpty
    | '.' :: fraction => !fraction.isEmpty && fraction.all isDigit
    | _ => false
  | _ => false

def splitEquals (cs : List Char) : List Char × Option (List Char) :=
  (cs.takeWhile (· != '='),
    match cs.dropWhile (· != '=') with
    | [] => none
    | _ :: rest => some rest)

def candidates (cs : List Char) : List Argument :=
  match cs with
  | '-' :: '-' :: _ =>
    let (name, text) := splitEquals cs
    (spellings.filter fun s => name.isPrefixOf s.1).map fun s => .flag s.2 false text
  | _ =>
    (spellings.filter fun s => s.1 == cs.take 2).map fun s => .flag s.2 true (some (cs.drop 2))

def isShort (spelling : List Char) : Bool := spelling.length == 2

/-- Tells what an argument before the divider is. An ambiguous one is nothing. -/
def classify? (argument : String) : Option Argument :=
  let cs := argument.toList
  let (name, text) := splitEquals cs
  if cs.head? != some '-' then some (.plain argument)
  else
    match spellings.lookup cs, spellings.lookup name, text with
    | some f, _, _ => some (.flag f (isShort cs) none)
    | none, some f, some text => some (.flag f (isShort name) (some text))
    | none, _, _ =>
      if cs.length = 1 then some (.plain argument)
      else
        match candidates cs with
        | [only] => some only
        | [] =>
          if isNegativeNumber cs || cs.contains ' ' then some (.plain argument) else some .unknown
        | _ => none

def classifyAll? : List String → Option (List Argument)
  | [] => some []
  | argument :: rest =>
    if argument = "--" then some (.divider :: rest.map .plain)
    else
      match classify? argument with
      | some a => (classifyAll? rest).map (a :: ·)
      | none => none

/-- The level of the log that is asked for, if any is. A flag that has lost its value names none. -/
inductive LevelChoice
  | unasked
  | nameless
  | named (name : String)
  deriving DecidableEq

/-- What is asked for: to evaluate some expressions, or to converse where there are none, with a
log of some level; or a text about the program; or nothing that makes sense. -/
inductive Request
  | run (expressions : List String) (level : LevelChoice)
  | help
  | version
  | misuse
  deriving DecidableEq

structure Gathered where
  expressions : List String
  level : LevelChoice
  stray : Bool

def Gathered.empty : Gathered := ⟨[], .unasked, false⟩

/-- Keeps the value of a flag. The last level counts, and an expression without a value is blank. -/
def Gathered.add (g : Gathered) (f : Flag) (value : Option String) : Gathered :=
  match f, value with
  | .logLevel, some name => { g with level := .named name }
  | .logLevel, none => { g with level := .nameless }
  | _, value => { g with expressions := g.expressions ++ [value.getD ""] }

/-- The value behind a flag in the same argument. A divider is dropped there too, and leaves none. -/
def attached (cs : List Char) : Option String :=
  if cs = "--".toList then none else some (String.ofList cs)

def startsPlain : List Argument → Bool
  | .plain _ :: _ => true
  | _ => false

/-- Whether short flags packed behind a short flag for help make sense: more flags for help, and in
the end perhaps one that takes what follows it as its value. -/
def packed : List Char → List Argument → Bool
  | [], _ => true
  | 'h' :: more, rest => packed more rest
  | ['e'], rest => startsPlain rest
  | 'e' :: _, _ => true
  | _, _ => false

def follow : Gathered → List Argument → Request
  | g, [] => if g.stray then .misuse else .run g.expressions g.level
  | g, .plain _ :: rest => follow { g with stray := true } rest
  | g, .divider :: rest => follow { g with stray := true } rest
  | g, .unknown :: rest => follow { g with stray := true } rest
  | _, .flag .version _ text :: _ => if text.isNone then .version else .misuse
  | _, .flag .help short text :: rest =>
    match text with
    | none => .help
    | some cs => if short && !cs.isEmpty && packed cs rest then .help else .misuse
  | g, .flag f _ (some cs) :: rest => follow (g.add f (attached cs)) rest
  | g, .flag f _ none :: .plain value :: rest => follow (g.add f (some value)) rest
  | _, .flag _ _ none :: _ => .misuse

def request (arguments : List String) : Request :=
  match classifyAll? arguments with
  | some args => follow .empty args
  | none => .misuse

def versionText : String := "minischeme 0.1.0\n"

def helpText : String :=
  "usage: minischeme [-h] [-e EXPR] [--log-level LOG_LEVEL] [--version]\n" ++
  "\nEvaluate minischeme expressions.\n" ++
  "\noptions:\n" ++
  "  -h, --help            show this help message and exit\n" ++
  "  -e EXPR, --eval EXPR  evaluate EXPR, print the result and exit (repeatable)\n" ++
  "  --log-level LOG_LEVEL\n" ++
  "                        logging level (default: $MINISCHEME_LOG_LEVEL or\n" ++
  "                        WARNING)\n" ++
  "  --version             show program's version number and exit\n"

def linesOf : List Char → List (List Char)
  | [] => []
  | c :: rest =>
    if c = '\n' then [] :: linesOf rest
    else
      match linesOf rest with
      | line :: lines => (c :: line) :: lines
      | [] => [[c]]

/-- How a run of the program ends: its status, what it has written, and, unless the arguments
alone settled the run, its log. -/
structure Execution where
  status : Nat
  output : String
  log : Option (List LogRecord)

def answers (room : Room) (debug : Bool) : List String → Outcome (String × List LogRecord)
  | [] => .ok ("", [])
  | expression :: rest => do
    let reply := Session.answer room debug expression.toList
    let text ← reply.text
    let later ← answers room debug rest
    .ok (text ++ "\n" ++ later.1, reply.log ++ later.2)

def debugs (level : LevelChoice) (env : Environment) : Outcome Bool :=
  match level with
  | .named name => .ok (Settings.keepsDebug (Settings.levelOf name))
  | .unasked => .ok (Settings.keepsDebug (Settings.logLevel env))
  | .nameless => .error .namelessLevel

def execute (room : Room) (arguments : List String) (env : Environment) (input : String) :
    Outcome Execution :=
  match request arguments with
  | .misuse => .ok ⟨2, "", none⟩
  | .version => .ok ⟨0, versionText, none⟩
  | .help => .ok ⟨0, helpText, none⟩
  | .run [] level => do
    let debug ← debugs level env
    let lines := (linesOf input.toList).map String.ofList
    let t ← Dialogue.run room debug (Settings.prompt env) (Settings.quitWord env) lines
    .ok ⟨0, t.output, some t.log⟩
  | .run expressions level => do
    let debug ← debugs level env
    let (output, log) ← answers room debug expressions
    .ok ⟨0, output, some log⟩

end CommandLine
end Lisplet
