import Lisplet.Datum.Write

/-! Reports: what a fault tells the user. A report has a class, a few data, and a text. -/
namespace Lisplet

inductive Report
  | arity (expected : Int) (found : List Datum)
  | wrongType (expected : String) (found : Datum)
  | unreadable (message : String)
  | badForm (message : String) (form : Datum)
  | notFunction (message : String) (name : Datum)
  | unbound (message : String) (name : Datum)
  | runtime (message : String)

def tooDeepMessage : String := "Maximum recursion depth exceeded"

def numeral (n : Int) : String := String.ofList (decimal n)

def longNumeralMessage (digits : Nat) : String :=
  "Exceeds the limit (" ++ numeral digitLimit ++
    " digits) for integer string conversion: value has " ++ numeral digits ++
    " digits; use sys.set_int_max_str_digits() to increase the limit"

def longIntegerMessage : String :=
  "Exceeds the limit (" ++ numeral digitLimit ++
    " digits) for integer string conversion; use sys.set_int_max_str_digits() to increase the limit"

def quote (cs : List Char) : String := String.ofList (quoted cs)

namespace Token

def describe : Option Token → String
  | none => "unexpected end of input"
  | some t =>
    if t = ⟨.error, ['\x22']⟩ then "unterminated string literal"
    else "unexpected " ++ quote t.text

end Token

/-- The most characters that are shown of a text that is no numeral. -/
def shownOfNumeral : Nat := 200

def Defect.message : Defect → String
  | .unexpected found => Token.describe found
  | .expecting found wanted => Token.describe found ++ ", expecting " ++ wanted
  | .notANumeral text =>
    "invalid literal for int() with base 10: " ++
      String.ofList ((quoted text).take shownOfNumeral)
  | .longNumeral digits => longNumeralMessage digits
  | .zeroDenominator text => "zero denominator in ratio " ++ quote text
  | .missingDigits lead => "missing digits after " ++ quote lead
  | .badDigit digit text => "invalid digit " ++ quote [digit] ++ " in " ++ quote text
  | .missingLetter => "expecting letter after '#\\'"
  | .unknownCharacter name => "unknown character name " ++ quote name
  | .badEscape c => "invalid escape sequence '\\" ++ String.ofList [c] ++ "' in string"

def placed (source : String) (p : Position) (message : String) : String :=
  "\"" ++ source ++ "\" (line " ++ numeral p.line ++ ", column " ++ numeral p.column ++ "): " ++
    message

def ReadError.message : ReadError → String
  | .defect source position what => placed source position what.message
  | .tooDeep => "maximum nesting depth exceeded"

def Expected.name : Expected → String
  | .number => "number"
  | .string => "string"
  | .boolean => "boolean"
  | .bool => "bool"
  | .pair => "pair"

def Fault.report : Fault → Report
  | .unreadable error => .unreadable error.message
  | .arity expected found => .arity expected found
  | .wrongType expected found => .wrongType expected.name found
  | .badForm form => .badForm "Unrecognized special form" form
  | .notFunction name => .notFunction "Unrecognized primitive function args" (.string name)
  | .divisionByZero => .runtime "Division by zero"
  | .outOfBound => .runtime "Out of bound error"
  | .noClause => .runtime "Not viable alternative in cond"
  | .tooDeep => .runtime tooDeepMessage

namespace Report

def className : Report → String
  | .arity .. => "SchemeArityError"
  | .wrongType .. => "SchemeTypeError"
  | .unreadable _ => "SchemeSyntaxError"
  | .badForm .. => "SchemeBadFormError"
  | .notFunction .. => "SchemeNotFunctionError"
  | .unbound .. => "SchemeUnboundSymbol"
  | .runtime _ => "SchemeRuntimeError"

def text (room : Room) : Report → Outcome String
  | .arity expected found => do
    let count ← writeInteger expected
    let shown ← Datum.textOfAll room found
    .ok ("Expected " ++ String.ofList count ++ " args; found values " ++ shown)
  | .wrongType expected found =>
    (found.text room).map fun shown => "Invalid type: expected " ++ expected ++ ", found " ++ shown
  | .unreadable message => .ok ("Parse error at " ++ message)
  | .badForm message form => (form.text room).map fun shown => message ++ ": " ++ shown
  | .notFunction message name => (name.text room).map fun shown => message ++ ": " ++ shown
  | .unbound message name => name.plain.map fun shown => message ++ ": " ++ String.ofList shown
  | .runtime message => .ok message

/-- Reports agree when their class does and their data do, loosely. -/
def agrees : Report → Report → Bool
  | .arity a xs, .arity b ys => a == b && Datum.allAgree xs ys
  | .wrongType a x, .wrongType b y => a == b && x.agrees y
  | .unreadable a, .unreadable b => a == b
  | .badForm a x, .badForm b y => a == b && x.agrees y
  | .notFunction a x, .notFunction b y => a == b && x.agrees y
  | .unbound a x, .unbound b y => a == b && x.agrees y
  | .runtime a, .runtime b => a == b
  | _, _ => false

end Report

def Malformed.message : Malformed → String
  | .notReal text => "could not convert string to float: " ++ quote text
  | .fewParts => "not enough values to unpack (expected 2, got 1)"
  | .manyParts => "too many values to unpack (expected 2)"
  | .unknownMark text => quote text
  | .unknownRadix c => quote [c]
  | .cutShort => "string index out of range"

def namelessLevelMessage : String := "'list' object has no attribute 'strip'"

end Lisplet
