import Lisplet.Text.Character

/-! Tokens: the words of a source text, and places in it. A text is split into tokens from its front:
for each class `lexeme?` gives the text of that class there, and the first class in order that has
one makes the token. -/
namespace Lisplet

/-- The classes of tokens. `error` is a character that begins no other class. A stream may be fed
by another producer, whose further classes are `other`. -/
inductive Kind
  | space | lparen | rparen | vector | quote | string | char | bool | radix | complex | float
  | ratio | integer | symbol | dot | error
  | other (name : String)
  deriving DecidableEq

namespace Kind

def name : Kind → String
  | .space => "space"
  | .lparen => "lparen"
  | .rparen => "rparen"
  | .vector => "vector"
  | .quote => "quote"
  | .string => "string"
  | .char => "char"
  | .bool => "bool"
  | .radix => "radix"
  | .complex => "complex"
  | .float => "float"
  | .ratio => "ratio"
  | .integer => "integer"
  | .symbol => "symbol"
  | .dot => "dot"
  | .error => "error"
  | .other name => name

/-- The classes of the language, in the order in which they are tried; `error` comes last. -/
def all : List Kind :=
  [.space, .lparen, .rparen, .vector, .quote, .string, .char, .bool, .radix, .complex, .float,
    .ratio, .integer, .symbol, .dot, .error]

def ofName (s : String) : Kind := (all.find? fun k => k.name == s).getD (.other s)

end Kind

structure Token where
  kind : Kind
  text : List Char
  deriving DecidableEq

structure Position where
  line : Nat
  column : Nat
  deriving DecidableEq

namespace Position

def start : Position := ⟨1, 1⟩

def lastIndex (c : Char) (cs : List Char) : Nat := cs.length - 1 - cs.reverse.idxOf c

/-- The place after some characters. Behind a line end columns are counted from the last one. -/
def past (p : Position) (cs : List Char) : Position :=
  let lines := cs.count '\n'
  if lines = 0 then ⟨p.line, p.column + cs.length⟩
  else ⟨p.line + lines, cs.length - lastIndex '\n' cs⟩

def step (p : Position) (c : Char) : Position :=
  if c = '\n' then ⟨p.line + 1, 1⟩ else ⟨p.line, p.column + 1⟩

theorem lastIndex_cons_of_mem {c : Char} {cs : List Char} (d : Char) (h : c ∈ cs) :
    lastIndex c (d :: cs) = lastIndex c cs + 1 := by
  have hindex : cs.reverse.idxOf c < cs.length := by
    simpa using List.idxOf_lt_length_of_mem (List.mem_reverse.mpr h)
  have hsame : (d :: cs).reverse.idxOf c = cs.reverse.idxOf c := by
    rw [List.reverse_cons, List.idxOf_append, if_pos (List.mem_reverse.mpr h)]
  rw [lastIndex, lastIndex, hsame, List.length_cons]
  omega

theorem lastIndex_cons_of_not_mem {c : Char} {cs : List Char} (h : c ∉ cs) :
    lastIndex c (c :: cs) = 0 := by
  have hindex : (c :: cs).reverse.idxOf c = cs.length := by
    rw [List.reverse_cons, List.idxOf_append, if_neg (mt List.mem_reverse.mp h)]
    simp
  rw [lastIndex, hindex]
  simp

theorem past_cons (p : Position) (c : Char) (cs : List Char) :
    p.past (c :: cs) = (p.step c).past cs := by
  by_cases hmem : '\n' ∈ cs
  · have hlines : cs.count '\n' ≠ 0 := Nat.ne_of_gt (List.count_pos_iff.mpr hmem)
    have hindex := lastIndex_cons_of_mem c hmem
    by_cases hc : c = '\n'
    · subst hc
      simp [past, step, hlines, hindex, Nat.add_assoc, Nat.add_comm 1]
    · simp [past, step, hc, hlines, hindex]
  · have hlines : cs.count '\n' = 0 := List.count_eq_zero.mpr hmem
    by_cases hc : c = '\n'
    · subst hc
      simp [past, step, hlines, lastIndex_cons_of_not_mem hmem, Nat.add_comm 1]
    · simp [past, step, hc, hlines, Nat.add_assoc, Nat.add_comm 1]

/-- Counting by tokens is counting by characters. -/
theorem past_eq_foldl (p : Position) (cs : List Char) : p.past cs = cs.foldl step p := by
  induction cs generalizing p with
  | nil => rfl
  | cons c cs ih => rw [past_cons, ih, List.foldl_cons]

@[simp] theorem past_append (p : Position) (cs ds : List Char) :
    p.past (cs ++ ds) = (p.past cs).past ds := by
  simp only [past_eq_foldl, List.foldl_append]

end Position

namespace Scan

def run? (p : Char → Bool) (cs : List Char) : Option (List Char) :=
  match cs.takeWhile p with
  | [] => none
  | run => some run

def signs : List Char :=
  ['!', '$', '%', '&', '|', '*', '+', '-', '/', ':', '<', '=', '>', '?', '@', '^', '_', '~']

def isSign (c : Char) : Bool := signs.contains c

def startsSymbol (c : Char) : Bool := isLetter c || isSign c

def continuesSymbol (c : Char) : Bool := isLetter c || c.isDigit || isSign c

def digits? (cs : List Char) : Option (List Char) := run? Char.isDigit cs

/-- Digits and, where both a point and digits follow, a fraction. -/
def real? (cs : List Char) : Option (List Char) :=
  (digits? cs).map fun whole =>
    match cs.drop whole.length with
    | '.' :: rest =>
      match digits? rest with
      | some fraction => whole ++ '.' :: fraction
      | none => whole
    | _ => whole

def digitsAround? (mark : Char) (cs : List Char) : Option (List Char) :=
  (digits? cs).bind fun left =>
    match cs.drop left.length with
    | c :: rest => if c = mark then (digits? rest).map fun right => left ++ mark :: right else none
    | [] => none

def complex? (cs : List Char) : Option (List Char) :=
  (real? cs).bind fun re =>
    match cs.drop re.length with
    | '+' :: rest =>
      (real? rest).bind fun im =>
        match rest.drop im.length with
        | 'i' :: _ => some (re ++ '+' :: (im ++ ['i']))
        | _ => none
    | _ => none

/-- The text up to the closing quote and with it. A backslash hides the character after it. -/
def closing? : List Char → Option (List Char)
  | [] => none
  | '\\' :: [] => none
  | '\\' :: c :: rest => (closing? rest).map fun t => '\\' :: c :: t
  | c :: rest => if c = '\x22' then some [c] else (closing? rest).map fun t => c :: t

def string? : List Char → Option (List Char)
  | [] => none
  | c :: rest => if c = '\x22' then (closing? rest).map fun t => c :: t else none

def symbol? : List Char → Option (List Char)
  | [] => none
  | c :: rest => if startsSymbol c then some (c :: rest.takeWhile continuesSymbol) else none

def lexeme? : Kind → List Char → Option (List Char)
  | .space, cs => run? isBlank cs
  | .lparen, '(' :: _ => some ['(']
  | .rparen, ')' :: _ => some [')']
  | .vector, '#' :: '(' :: _ => some ['#', '(']
  | .quote, '\x27' :: _ => some ['\x27']
  | .quote, '\x60' :: _ => some ['\x60']
  | .quote, ',' :: _ => some [',']
  | .string, cs => string? cs
  | .char, '#' :: '\\' :: rest => some ('#' :: '\\' :: rest.takeWhile isLetter)
  | .bool, '#' :: 't' :: _ => some ['#', 't']
  | .bool, '#' :: 'f' :: _ => some ['#', 'f']
  | .radix, '#' :: c :: rest =>
    if c = 'd' ∨ c = 'b' ∨ c = 'o' ∨ c = 'x' then
      some ('#' :: c :: rest.takeWhile Char.isAlphanum)
    else none
  | .complex, cs => complex? cs
  | .float, cs => digitsAround? '.' cs
  | .ratio, cs => digitsAround? '/' cs
  | .integer, cs => digits? cs
  | .symbol, cs => symbol? cs
  | .dot, '.' :: _ => some ['.']
  | .error, c :: _ => some [c]
  | _, _ => none

def first (cs : List Char) : Token :=
  (Kind.all.findSome? fun k => (lexeme? k cs).map (Token.mk k)).getD ⟨.error, cs.take 1⟩

/-- The tokens of a text after as many characters as are to be skipped. -/
def lexFrom : Nat → List Char → List Token
  | _, [] => []
  | skip + 1, _ :: rest => lexFrom skip rest
  | 0, c :: rest =>
    let token := first (c :: rest)
    token :: lexFrom (token.text.length - 1) rest

end Scan

def lex (cs : List Char) : List Token := Scan.lexFrom 0 cs

namespace Scan

theorem lexFrom_eq_lex_drop (skip : Nat) (cs : List Char) : lexFrom skip cs = lex (cs.drop skip) := by
  induction cs generalizing skip with
  | nil => cases skip <;> rfl
  | cons c cs ih =>
    cases skip with
    | zero => rfl
    | succ n => simpa [lexFrom] using ih n

end Scan

@[simp] theorem lex_nil : lex [] = [] := rfl

theorem lex_cons (c : Char) (cs : List Char) :
    lex (c :: cs) =
      Scan.first (c :: cs) :: lex (cs.drop ((Scan.first (c :: cs)).text.length - 1)) := by
  rw [← Scan.lexFrom_eq_lex_drop]
  rfl

end Lisplet
