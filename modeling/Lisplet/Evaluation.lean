import Lisplet.Primitive

/-! Evaluation. There are no variables: a form is evaluated by its parts alone. -/
namespace Lisplet

inductive SpecialForm
  | quote | branch | cond
  deriving DecidableEq

namespace SpecialForm

def name : SpecialForm → String
  | .quote => "quote"
  | .branch => "if"
  | .cond => "cond"

def all : List SpecialForm := [.quote, .branch, .cond]

def byName : List SpecialForm := [.cond, .branch, .quote]

def operands? : SpecialForm → Option Nat
  | .quote => some 1
  | .branch => some 3
  | .cond => none

def accepts (f : SpecialForm) (count : Nat) : Bool :=
  match f.operands? with
  | some n => count == n
  | none => true

def ofName? (s : String) : Option SpecialForm := all.find? fun f => f.name == s

/-- The special form of a head with so many operands. With another number of operands the head is
taken for the name of a primitive. -/
def recognise? (s : String) (count : Nat) : Option SpecialForm :=
  (ofName? s).filter fun f => f.accepts count

end SpecialForm

def elseName : String := "else"

namespace Datum

/-- The nested calls that evaluating a part of a form takes. -/
def evaluationWeight : Nat := 2

def isElse : Datum → Bool
  | .symbol name => name == elseName
  | _ => false

mutual

def eval (room : Room) : Datum → Outcome Datum
  | .string s => .ok (.string s)
  | .int n => .ok (.int n)
  | .bool b => .ok (.bool b)
  | .list (.symbol name :: operands) =>
    match SpecialForm.recognise? name operands.length, operands with
    | some .quote, [d] => .ok d
    | some .branch, [test, yes, no] => do
      let inner ← room.enter evaluationWeight
      match ← eval inner test with
      | .bool true => eval inner yes
      | .bool false => eval inner no
      | _ => (Fault.wrongType .bool test).raise
    | some .cond, clauses => do
      let inner ← room.enter evaluationWeight
      evalClauses inner clauses
    | _, operands => do
      let inner ← room.enter evaluationWeight
      let args ← evalAll inner operands
      Primitive.applyNamed inner name args
  | form => (Fault.badForm form).raise

def evalClauses (room : Room) : List Datum → Outcome Datum
  | [] => Fault.noClause.raise
  | .list [test, body] :: clauses => do
    if isElse test && clauses.isEmpty then eval room body
    else
      match ← eval room test with
      | .bool true => eval room body
      | .bool false => evalClauses room clauses
      | value => (Fault.wrongType .boolean value).raise
  | .list items :: _ => (Fault.arity 2 items).raise
  | clause :: _ => (Fault.arity 2 [clause]).raise

def evalAll (room : Room) : List Datum → Outcome (List Datum)
  | [] => .ok []
  | d :: rest => do
    let value ← eval room d
    let values ← evalAll room rest
    .ok (value :: values)

end

theorem eval_quote (room : Room) (d : Datum) :
    eval room (.list [.symbol "quote", d]) = .ok d := rfl

theorem eval_branch (room : Room) (test yes no : Datum) :
    eval room (.list [.symbol "if", test, yes, no]) = (do
      let inner ← room.enter evaluationWeight
      match ← eval inner test with
      | .bool true => eval inner yes
      | .bool false => eval inner no
      | _ => (Fault.wrongType .bool test).raise) := rfl

theorem eval_cond (room : Room) (clauses : List Datum) :
    eval room (.list (.symbol "cond" :: clauses)) = (do
      let inner ← room.enter evaluationWeight
      evalClauses inner clauses) := by
  rw [eval]
  rfl

theorem eval_application (room : Room) (name : String) (operands : List Datum)
    (h : SpecialForm.recognise? name operands.length = none) :
    eval room (.list (.symbol name :: operands)) = (do
      let inner ← room.enter evaluationWeight
      let args ← evalAll inner operands
      Primitive.applyNamed inner name args) := by
  rw [eval.eq_7] <;> simp [h]

/-- The value of a form. When the room is used up the program is at fault. -/
def evaluate (room : Room) (form : Datum) : Outcome Datum :=
  match form.eval room with
  | .error .exhausted => Fault.tooDeep.raise
  | result => result

end Datum
end Lisplet
