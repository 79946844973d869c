import Lisplet.Datum
import Lisplet.Token

/-! What can go wrong in a source text, in a program, and in the host that runs it. A computation
that nests its calls deeper than it has room for fails instead of giving an answer; without a limit
it never does. -/
namespace Lisplet

inductive Defect
  /-- A token, or the end, where no such thing may stand. -/
  | unexpected (found : Option Token)
  /-- The same, where only one thing is wanted. -/
  | expecting (found : Option Token) (wanted : String)
  | notANumeral (text : List Char)
  | longNumeral (digits : Nat)
  | zeroDenominator (text : List Char)
  | missingDigits (lead : List Char)
  | badDigit (digit : Char) (text : List Char)
  | missingLetter
  | unknownCharacter (name : List Char)
  | badEscape (c : Char)

inductive ReadError
  | defect (source : String) (position : Position) (defect : Defect)
  | tooDeep

inductive Expected
  | number | string | boolean | bool | pair
  deriving DecidableEq

inductive Fault
  | unreadable (error : ReadError)
  | arity (expected : Nat) (found : List Datum)
  | wrongType (expected : Expected) (found : Datum)
  | badForm (form : Datum)
  | notFunction (name : String)
  | divisionByZero
  | outOfBound
  | noClause
  | tooDeep

/-- How a token can fail to be what its class promises. No token of a text does. -/
inductive Malformed
  | notReal (text : List Char)
  | fewParts
  | manyParts
  | unknownMark (text : List Char)
  | unknownRadix (c : Char)
  | cutShort

/-- Why a computation has no result: the program is at fault, or an integer has more digits than
are read from text or written to it, or the room for nested calls is used up, or a token does not
keep the form of its class, or a level of the log is asked for without its name. -/
inductive Failure
  | fault (fault : Fault)
  | longNumeral (digits : Nat)
  | longInteger
  | exhausted
  | malformed (what : Malformed)
  | namelessLevel

abbrev Outcome (α : Type) := Except Failure α

def Fault.raise {α : Type} (f : Fault) : Outcome α := .error (.fault f)

inductive Room
  | unlimited
  | frames (n : Nat)
  deriving DecidableEq

namespace Room

def enter (cost : Nat) : Room → Outcome Room
  | .unlimited => .ok .unlimited
  | .frames n => if cost ≤ n then .ok (.frames (n - cost)) else .error .exhausted

def admits (cost : Nat) : Room → Bool
  | .unlimited => true
  | .frames n => cost ≤ n

@[simp] theorem enter_unlimited (cost : Nat) : enter cost .unlimited = .ok .unlimited := rfl

theorem enter_eq_ok_iff {cost : Nat} {room : Room} :
    (∃ inner, room.enter cost = .ok inner) ↔ room.admits cost = true := by
  cases room with
  | unlimited => simp [enter, admits]
  | frames n => by_cases h : cost ≤ n <;> simp [enter, admits, h]

@[simp] theorem admits_zero (room : Room) : room.admits 0 = true := by
  cases room <;> simp [admits]

theorem admits_mono {m n : Nat} {room : Room} (h : room.admits n = true) (hmn : m ≤ n) :
    room.admits m = true := by
  cases room with
  | unlimited => rfl
  | frames k =>
    simp only [admits, decide_eq_true_eq] at h ⊢
    omega

theorem admits_max {m n : Nat} {room : Room} :
    room.admits (max m n) = true ↔ room.admits m = true ∧ room.admits n = true := by
  cases room with
  | unlimited => simp [admits]
  | frames k =>
    simp only [admits, decide_eq_true_eq]
    omega

/-- What fits behind a call fits in the room that the call leaves. -/
theorem enter_of_admits {cost n : Nat} {room : Room} (h : room.admits (cost + n) = true) :
    ∃ inner, room.enter cost = .ok inner ∧ inner.admits n = true := by
  cases room with
  | unlimited => exact ⟨.unlimited, rfl, rfl⟩
  | frames k =>
    simp only [admits, decide_eq_true_eq] at h
    refine ⟨.frames (k - cost), ?_, ?_⟩
    · rw [enter, if_pos (by omega)]
    · simp only [admits, decide_eq_true_eq]
      omega

/-- The room of a session: what a host with a thousand frames leaves. -/
def standard : Room := .frames 990

end Room

end Lisplet
