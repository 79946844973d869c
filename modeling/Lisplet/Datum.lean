import Lisplet.Number

/-! The data of the language. A form and a value are the same thing: what is read from a text is
evaluated to another datum. Induction over data goes through the lists in them, and so do their
depth and the properties that hold throughout them. -/
namespace Lisplet

inductive Datum
  | symbol (name : String)
  | int (value : Int)
  | float (value : Binary64)
  | ratio (value : Rat)
  | complex (re im : Binary64)
  | string (text : String)
  | char (c : Char)
  | bool (b : Bool)
  | list (items : List Datum)
  /-- Items and a tail after a point. The tail may be any datum, also a list. -/
  | dotted (head : List Datum) (tail : Datum)
  | vector (items : List Datum)
  /-- A host value that the language has no datum for. -/
  | foreign

instance : Inhabited Datum := ⟨.foreign⟩

inductive Variant
  | bool | number | float | ratio | complex | string | char | atom | list | dottedList | vector
  deriving DecidableEq

def Variant.name : Variant → String
  | .bool => "bool"
  | .number => "number"
  | .float => "float"
  | .ratio => "ratio"
  | .complex => "complex"
  | .string => "string"
  | .char => "char"
  | .atom => "atom"
  | .list => "list"
  | .dottedList => "dotted-list"
  | .vector => "vector"

namespace Datum

def variant? : Datum → Option Variant
  | .symbol _ => some .atom
  | .int _ => some .number
  | .float _ => some .float
  | .ratio _ => some .ratio
  | .complex .. => some .complex
  | .string _ => some .string
  | .char _ => some .char
  | .bool _ => some .bool
  | .list _ => some .list
  | .dotted .. => some .dottedList
  | .vector _ => some .vector
  | .foreign => none

/-- The datum wrapped `n` times as the last item of a list that begins with the given items. -/
def nest (start : List Datum) (d : Datum) : Nat → Datum
  | 0 => d
  | n + 1 => nest start (.list (start ++ [d])) n

def charOf? (s : String) : Option Datum :=
  match s.toList with
  | [c] => some (.char c)
  | _ => none

/-- The item at an index. A negative index counts from the end. -/
def itemAt? (items : List Datum) (index : Int) : Option Datum :=
  if 0 ≤ index then items[index.toNat]?
  else if -index ≤ items.length then items[(items.length + index).toNat]?
  else none

mutual

/-- The nested calls that going through a datum takes, where a list or vector takes `sequence` of
them, the items of a dotted list `head` and its tail `last`. -/
def depth (sequence head last : Nat) : Datum → Nat
  | .list items => sequence + depthAll sequence head last items
  | .vector items => sequence + depthAll sequence head last items
  | .dotted items tail =>
    max (head + depthAll sequence head last items) (last + depth sequence head last tail)
  | _ => 0

def depthAll (sequence head last : Nat) : List Datum → Nat
  | [] => 0
  | d :: ds => max (depth sequence head last d) (depthAll sequence head last ds)

end

theorem depth_le_depthAll {sequence head last : Nat} {d : Datum} {ds : List Datum} (h : d ∈ ds) :
    d.depth sequence head last ≤ depthAll sequence head last ds := by
  induction ds with
  | nil => cases h
  | cons x xs ih =>
    rw [depthAll]
    rcases List.mem_cons.mp h with rfl | h
    · omega
    · have hle := ih h
      omega

mutual

/-- All that a datum is built from by lists, vectors and dotted lists has a property. -/
def Throughout (p : Datum → Prop) : Datum → Prop
  | .list items => AllThroughout p items
  | .vector items => AllThroughout p items
  | .dotted head tail => AllThroughout p head ∧ Throughout p tail
  | d => p d

def AllThroughout (p : Datum → Prop) : List Datum → Prop
  | [] => True
  | d :: ds => Throughout p d ∧ AllThroughout p ds

end

theorem allThroughout_iff {p : Datum → Prop} {ds : List Datum} :
    AllThroughout p ds ↔ ∀ d ∈ ds, d.Throughout p := by
  induction ds with
  | nil => simp [AllThroughout]
  | cons d ds ih => simp [AllThroughout, ih]

/-- Induction over data and over the lists of data in them. -/
@[elab_as_elim]
theorem induction_on {P : Datum → Prop} (symbol : ∀ name, P (.symbol name)) (int : ∀ n, P (.int n))
    (float : ∀ x, P (.float x)) (ratio : ∀ q, P (.ratio q)) (complex : ∀ x y, P (.complex x y))
    (string : ∀ s, P (.string s)) (char : ∀ c, P (.char c)) (bool : ∀ b, P (.bool b))
    (list : ∀ items, (∀ d ∈ items, P d) → P (.list items))
    (dotted : ∀ head tail, (∀ d ∈ head, P d) → P tail → P (.dotted head tail))
    (vector : ∀ items, (∀ d ∈ items, P d) → P (.vector items)) (foreign : P .foreign)
    (d : Datum) : P d := by
  refine Datum.rec (motive_1 := P) (motive_2 := fun ds => ∀ d ∈ ds, P d) symbol int float ratio
    complex string char bool list dotted vector foreign ?_ ?_ d
  · intro d hd
    cases hd
  · intro d ds hd hds x hx
    rcases List.mem_cons.mp hx with rfl | hx
    · exact hd
    · exact hds x hx

theorem Throughout.mono {p q : Datum → Prop} (hpq : ∀ d, p d → q d) {d : Datum}
    (h : d.Throughout p) : d.Throughout q := by
  induction d using induction_on with
  | list items ih | vector items ih =>
    exact allThroughout_iff.mpr fun d hd => ih d hd (allThroughout_iff.mp h d hd)
  | dotted head tail ihhead ihtail =>
    exact ⟨allThroughout_iff.mpr fun d hd => ihhead d hd (allThroughout_iff.mp h.1 d hd),
      ihtail h.2⟩
  | _ => exact hpq _ h

end Datum
end Lisplet
