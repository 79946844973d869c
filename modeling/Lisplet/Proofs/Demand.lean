import Lisplet.Proofs.IntegerText
import Lisplet.Proofs.Pairs

/-! What arguments have to be. Taking an argument for what is wanted succeeds, if the limit on digits
and the room allow it, or finds the fault that it is something else. Where several are taken one
after the other, the first that is something else is the one that is found. -/
namespace Lisplet

namespace Datum
open LeadingInteger

/-- What is left of a datum when lists of one item are unwrapped as long as there are any. -/
def core : Datum → Datum
  | .list [d] => core d
  | d => d

/-- Data that stand for integers, however many digits these have: texts with an integer in front that
nothing behind it makes another number, and lists of one such datum. -/
inductive CountsAsInteger : Datum → Prop
  | int (n : Int) : CountsAsInteger (.int n)
  | text {s : String} {blank : List Char} {i : LeadingInteger} : Splits s.toList blank i →
      i.digits ≠ [] → ¬ Continuation i.rest → CountsAsInteger (.string s)
  | item {d : Datum} : CountsAsInteger d → CountsAsInteger (.list [d])

theorem countsAsInteger_singleton_iff {d : Datum} :
    CountsAsInteger (.list [d]) ↔ CountsAsInteger d := by
  refine ⟨fun h => ?_, .item⟩
  cases h with
  | item hd => exact hd

end Datum

inductive Demand
  | integer
  | text
  | truth
  | string
  | number
  | pair

namespace Demand
open Datum

def expected : Demand → Expected
  | .integer | .number => .number
  | .text | .string => .string
  | .truth => .boolean
  | .pair => .pair

/-- What is found where something else is wanted. Lists are unwrapped in search of an integer. -/
def found : Demand → Datum → Datum
  | .integer, a => a.core
  | _, a => a

def MetBy : Demand → Datum → Prop
  | .integer, a => a.CountsAsInteger
  | .text, a => a.variant? ∈ [some .string, some .bool, some .number]
  | .truth, a => a.variant? = some .bool
  | .string, a => a.variant? = some .string
  | .number, a => a.variant? = some .number
  | .pair, a => a.HasFirst

inductive Takes {α : Type} (q : Demand) (a : Datum) : Outcome α → Prop
  | taken (x : α) : q.MetBy a → Takes q a (.ok x)
  | refused : ¬ q.MetBy a → Takes q a (Fault.wrongType q.expected (q.found a)).raise
  | digitLimit {why : Failure} : q.MetBy a → why.DigitLimit → Takes q a (.error why)
  | exhausted : Takes q a (.error .exhausted)

/-- What taking arguments in turn comes to, when there is a result of some kind where all of them
are taken. -/
inductive TakesAll {β : Type} (q : Demand) (result : Outcome β → Prop) (args : List Datum) :
    Outcome β → Prop
  | taken {o : Outcome β} : (∀ a ∈ args, q.MetBy a) → result o → TakesAll q result args o
  | refused {i : Nat} {a : Datum} : args[i]? = some a → ¬ q.MetBy a →
      (∀ j < i, ∀ b, args[j]? = some b → q.MetBy b) →
      TakesAll q result args (Fault.wrongType q.expected (q.found a)).raise
  | digitLimit {why : Failure} : why.DigitLimit → TakesAll q result args (.error why)
  | exhausted : TakesAll q result args (.error .exhausted)

section
variable {α β : Type} {q : Demand} {room : Room} {a d : Datum} {args : List Datum}
  {o : Outcome α} {f : α → Outcome β} {result : Outcome β → Prop}

theorem Takes.singleton (h : Takes .integer d o) : Takes .integer (.list [d]) o := by
  cases h with
  | taken x hd => exact .taken x (.item hd)
  | refused hd => exact .refused fun hlist => hd (countsAsInteger_singleton_iff.mp hlist)
  | digitLimit hd hwhy => exact .digitLimit (.item hd) hwhy
  | exhausted => exact .exhausted

theorem takes_integerOfText (s : String) : Takes .integer (.string s) (integerOfText s) := by
  have hsplits := LeadingInteger.splits_of s.toList
  rcases integerOfText_cases hsplits with ⟨hnone, heq⟩ | ⟨hdigits, hend, -, heq⟩ |
    ⟨hdigits, hend, -, heq⟩
  · rw [heq]
    refine .refused fun hs => ?_
    cases hs with
    | text hsplits' hdigits hend =>
      -- A text is split in one way.
      obtain ⟨-, rfl⟩ := hsplits'.unique
      exact hnone.elim hdigits hend
  · rw [heq]
    exact .digitLimit (.text hsplits hdigits hend) (.read _)
  · rw [heq]
    exact .taken _ (.text hsplits hdigits hend)

theorem takes_toInteger (room : Room) (a : Datum) : Takes .integer a (a.toInteger room) := by
  induction a using induction_on generalizing room with
  | int n => exact .taken n (.int n)
  | string s => exact takes_integerOfText s
  | list items ih =>
    rcases items with _ | ⟨d, _ | ⟨d', items⟩⟩
    · exact .refused fun h => by cases h
    · rw [toInteger]
      cases henter : room.enter unwrapWeight with
      | error why =>
        obtain ⟨rfl, -⟩ := Room.enter_eq_error_iff.mp henter
        exact .exhausted
      | ok inner => exact (ih d List.mem_cons_self inner).singleton
    · exact .refused fun h => by cases h
  | _ => exact .refused fun h => by cases h

theorem takes_toText (a : Datum) : Takes .text a a.toText := by
  cases a with
  | string s => exact .taken _ (by simp [MetBy, variant?])
  | bool b => exact .taken _ (by simp [MetBy, variant?])
  | int n =>
    have hmet : MetBy .text (.int n) := by simp [MetBy, variant?]
    rw [toText, writeInteger]
    split_ifs
    · exact .taken _ hmet
    · exact .digitLimit hmet .written
  | _ => exact .refused (by simp [MetBy, variant?])

theorem takes_toTruth (a : Datum) : Takes .truth a a.toTruth := by
  cases a with
  | bool b => exact .taken b rfl
  | _ => exact .refused nofun

theorem takes_first (a : Datum) : Takes .pair a (Primitive.first a) := by
  by_cases ha : a.HasFirst
  · obtain ⟨d, -, hd, -⟩ := Primitive.exists_parts ha
    rw [hd]
    exact .taken d ha
  · rw [Primitive.first_of_not_hasFirst ha]
    exact .refused ha

theorem takes_rest (a : Datum) : Takes .pair a (Primitive.rest a) := by
  by_cases ha : a.HasFirst
  · obtain ⟨-, e, -, he⟩ := Primitive.exists_parts ha
    rw [he]
    exact .taken e ha
  · rw [Primitive.rest_of_not_hasFirst ha]
    exact .refused ha

namespace TakesAll

theorem nil {o : Outcome β} (h : result o) : TakesAll q result [] o :=
  .taken (fun _ ha => absurd ha List.not_mem_nil) h

theorem cons (h : Takes q a o) (hf : ∀ x, TakesAll q result args (f x)) :
    TakesAll q result (a :: args) (o >>= f) := by
  cases h with
  | taken x ha =>
    have hrest := hf x
    change TakesAll q result (a :: args) (f x)
    generalize f x = o' at hrest ⊢
    cases hrest with
    | taken hall hresult => exact .taken (List.forall_mem_cons.mpr ⟨ha, hall⟩) hresult
    | refused hi hd hbefore =>
      refine .refused (by rw [List.getElem?_cons_succ]; exact hi) hd fun j hj b hb => ?_
      cases j with
      | zero =>
        obtain rfl := Option.some.inj hb
        exact ha
      | succ j => exact hbefore j (Nat.lt_of_succ_lt_succ hj) b hb
    | digitLimit hwhy => exact .digitLimit hwhy
    | exhausted => exact .exhausted
  | refused ha => exact .refused List.getElem?_cons_zero ha nofun
  | digitLimit _ hwhy => exact .digitLimit hwhy
  | exhausted => exact .exhausted

theorem single (h : Takes q a o) (hf : ∀ x, result (f x)) : TakesAll q result [a] (o >>= f) :=
  cons h fun x => nil (hf x)

theorem mapM {take : Datum → Outcome α} (h : ∀ a, Takes q a (take a)) {f : List α → Outcome β}
    (hf : ∀ xs, result (f xs)) (args : List Datum) :
    TakesAll q result args (args.mapM take >>= f) := by
  induction args generalizing f with
  | nil => exact nil (hf [])
  | cons a args ih =>
    rw [List.mapM_cons, bind_assoc]
    refine cons (h a) fun x => ?_
    rw [bind_assoc]
    exact ih fun xs => hf (x :: xs)

end TakesAll

theorem takesAll_both {take : Datum → Outcome α} (h : ∀ a, Takes q a (take a)) {g : α × α → β}
    (hg : ∀ p, result (.ok (g p))) (a b : Datum) :
    TakesAll q result [a, b] ((Primitive.both take a b).map g) := by
  have hmap : (Primitive.both take a b).map g =
      (take a >>= fun x => take b >>= fun y => .ok (g (x, y))) := by
    rw [Primitive.both]
    cases take a with
    | error why => rfl
    | ok x => cases take b <;> rfl
  rw [hmap]
  exact .cons (h a) fun x => .single (h b) fun y => hg (x, y)

end
end Demand

end Lisplet
