import Lisplet.Proofs.ValueParts

/-! Joining and taking apart. What is joined is taken apart into the same two data, except that a
dotted list without items comes back as its tail. What is taken apart is joined to the same datum,
except that a dotted list of one item with a list or dotted list behind its point loses the point. -/
namespace Lisplet

namespace Datum

/-- A list of items, or a dotted list with items before its point. -/
inductive HasFirst : Datum → Prop
  | list (d : Datum) (items : List Datum) : HasFirst (.list (d :: items))
  | dotted (d : Datum) (items : List Datum) (tail : Datum) : HasFirst (.dotted (d :: items) tail)

inductive Shape : Datum → Prop
  | list (d : Datum) (items : List Datum) : Shape (.list (d :: items))
  | last (d tail : Datum) : Shape (.dotted [d] tail)
  | dotted (d d' : Datum) (items : List Datum) (tail : Datum) :
      Shape (.dotted (d :: d' :: items) tail)
  | other {v : Datum} : ¬ HasFirst v → Shape v

theorem exists_shape (v : Datum) : Shape v := by
  cases v with
  | list items =>
    cases items with
    | nil => exact .other nofun
    | cons d items => exact .list d items
  | dotted head tail =>
    match head with
    | [] => exact .other nofun
    | [d] => exact .last d tail
    | d :: d' :: items => exact .dotted d d' items tail
  | _ => exact .other nofun

theorem dotted_ne_tail (head : List Datum) (tail : Datum) : dotted head tail ≠ tail := by
  intro h
  have hsize := congrArg sizeOf h
  rw [dotted.sizeOf_spec] at hsize
  omega

end Datum

namespace Primitive
open Datum

variable {room : Room} {d e v tail : Datum}

theorem first_of_not_hasFirst (h : ¬ HasFirst v) : first v = (Fault.wrongType .pair v).raise := by
  unfold first
  split
  · exact absurd (.list _ _) h
  · exact absurd (.dotted _ _ _) h
  · rfl

theorem rest_of_not_hasFirst (h : ¬ HasFirst v) : rest v = (Fault.wrongType .pair v).raise := by
  unfold rest
  split
  · exact absurd (.list _ _) h
  · exact absurd (.dotted _ _ _) h
  · exact absurd (.dotted _ _ _) h
  · rfl

theorem exists_parts (h : HasFirst v) : ∃ d e, first v = .ok d ∧ rest v = .ok e := by
  cases exists_shape v with
  | list | last | dotted => exact ⟨_, _, rfl, rfl⟩
  | other hnot => exact absurd h hnot

theorem exists_first_iff : (∃ d, first v = .ok d) ↔ HasFirst v := by
  constructor
  · rintro ⟨d, hd⟩
    by_contra hnot
    rw [first_of_not_hasFirst hnot] at hd
    cases hd
  · intro h
    obtain ⟨d, -, hd, -⟩ := exists_parts h
    exact ⟨d, hd⟩

theorem exists_rest_iff : (∃ e, rest v = .ok e) ↔ HasFirst v := by
  constructor
  · rintro ⟨e, he⟩
    by_contra hnot
    rw [rest_of_not_hasFirst hnot] at he
    cases he
  · intro h
    obtain ⟨-, e, -, he⟩ := exists_parts h
    exact ⟨e, he⟩

theorem first_join (d e : Datum) : first (join d e) = .ok d := by
  cases e <;> rfl

theorem rest_join (d : Datum) (h : ∀ tail, e ≠ .dotted [] tail) : rest (join d e) = .ok e := by
  cases e with
  | dotted head tail =>
    cases head with
    | nil => exact absurd rfl (h tail)
    | cons d' items => rfl
  | _ => rfl

theorem rest_join_iff : rest (join d e) = .ok e ↔ ∀ tail, e ≠ .dotted [] tail := by
  refine ⟨?_, rest_join d⟩
  rintro h tail rfl
  exact dotted_ne_tail [] tail (Except.ok.inj h).symm

theorem join_eq_dotted_iff : join d tail = .dotted [d] tail ↔ tail.IsNoPair := by
  cases tail with
  | list items => exact ⟨nofun, False.elim⟩
  | dotted head tail =>
    refine ⟨fun h => ?_, False.elim⟩
    exact dotted_ne_tail head tail (Datum.dotted.inj h).2.symm
  | _ => exact ⟨fun _ => trivial, fun _ => rfl⟩

/-- The parts of a datum joined are the datum, unless a point between them is lost. -/
theorem join_first_rest (hfirst : first v = .ok d) (hrest : rest v = .ok e) :
    join d e = v ↔ ¬ ∃ d tail, v = .dotted [d] tail ∧ ¬ tail.IsNoPair := by
  cases exists_shape v with
  | list d items =>
    cases hfirst
    cases hrest
    exact ⟨fun _ => nofun, fun _ => rfl⟩
  | last d tail =>
    cases hfirst
    cases hrest
    rw [join_eq_dotted_iff]
    constructor
    · rintro hend ⟨_, tail, hv, hpair⟩
      obtain ⟨-, rfl⟩ := Datum.dotted.inj hv
      exact hpair hend
    · intro hnone
      by_contra hpair
      exact hnone ⟨_, _, rfl, hpair⟩
  | dotted d d' items tail =>
    cases hfirst
    cases hrest
    exact ⟨fun _ => nofun, fun _ => rfl⟩
  | other h => exact absurd (exists_first_iff.mp ⟨d, hfirst⟩) h

/-- `car` and `cdr` take apart what `cons` joins, but for a dotted list without items, which comes
back as its tail. They take apart the same data, those with a first item, and find the same fault in
all others. `cons` joins what they take apart, but for a dotted list of one item whose tail is a list
or a dotted list. -/
theorem cons_joins_what_car_and_cdr_part (room : Room) (x y v : Datum) :
    (∃ p, applyNamed room "cons" [x, y] = .ok p ∧ applyNamed room "car" [p] = .ok x ∧
      (applyNamed room "cdr" [p] = .ok y ↔ ∀ tail, y ≠ .dotted [] tail) ∧
      ∀ tail, y = .dotted [] tail → applyNamed room "cdr" [p] = .ok tail) ∧
    ((∃ d, applyNamed room "car" [v] = .ok d) ↔ HasFirst v) ∧
    ((∃ e, applyNamed room "cdr" [v] = .ok e) ↔ HasFirst v) ∧
    (¬ HasFirst v → applyNamed room "car" [v] = (Fault.wrongType .pair v).raise ∧
      applyNamed room "cdr" [v] = (Fault.wrongType .pair v).raise) ∧
    ∀ d e, applyNamed room "car" [v] = .ok d → applyNamed room "cdr" [v] = .ok e →
      (applyNamed room "cons" [d, e] = .ok v ↔
        ¬ ∃ d tail, v = .dotted [d] tail ∧ ¬ tail.IsNoPair) := by
  have hcons (d e : Datum) : applyNamed room "cons" [d, e] = .ok (join d e) := rfl
  have hcar (d : Datum) : applyNamed room "car" [d] = first d := rfl
  have hcdr (d : Datum) : applyNamed room "cdr" [d] = rest d := rfl
  simp only [hcons, hcar, hcdr, Except.ok.injEq]
  refine ⟨⟨_, rfl, first_join x y, rest_join_iff, ?_⟩, exists_first_iff, exists_rest_iff,
    fun h => ⟨first_of_not_hasFirst h, rest_of_not_hasFirst h⟩, fun d e => join_first_rest⟩
  rintro tail rfl
  rfl

/-- `(1 . (2))` is taken apart into 1 and a list, and these are joined to a list. -/
theorem cons_joins_what_car_and_cdr_part_dotted :
    applyNamed .standard "cons" [.int 1, .list [.int 2]] ≠ .ok (.dotted [.int 1] (.list [.int 2])) ∧
      applyNamed .standard "car" [.vector []] = (Fault.wrongType .pair (.vector [])).raise := by
  obtain ⟨-, -, -, -, hjoin⟩ := cons_joins_what_car_and_cdr_part .standard (.int 1) (.list [.int 2])
    (.dotted [.int 1] (.list [.int 2]))
  obtain ⟨-, -, -, hfault, -⟩ := cons_joins_what_car_and_cdr_part .standard (.int 1) (.list [.int 2])
    (.vector [])
  refine ⟨fun h => (hjoin _ _ rfl rfl).mp h ⟨_, _, rfl, id⟩, (hfault ?_).1⟩
  rintro ⟨⟩

end Primitive
end Lisplet
