import Lisplet.Primitive
import Lisplet.Proofs.Outcome
import Mathlib.Data.List.Forall2

/-! Comparisons as decisions. Strict equality of data without floating-point numbers decides whether
they are the same. Nothing is lost where a dotted list is compared as the list of its items and its
tail, because the variants are told apart before. -/
namespace Lisplet
namespace Datum

/-- The outcome is a truth value and says whether a proposition holds. -/
def Decides (o : Outcome Bool) (p : Prop) : Prop := ∃ x, o = .ok x ∧ (x = true ↔ p)

namespace Decides

variable {o o' : Outcome Bool} {p q : Prop}

theorem ok {x : Bool} (h : x = true ↔ p) : Decides (.ok x) p := ⟨x, rfl, h⟩

theorem congr (h : Decides o p) (hpq : p ↔ q) : Decides o q := by
  obtain ⟨x, hx, hp⟩ := h
  exact ⟨x, hx, hp.trans hpq⟩

theorem unique (h : Decides o p) (h' : Decides o' p) : o = o' := by
  obtain ⟨x, rfl, hx⟩ := h
  obtain ⟨y, rfl, hy⟩ := h'
  rw [Bool.eq_iff_iff.mpr (hx.trans hy.symm)]

theorem andThen (h : Decides o p) (h' : p → Decides o' q) : Decides (andThen o o') (p ∧ q) := by
  obtain ⟨x, rfl, hp⟩ := h
  cases x with
  | false =>
    have hnot : ¬ p := fun h => by cases hp.mpr h
    exact ⟨false, rfl, by simp [hnot]⟩
  | true => exact (h' (hp.mp rfl)).congr (and_iff_right (hp.mp rfl)).symm

theorem apartOnFault (h : Decides o p) : Decides (apartOnFault o) p := by
  obtain ⟨x, rfl, hp⟩ := h
  exact ok hp

theorem map_bool_iff (h : Decides o p) : o.map bool = .ok (.bool true) ↔ p := by
  obtain ⟨x, rfl, hp⟩ := h
  rw [← hp]
  exact ⟨fun h => Datum.bool.inj (Except.ok.inj h), fun h => by rw [h]; rfl⟩

theorem ofLength (xs ys : List Datum) {cost n : Nat} {room : Room} {f : Room → Outcome Bool}
    (hroom : room.admits (cost + n) = true)
    (h : xs.length = ys.length → ∀ inner : Room, inner.admits n = true → Decides (f inner) p) :
    Decides (if xs.length = ys.length then (room.enter cost).bind f else .ok false)
      (xs.length = ys.length ∧ p) := by
  by_cases hlength : xs.length = ys.length
  · obtain ⟨inner, henter, hinner⟩ := Room.enter_of_admits hroom
    rw [if_pos hlength, henter]
    exact (h hlength inner hinner).congr (and_iff_right hlength).symm
  · rw [if_neg hlength]
    exact ok (by simp [hlength])

end Decides

/-- Comparison of items in pairs, up to the end of the shorter list. -/
def pairwise (compare : Datum → Datum → Outcome Bool) : List Datum → List Datum → Outcome Bool
  | x :: xs, y :: ys => andThen (apartOnFault (compare x y)) (pairwise compare xs ys)
  | _, _ => .ok true

section
variable {room : Room} {a b : Datum} {xs ys : List Datum}

theorem strictlyEqualAll_eq (room : Room) (xs ys : List Datum) :
    strictlyEqualAll room xs ys = pairwise (strictlyEqual room) xs ys := by
  induction xs generalizing ys with
  | nil => rw [strictlyEqualAll, pairwise] <;> simp
  | cons x xs ih =>
    cases ys with
    | nil => rw [strictlyEqualAll, pairwise] <;> simp
    | cons y ys => rw [strictlyEqualAll, pairwise, ih]

theorem andThen_assoc (o o' o'' : Outcome Bool) :
    andThen (andThen o o') o'' = andThen o (andThen o' o'') := by
  rcases o with why | x
  · rfl
  · cases x <;> rfl

theorem pairwise_append {compare : Datum → Datum → Outcome Bool} (hlength : xs.length = ys.length)
    (x y : Datum) : pairwise compare (xs ++ [x]) (ys ++ [y]) =
      andThen (pairwise compare xs ys) (apartOnFault (compare x y)) := by
  induction xs generalizing ys with
  | nil =>
    obtain rfl := List.length_eq_zero_iff.mp hlength.symm
    simp only [List.nil_append, pairwise]
    rcases apartOnFault (compare x y) with why | z
    · rfl
    · cases z <;> rfl
  | cons x' xs ih =>
    cases ys with
    | nil => cases hlength
    | cons y' ys =>
      simp only [List.cons_append, pairwise]
      rw [ih (Nat.succ.inj hlength), andThen_assoc]

/-- Going through the items of dotted lists and then their tails is going through the items of the
lists with the tails at their ends, one call further inside. -/
theorem pairwise_dotted {compare : Room → Datum → Datum → Outcome Bool} {inner : Room}
    (henter : room.enter 1 = .ok inner) (x y : Datum) :
    (if xs.length = ys.length then
        (room.enter dottedPairsWeight).bind fun inner =>
          andThen (pairwise (compare inner) xs ys) (apartOnFault (compare inner x y))
      else .ok false) =
    if (xs ++ [x]).length = (ys ++ [y]).length then
      (inner.enter pairsWeight).bind fun inner => pairwise (compare inner) (xs ++ [x]) (ys ++ [y])
    else .ok false := by
  have hroom : room.enter dottedPairsWeight = inner.enter pairsWeight := Room.enter_add henter 2
  have hsame : (xs ++ [x]).length = (ys ++ [y]).length ↔ xs.length = ys.length := by simp
  simp only [hroom, hsame]
  split_ifs with hlength
  · simp only [pairwise_append hlength]
  · rfl

/-- A dotted list is compared as the list of its items and its tail. -/
theorem strictlyEqual_dotted {inner : Room} (henter : room.enter 1 = .ok inner) (x y : Datum) :
    strictlyEqual room (.dotted xs x) (.dotted ys y) =
      strictlyEqual inner (.list (xs ++ [x])) (.list (ys ++ [y])) := by
  simp only [strictlyEqual, strictlyEqualAll_eq]
  exact pairwise_dotted henter x y

theorem pairwise_decides {compare : Datum → Datum → Outcome Bool} {R : Datum → Datum → Prop}
    (h : ∀ x ∈ xs, ∀ y ∈ ys, Decides (compare x y) (R x y)) (hlength : xs.length = ys.length) :
    Decides (pairwise compare xs ys) (List.Forall₂ R xs ys) := by
  induction xs generalizing ys with
  | nil =>
    obtain rfl := List.length_eq_zero_iff.mp hlength.symm
    exact .ok (by simp)
  | cons x xs ih =>
    cases ys with
    | nil => cases hlength
    | cons y ys =>
      have hhead := h x (by simp) y (by simp)
      have htail := ih (fun x' hx y' hy => h x' (List.mem_cons_of_mem x hx) y'
        (List.mem_cons_of_mem y hy)) (Nat.succ.inj hlength)
      exact (hhead.apartOnFault.andThen fun _ => htail).congr List.forall₂_cons.symm

theorem sequence_decides {compare : Room → Datum → Datum → Outcome Bool}
    {R : Datum → Datum → Prop} {cost n : Nat} (hroom : room.admits (cost + n) = true)
    (h : ∀ inner : Room, inner.admits n = true → ∀ x ∈ xs, ∀ y ∈ ys,
      Decides (compare inner x y) (R x y)) :
    Decides (if xs.length = ys.length then
        (room.enter cost).bind fun inner => pairwise (compare inner) xs ys
      else .ok false) (List.Forall₂ R xs ys) := by
  have hlength := Decides.ofLength xs ys hroom fun hlength inner hinner =>
    pairwise_decides (h inner hinner) hlength
  exact hlength.congr (and_iff_right_of_imp List.Forall₂.length_eq)

theorem dotted_decides {compare : Room → Datum → Datum → Outcome Bool}
    {R : Datum → Datum → Prop} {x y : Datum} {cost n : Nat}
    (hroom : room.admits (cost + n) = true)
    (h : ∀ inner : Room, inner.admits n = true → ∀ x ∈ xs, ∀ y ∈ ys,
      Decides (compare inner x y) (R x y))
    (htail : ∀ inner : Room, inner.admits n = true → Decides (compare inner x y) (R x y)) :
    Decides (if xs.length = ys.length then
        (room.enter cost).bind fun inner =>
          andThen (pairwise (compare inner) xs ys) (apartOnFault (compare inner x y))
      else .ok false) (List.Forall₂ R xs ys ∧ R x y) := by
  have hlength := Decides.ofLength xs ys hroom fun hlength inner hinner =>
    (pairwise_decides (h inner hinner) hlength).andThen fun _ =>
      (htail inner hinner).apartOnFault
  exact hlength.congr (and_iff_right_of_imp fun hall => hall.1.length_eq)

/-- A datum that is neither a floating-point number nor one of a host. -/
def IsExact : Datum → Prop
  | .float _ | .complex .. | .foreign => False
  | _ => True

def comparisonDepth (d : Datum) : Nat := d.depth pairsWeight dottedPairsWeight dottedPairsWeight

theorem strictlyEqual_decides (ha : a.Throughout IsExact) (b : Datum)
    (hroom : room.admits a.comparisonDepth = true) :
    Decides (strictlyEqual room a b) (a = b) := by
  induction a using induction_on generalizing b room with
  | list xs ih =>
    cases b with
    | list ys =>
      simp only [strictlyEqual, strictlyEqualAll_eq]
      refine (sequence_decides (R := (· = ·)) hroom fun inner hinner x hx y _ => ?_).congr (by simp)
      exact ih x hx (allThroughout_iff.mp ha x hx) y
        (Room.admits_mono hinner (depth_le_depthAll hx))
    | _ => exact .ok (by simp)
  | vector xs ih =>
    cases b with
    | vector ys =>
      simp only [strictlyEqual, strictlyEqualAll_eq]
      refine (sequence_decides (R := (· = ·)) hroom fun inner hinner x hx y _ => ?_).congr (by simp)
      exact ih x hx (allThroughout_iff.mp ha x hx) y
        (Room.admits_mono hinner (depth_le_depthAll hx))
    | _ => exact .ok (by simp)
  | dotted xs x ihhead ihtail =>
    cases b with
    | dotted ys y =>
      rw [comparisonDepth, depth, Nat.add_max_add_left] at hroom
      simp only [strictlyEqual, strictlyEqualAll_eq]
      refine (dotted_decides (R := (· = ·)) hroom (fun inner hinner x' hx y' _ => ?_)
        fun inner hinner => ?_).congr (by simp)
      · exact ihhead x' hx (allThroughout_iff.mp ha.1 x' hx) y'
          (Room.admits_mono (Room.admits_max.mp hinner).1 (depth_le_depthAll hx))
      · exact ihtail ha.2 y (Room.admits_max.mp hinner).2
    | _ => exact .ok (by simp)
  | float | complex | foreign => cases ha
  | _ => cases b <;> exact .ok (by simp)

end

open Primitive in
/-- On exact data `eqv?` gives a truth value, and it is true for a datum and itself and for no two
others, although dotted lists are compared as the lists of their items and tails. So it is an
equivalence, and it tells apart the list, the vector and the dotted list of the same items, and a
truth value and a number. -/
theorem eqv_decides_identity {room : Room} {a b : Datum} (ha : a.Throughout IsExact)
    (hb : b.Throughout IsExact) (haroom : room.admits a.comparisonDepth = true)
    (hbroom : room.admits b.comparisonDepth = true) :
    (∃ x, applyNamed room "eqv?" [a, b] = .ok (.bool x)) ∧
      (applyNamed room "eqv?" [a, b] = .ok (.bool true) ↔ a = b) ∧
      (∀ inner, room.enter 1 = .ok inner → ∀ ds es d e,
        applyNamed room "eqv?" [.dotted ds d, .dotted es e] =
          applyNamed inner "eqv?" [.list (ds ++ [d]), .list (es ++ [e])]) ∧
      applyNamed room "eqv?" [a, a] = .ok (.bool true) ∧
      applyNamed room "eqv?" [a, b] = applyNamed room "eqv?" [b, a] ∧
      (∀ c, applyNamed room "eqv?" [a, b] = .ok (.bool true) →
        applyNamed room "eqv?" [b, c] = .ok (.bool true) →
        applyNamed room "eqv?" [a, c] = .ok (.bool true)) ∧
      (∀ ds d, [Datum.list (ds ++ [d]), .vector (ds ++ [d]), .dotted ds d].Pairwise fun x y =>
        applyNamed room "eqv?" [x, y] = .ok (.bool false) ∧
          applyNamed room "eqv?" [y, x] = .ok (.bool false)) ∧
      ∀ t n, applyNamed room "eqv?" [.bool t, .int n] = .ok (.bool false) ∧
        applyNamed room "eqv?" [.int n, .bool t] = .ok (.bool false) := by
  have heqv (room : Room) (x y : Datum) :
      applyNamed room "eqv?" [x, y] = (x.strictlyEqual room y).map .bool := rfl
  have hab := strictlyEqual_decides ha b haroom
  have hba := strictlyEqual_decides hb a hbroom
  simp only [heqv]
  refine ⟨?_, hab.map_bool_iff, fun inner henter ds es d e => ?_, ?_, ?_, fun c h h' => ?_,
    fun ds d => ?_, fun t n => ?_⟩
  · obtain ⟨x, hx, -⟩ := hab
    exact ⟨x, by rw [hx]; rfl⟩
  · rw [strictlyEqual_dotted henter]
  · exact (strictlyEqual_decides ha a haroom).map_bool_iff.mpr rfl
  · rw [hab.unique (hba.congr eq_comm)]
  · have hsame : a = b := hab.map_bool_iff.mp h
    rw [hsame]
    exact h'
  · simp [strictlyEqual, Except.map]
  · simp [strictlyEqual, Except.map]

open Primitive in
/-- A list in a vector is not the dotted list of the same items, also where it stands beside a
ratio. -/
theorem eqv_decides_identity_vector :
    applyNamed .standard "eqv?" [.vector [.ratio (mkRat 1 2), .dotted [.int 1] (.string "x")],
        .vector [.ratio (mkRat 1 2), .dotted [.int 1] (.string "x")]] = .ok (.bool true) ∧
      applyNamed .standard "eqv?" [.vector [.ratio (mkRat 1 2), .dotted [.int 1] (.string "x")],
        .vector [.ratio (mkRat 1 2), .list [.int 1, .string "x"]]] = .ok (.bool false) := by
  have hdotted : (Datum.vector [.ratio (mkRat 1 2), .dotted [.int 1] (.string "x")]).Throughout
      IsExact := by
    simp [Throughout, AllThroughout, IsExact]
  have hlist : (Datum.vector [.ratio (mkRat 1 2), .list [.int 1, .string "x"]]).Throughout
      IsExact := by
    simp [Throughout, AllThroughout, IsExact]
  have haroom : Room.standard.admits (Datum.vector [.ratio (mkRat 1 2),
      .dotted [.int 1] (.string "x")]).comparisonDepth = true := by decide
  have hbroom : Room.standard.admits (Datum.vector [.ratio (mkRat 1 2),
      .list [.int 1, .string "x"]]).comparisonDepth = true := by decide
  obtain ⟨⟨x, hx⟩, hiff, -, hrefl, -⟩ := eqv_decides_identity hdotted hlist haroom hbroom
  refine ⟨hrefl, ?_⟩
  rw [hx] at hiff ⊢
  have hfalse : x ≠ true := fun h => by simpa using hiff.mp (by rw [h])
  rw [Bool.eq_false_iff.mpr hfalse]

end Datum
end Lisplet
