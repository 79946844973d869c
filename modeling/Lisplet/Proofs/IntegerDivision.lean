import Lisplet.Proofs.IntegerFold
import Mathlib.Algebra.Order.Group.Unbundled.Int
import Mathlib.Algebra.Order.Ring.Abs
import Mathlib.Tactic.Linarith

/-! The two ways to divide integers. A quotient that is rounded down leaves a remainder with the
sign of the divisor, one that is rounded toward zero a remainder with that of the dividend. There
is one such division each, so the two are the same where these signs are, or nothing remains, and
differ by one in the quotient elsewhere. -/
namespace Lisplet

/-- A division of `n` by `d`. The remainder is smaller than the divisor; it is zero or has the sign
of `s`. -/
structure IsDivision (s n d q r : Int) : Prop where
  eq : n = d * q + r
  sign : r = 0 ∨ r.sign = s.sign
  small : |r| < |d|

section
variable {s n d q r q' r' : Int}

namespace IsDivision

theorem nonneg (h : IsDivision s n d q r) (hs : 0 ≤ s) : 0 ≤ r := by
  rcases h.sign with hr | hr
  · exact hr.ge
  · rw [← Int.sign_nonneg_iff, hr]
    exact Int.sign_nonneg_iff.mpr hs

theorem nonpos (h : IsDivision s n d q r) (hs : s ≤ 0) : r ≤ 0 := by
  rcases h.sign with hr | hr
  · exact hr.le
  · rw [← Int.sign_nonpos_iff, hr]
    exact Int.sign_nonpos_iff.mpr hs

theorem of_nonneg (heq : n = d * q + r) (hs : 0 < s) (hr : 0 ≤ r) (hsmall : |r| < |d|) :
    IsDivision s n d q r := by
  refine ⟨heq, ?_, hsmall⟩
  rcases hr.eq_or_lt with hzero | hpos
  · exact .inl hzero.symm
  · exact .inr (by rw [Int.sign_eq_one_of_pos hpos, Int.sign_eq_one_of_pos hs])

theorem of_nonpos (heq : n = d * q + r) (hs : s < 0) (hr : r ≤ 0) (hsmall : |r| < |d|) :
    IsDivision s n d q r := by
  refine ⟨heq, ?_, hsmall⟩
  rcases hr.eq_or_lt with hzero | hneg
  · exact .inl hzero
  · exact .inr (by rw [Int.sign_eq_neg_one_of_neg hneg, Int.sign_eq_neg_one_of_neg hs])

/-- Remainders on one side of zero differ by less than the divisor, and by a multiple of it. -/
theorem unique (h : IsDivision s n d q r) (h' : IsDivision s n d q' r') : q = q' ∧ r = r' := by
  have hclose : |r - r'| < |d| := by
    have hsmall := h.small
    have hsmall' := h'.small
    rcases Int.le_total 0 s with hs | hs
    · have hr := h.nonneg hs
      have hr' := h'.nonneg hs
      rw [abs_of_nonneg hr] at hsmall
      rw [abs_of_nonneg hr'] at hsmall'
      exact abs_lt.mpr ⟨by omega, by omega⟩
    · have hr := h.nonpos hs
      have hr' := h'.nonpos hs
      rw [abs_of_nonpos hr] at hsmall
      rw [abs_of_nonpos hr'] at hsmall'
      exact abs_lt.mpr ⟨by omega, by omega⟩
  have hmultiple : r - r' = d * (q' - q) := by
    rw [Int.mul_sub]
    linarith [h.eq, h'.eq]
  have hr : r - r' = 0 :=
    Int.eq_zero_of_abs_lt_dvd ((abs_dvd d _).mpr ⟨_, hmultiple⟩) hclose
  have hd : d ≠ 0 := by
    rintro rfl
    exact absurd h.small (by simp)
  rw [hr, eq_comm, mul_eq_zero, or_iff_right hd] at hmultiple
  exact ⟨(Int.sub_eq_zero.mp hmultiple).symm, Int.sub_eq_zero.mp hr⟩

end IsDivision

theorem isDivision_fdiv (hd : d ≠ 0) (n : Int) : IsDivision d n d (n.fdiv d) (n.fmod d) := by
  have heq := (Int.mul_fdiv_add_fmod n d).symm
  rcases lt_or_gt_of_ne hd with hneg | hpos
  · obtain ⟨-, hlow, hhigh⟩ := (Int.fdiv_fmod_unique' hneg).mp ⟨rfl, rfl⟩
    refine .of_nonpos heq hneg hhigh ?_
    rw [abs_of_nonpos hhigh, abs_of_neg hneg]
    exact Int.neg_lt_neg hlow
  · obtain ⟨-, hlow, hhigh⟩ := (Int.fdiv_fmod_unique hpos).mp ⟨rfl, rfl⟩
    refine .of_nonneg heq hpos hlow ?_
    rwa [abs_of_nonneg hlow, abs_of_pos hpos]

theorem remainderToZero_eq (n d : Int) :
    remainderToZero n d =
      if n < 0 then -((n.natAbs % d.natAbs : Nat) : Int)
      else ((n.natAbs % d.natAbs : Nat) : Int) := by
  have hsize : (d.natAbs : Int) * (n.natAbs / d.natAbs : Nat) + (n.natAbs % d.natAbs : Nat) =
      n.natAbs := by
    exact_mod_cast Nat.div_add_mod n.natAbs d.natAbs
  rw [remainderToZero, quotientToZero_eq_ite]
  generalize n.natAbs / d.natAbs = q at hsize ⊢
  generalize n.natAbs % d.natAbs = r at hsize ⊢
  by_cases hn : n < 0 <;> by_cases hd : d < 0
  · rw [if_pos (iff_of_true hn hd), if_pos hn]
    rw [Int.ofNat_natAbs_of_nonpos hn.le, Int.ofNat_natAbs_of_nonpos hd.le] at hsize
    linarith
  · rw [if_neg (by simp [hn, hd]), if_pos hn]
    rw [Int.ofNat_natAbs_of_nonpos hn.le, Int.natAbs_of_nonneg (not_lt.mp hd)] at hsize
    linarith
  · rw [if_neg (by simp [hn, hd]), if_neg hn]
    rw [Int.natAbs_of_nonneg (not_lt.mp hn), Int.ofNat_natAbs_of_nonpos hd.le] at hsize
    linarith
  · rw [if_pos (iff_of_false hn hd), if_neg hn]
    rw [Int.natAbs_of_nonneg (not_lt.mp hn), Int.natAbs_of_nonneg (not_lt.mp hd)] at hsize
    linarith

theorem isDivision_quotientToZero (hd : d ≠ 0) (n : Int) :
    IsDivision n n d (quotientToZero n d) (remainderToZero n d) := by
  have heq : n = d * quotientToZero n d + remainderToZero n d := by
    rw [remainderToZero]
    exact (add_sub_cancel _ _).symm
  have hlt : ((n.natAbs % d.natAbs : Nat) : Int) < |d| := by
    rw [Int.abs_eq_natAbs]
    exact_mod_cast Nat.mod_lt _ (Int.natAbs_pos.mpr hd)
  have hr := remainderToZero_eq n d
  rcases lt_trichotomy n 0 with hneg | hzero | hpos
  · rw [if_pos hneg] at hr
    refine .of_nonpos heq hneg (by omega) ?_
    rwa [hr, abs_neg, Int.abs_natCast]
  · subst hzero
    simp only [lt_irrefl, if_false, Int.natAbs_zero, Nat.zero_mod, Nat.cast_zero] at hr
    exact ⟨heq, .inl hr, by rw [hr]; simpa using hd⟩
  · rw [if_neg hpos.not_gt] at hr
    refine .of_nonneg heq hpos (by omega) ?_
    rwa [hr, Int.abs_natCast]

theorem IsDivision.toward_zero_of_sign (h : IsDivision d n d q r)
    (hsign : r = 0 ∨ n.sign = d.sign) : IsDivision n n d q r := by
  refine ⟨h.eq, ?_, h.small⟩
  rcases hsign with hzero | hsame
  · exact .inl hzero
  · rw [hsame]
    exact h.sign

/-- Elsewhere one divisor more goes toward zero, and the remainder passes to the other side. -/
theorem IsDivision.toward_zero_of_not_sign (h : IsDivision d n d q r)
    (hsign : ¬ (r = 0 ∨ n.sign = d.sign)) : IsDivision n n d (q + 1) (r - d) := by
  obtain ⟨hr, hother⟩ := not_or.mp hsign
  have hn : n ≠ 0 := by
    rintro rfl
    have hnone : IsDivision d 0 d 0 0 := ⟨by simp, .inl rfl, (abs_nonneg r).trans_lt h.small⟩
    exact hr (h.unique hnone).2
  have heq : n = d * (q + 1) + (r - d) := by
    rw [Int.mul_add, Int.mul_one]
    linarith [h.eq]
  have hsmall := h.small
  rcases Int.le_total 0 d with hd | hd
  · have hrnonneg := h.nonneg hd
    rw [abs_of_nonneg hrnonneg, abs_of_nonneg hd] at hsmall
    have hneg : n < 0 := by
      by_contra hnot
      refine hother ?_
      rw [Int.sign_eq_one_of_pos (by omega), Int.sign_eq_one_of_pos (by omega)]
    refine .of_nonpos heq hneg (by omega) ?_
    rw [abs_of_nonneg hd, abs_of_nonpos (by omega)]
    omega
  · have hrnonpos := h.nonpos hd
    rw [abs_of_nonpos hrnonpos, abs_of_nonpos hd] at hsmall
    have hpos : 0 < n := by
      by_contra hnot
      refine hother ?_
      rw [Int.sign_eq_neg_one_of_neg (by omega), Int.sign_eq_neg_one_of_neg (by omega)]
    refine .of_nonneg heq hpos (by omega) ?_
    rw [abs_of_nonpos hd, abs_of_nonneg (by omega)]
    omega

end

namespace Datum
open Primitive

theorem evaluate_call_division {room : Room} {name : String} {op : Arithmetic}
    (hname : ofName? name = some (.fold op)) (hroom : room.admits evaluationWeight = true)
    (n : Int) {d : Int} (hd : d ≠ 0) :
    (call name [.int n, .int d]).evaluate room = .ok (.int (op.value n d)) := by
  have heval := eval_call_integers hname hroom n d []
  rw [Arithmetic.foldlM_apply, if_neg (by simp [hd.symm])] at heval
  exact evaluate_eq_ok_iff.mpr heval

end Datum

open Datum Primitive in
/-- Dividing by a number that is not zero gives a quotient and a remainder in either way, and they are
the only ones with a small remainder of the sign of the divisor, or of the dividend. The two ways
agree where nothing remains or these signs are the same. Elsewhere the quotient toward zero is
greater by one and its remainder is smaller by the divisor. -/
theorem quotients_and_remainders {room : Room} (hroom : room.admits evaluationWeight = true)
    (n : Int) {d : Int} (hd : d ≠ 0) :
    ∃ f m q r : Int,
      (call "/" [.int n, .int d]).evaluate room = .ok (.int f) ∧
      (call "mod" [.int n, .int d]).evaluate room = .ok (.int m) ∧
      (call "quotient" [.int n, .int d]).evaluate room = .ok (.int q) ∧
      (call "remainder" [.int n, .int d]).evaluate room = .ok (.int r) ∧
      (∀ f' m', IsDivision d n d f' m' ↔ f' = f ∧ m' = m) ∧
      (∀ q' r', IsDivision n n d q' r' ↔ q' = q ∧ r' = r) ∧
      (m = 0 ∨ n.sign = d.sign → q = f ∧ r = m) ∧
      (¬ (m = 0 ∨ n.sign = d.sign) → q = f + 1 ∧ r = m - d) := by
  have hdown := isDivision_fdiv hd n
  have hzero := isDivision_quotientToZero hd n
  have hf : ofName? "/" = some (.fold .divDown) := rfl
  have hm : ofName? "mod" = some (.fold .modDown) := rfl
  have hq : ofName? "quotient" = some (.fold .divToZero) := rfl
  have hr : ofName? "remainder" = some (.fold .modToZero) := rfl
  refine ⟨n.fdiv d, n.fmod d, quotientToZero n d, remainderToZero n d,
    evaluate_call_division hf hroom n hd, evaluate_call_division hm hroom n hd,
    evaluate_call_division hq hroom n hd, evaluate_call_division hr hroom n hd, ?_, ?_,
    fun hsign => hzero.unique (hdown.toward_zero_of_sign hsign),
    fun hsign => hzero.unique (hdown.toward_zero_of_not_sign hsign)⟩
  · refine fun f' m' => ⟨fun h => h.unique hdown, ?_⟩
    rintro ⟨rfl, rfl⟩
    exact hdown
  · refine fun q' r' => ⟨fun h => h.unique hzero, ?_⟩
    rintro ⟨rfl, rfl⟩
    exact hzero

open Datum in
/-- Seven by minus two: rounded down it is minus four, and minus one remains. -/
theorem quotients_and_remainders_seven :
    ∃ q r : Int, (call "quotient" [.int 7, .int (-2)]).evaluate .standard = .ok (.int q) ∧
      (call "remainder" [.int 7, .int (-2)]).evaluate .standard = .ok (.int r) ∧
      q = -4 + 1 ∧ r = -1 - -2 := by
  have hroom : Room.standard.admits evaluationWeight = true := rfl
  have hd : (-2 : Int) ≠ 0 := by decide
  obtain ⟨f, m, q, r, -, -, hq, hr, hdown, -, -, hother⟩ := quotients_and_remainders hroom 7 hd
  have hseven : IsDivision (-2) 7 (-2) (-4) (-1) := ⟨by decide, .inr (by decide), by decide⟩
  obtain ⟨rfl, rfl⟩ := (hdown (-4) (-1)).mp hseven
  exact ⟨q, r, hq, hr, hother (by decide)⟩

end Lisplet
