import Mathlib.Data.Nat.Digits.Defs
import Lisplet.Proofs.SourceReading
import Lisplet.Proofs.WrittenTokens

/-! Numerals of integers and ratios. A numeral is read as just the number that its digits spell in
their base; what is no numeral of the base, or is too long for a decimal one, is a defect. -/
namespace Lisplet
open Lexeme Scan Literal

/-- The character is the digit of a base that has this value. A letter counts in either case. -/
def IsDigitWorth (base : Nat) (c : Char) (v : Nat) : Prop :=
  v < base ∧ c.toLower = Nat.digitChar v

instance (base : Nat) (c : Char) (v : Nat) : Decidable (IsDigitWorth base c v) :=
  inferInstanceAs (Decidable (_ ∧ _))

/-- The digits spell the number in a base, the digit with the greatest weight first. -/
def IsNumeral (base : Nat) (ds : List Char) (n : Nat) : Prop :=
  ∃ vs, List.Forall₂ (IsDigitWorth base) ds vs ∧ n = Nat.ofDigits base vs.reverse

structure FitsBase (base : Nat) (alphabet ds : List Char) : Prop where
  ne_nil : ds ≠ []
  subset : ∀ c ∈ ds, c ∈ alphabet
  short : base = 10 → ds.length ≤ digitLimit

section
variable {base : Nat} {letter c : Char} {alphabet ds num den rest : List Char}
  {n m v : Nat}

theorem positional_eq_ofDigits (base : Nat) (vs : List Nat) :
    positional base vs = Nat.ofDigits base vs.reverse := by
  induction vs using List.reverseRecOn with
  | nil => rfl
  | append_singleton vs v ih =>
    rw [positional_append_singleton, ih, List.reverse_append, List.reverse_singleton,
      List.singleton_append, Nat.ofDigits_cons, Nat.add_comm]

theorem toLower_of_le_toNat (h : 128 ≤ c.toNat) : c.toLower = c := by
  have hupper : ¬ (c.val ≥ 'A'.val ∧ c.val ≤ 'Z'.val) := by
    rintro ⟨-, hbound⟩
    have hbound : c.toNat ≤ 90 := hbound
    omega
  exact dif_neg hupper

theorem toNat_lt_of_isDigitWorth (hbase : base ≤ 16) (h : IsDigitWorth base c v) :
    c.toNat < 128 := by
  obtain ⟨hv, hc⟩ := h
  -- Beyond ASCII a character is its own small letter, so it would have to be a digit itself.
  by_contra hbound
  have hsmall : ∀ v < 16, (Nat.digitChar v).toNat < 128 := by decide
  have hlt := hsmall v (by omega)
  rw [← hc, toLower_of_le_toNat (by omega)] at hlt
  exact hbound hlt

theorem base_bounds (h : (letter, base, alphabet) ∈ radixDigits) : 1 < base ∧ base ≤ 16 := by
  have hall : ∀ r ∈ radixDigits, 1 < r.2.1 ∧ r.2.1 ≤ 16 := by decide
  exact hall _ h

theorem isDigitWorth_iff (h : (letter, base, alphabet) ∈ radixDigits) :
    IsDigitWorth base c v ↔ c ∈ alphabet ∧ digitValue c = v := by
  constructor
  · rintro ⟨hv, hlower⟩
    have hbase := (base_bounds h).2
    have hc := toNat_lt_of_isDigitWorth hbase ⟨hv, hlower⟩
    have hdigit : ∀ v < 16, (Nat.digitChar v).isAlphanum = true ∧
        digitValue (Nat.digitChar v) = v := by decide
    obtain ⟨hsmall, hvalue⟩ := hdigit v (by omega)
    rw [← hlower] at hsmall hvalue
    -- A letter is worth what its small letter is.
    obtain ⟨halnum, hsame⟩ := ascii_induction (P := fun c => c.toLower.isAlphanum = true →
      c.isAlphanum = true ∧ digitValue c = digitValue c.toLower) (by decide) hc hsmall
    have hworth : digitValue c = v := hsame.trans hvalue
    refine ⟨(isDigitOf_iff h).mp ?_, hworth⟩
    rw [isDigitOf, halnum, hworth, Bool.true_and, decide_eq_true_eq]
    exact hv
  · rintro ⟨hc, rfl⟩
    have hall : ∀ r ∈ radixDigits,
        (r.2.2.all fun c => IsDigitWorth r.2.1 c (digitValue c)) = true := by decide
    exact of_decide_eq_true (List.all_eq_true.mp (hall _ h) c hc)

theorem isNumeral_iff (h : (letter, base, alphabet) ∈ radixDigits) :
    IsNumeral base ds n ↔
      (∀ c ∈ ds, c ∈ alphabet) ∧ n = positional base (ds.map digitValue) := by
  have hworth : IsDigitWorth base = fun c v => c ∈ alphabet ∧ digitValue c = v := by
    funext c v
    exact propext (isDigitWorth_iff h)
  have hdigits : ∀ vs, List.Forall₂ (IsDigitWorth base) ds vs ↔
      (∀ c ∈ ds, c ∈ alphabet) ∧ ds.map digitValue = vs := by
    intro vs
    rw [hworth, List.forall₂_and_left, ← List.forall₂_map_left_iff, List.forall₂_eq_eq_eq]
  simp only [IsNumeral, hdigits, positional_eq_ofDigits]
  constructor
  · rintro ⟨vs, ⟨hds, rfl⟩, hn⟩
    exact ⟨hds, hn⟩
  · rintro ⟨hds, hn⟩
    exact ⟨_, ⟨hds, rfl⟩, hn⟩

theorem exists_toDigits_eq (hbase : 1 < base) (n : Nat) :
    ∃ vs : List Nat, (∀ v ∈ vs, v < base) ∧ Nat.toDigits base n = vs.map Nat.digitChar ∧
      Nat.ofDigits base vs.reverse = n := by
  induction n using Nat.strong_induction_on with
  | _ n ih =>
    by_cases hn : n < base
    · exact ⟨[n], by simpa using hn, Nat.toDigits_of_lt_base hn, Nat.ofDigits_singleton⟩
    · have hle : base ≤ n := Nat.le_of_not_lt hn
      obtain ⟨vs, hvs, hdigits, hvalue⟩ := ih (n / base) (Nat.div_lt_self (by omega) hbase)
      refine ⟨vs ++ [n % base], ?_, ?_, ?_⟩
      · have hlast : n % base < base := Nat.mod_lt _ (by omega)
        simpa [or_imp, forall_and] using ⟨hvs, hlast⟩
      · rw [Nat.toDigits_of_base_le hbase hle, hdigits, List.map_append, List.map_singleton]
      · rw [List.reverse_append, List.reverse_singleton, List.singleton_append, Nat.ofDigits_cons,
          hvalue, Nat.mod_add_div]

theorem isNumeral_of_toLower (hbase : 1 < base) {zeros : Nat}
    (h : ds.map Char.toLower = List.replicate zeros '0' ++ Nat.toDigits base n) :
    IsNumeral base ds n := by
  obtain ⟨vs, hvs, hdigits, rfl⟩ := exists_toDigits_eq hbase n
  refine ⟨List.replicate zeros 0 ++ vs, ?_, ?_⟩
  · have hzeros : List.replicate zeros '0' = (List.replicate zeros 0).map Nat.digitChar := by
      rw [List.map_replicate]
      rfl
    rw [hdigits, hzeros, ← List.map_append, ← List.forall₂_eq_eq_eq, List.forall₂_map_left_iff,
      List.forall₂_map_right_iff] at h
    have hsmall : ∀ v ∈ List.replicate zeros 0 ++ vs, v < base := by
      intro v hv
      rcases List.mem_append.mp hv with hv | hv
      · rw [List.eq_of_mem_replicate hv]
        omega
      · exact hvs v hv
    exact (List.forall₂_iff_zip.mpr ⟨h.length_eq, fun {c v} hcv =>
      ⟨hsmall v (List.of_mem_zip hcv).2, (List.forall₂_zip h hcv)⟩⟩)
  · rw [List.reverse_append, List.reverse_replicate, Nat.ofDigits_append_replicate_zero]

theorem fitsBase_of_toLower (h : (letter, base, alphabet) ∈ radixDigits) {zeros : Nat}
    (hds : ds.map Char.toLower = List.replicate zeros '0' ++ Nat.toDigits base n)
    (hshort : base = 10 → ds.length ≤ digitLimit) : FitsBase base alphabet ds where
  ne_nil := by
    rintro rfl
    have hnil := (List.append_eq_nil_iff.mp hds.symm).2
    exact Nat.toDigits_ne_nil hnil
  subset := ((isNumeral_iff h).mp (isNumeral_of_toLower (base_bounds h).1 hds)).1
  short := hshort

theorem isAlphanum_of_mem_alphabet (h : (letter, base, alphabet) ∈ radixDigits)
    (hc : c ∈ alphabet) : c.isAlphanum = true := by
  have hall : ∀ r ∈ radixDigits, r.2.2.all Char.isAlphanum = true := by decide
  exact List.all_eq_true.mp (hall _ h) c hc

theorem mem_decimal_of_isDigit (h : c.isDigit = true) : c ∈ "0123456789".toList :=
  ascii_induction (P := fun c => c.isDigit = true → c ∈ "0123456789".toList) (by decide)
    (toNat_lt_of_isDigit h) h

theorem isNumeral_decimal (h : ds ∈ digits) : IsNumeral 10 ds n ↔ n = decimalValue ds := by
  have hten : ('d', 10, "0123456789".toList) ∈ radixDigits := by decide
  rw [isNumeral_iff hten, decimalValue, and_iff_right]
  exact fun c hc => mem_decimal_of_isDigit ((mem_digits.mp h).2 c hc)

theorem decimalValue_eq_zero_iff (h : ds ∈ digits) : decimalValue ds = 0 ↔ ∀ c ∈ ds, c = '0' := by
  rw [decimalValue, positional_eq_ofDigits]
  constructor
  · intro hzero c hc
    have hvalue : digitValue c = 0 :=
      Nat.digits_zero_of_eq_zero (by decide) hzero _
        (List.mem_reverse.mpr (List.mem_map_of_mem hc))
    exact ascii_induction (P := fun c => c.isDigit = true → digitValue c = 0 → c = '0')
      (by decide) (toNat_lt_of_isDigit ((mem_digits.mp h).2 c hc)) ((mem_digits.mp h).2 c hc) hvalue
  · intro hall
    have hzeros : ds.map digitValue = List.replicate ds.length 0 := by
      rw [List.eq_replicate_of_mem hall, List.map_replicate, List.length_replicate]
      rfl
    rw [hzeros, List.reverse_replicate]
    exact Nat.ofDigits_append_replicate_zero []

/-- Behind a letter for a base, all ASCII letters and digits that follow are in the token. -/
theorem lex_radix (h : (letter, base, alphabet) ∈ radixDigits)
    (hds : ∀ c ∈ ds, c.isAlphanum = true) (hrest : Stops Char.isAlphanum rest) :
    '#' :: letter :: ds ∈ Kind.radix.language ∧
      lex ('#' :: letter :: (ds ++ rest)) = ⟨.radix, '#' :: letter :: ds⟩ :: lex rest := by
  have hletters : ∀ r ∈ radixDigits, r.1 = 'd' ∨ r.1 = 'b' ∨ r.1 = 'o' ∨ r.1 = 'x' := by decide
  have hmem : '#' :: letter :: ds ∈ Kind.radix.language :=
    mem_radix.mpr ⟨letter, ds, hletters _ h, hds, rfl⟩
  refine ⟨hmem, lex_append_of_longest hmem fun k hk v hv hfront => ?_⟩
  obtain rfl := eq_of_family_eq hk (by decide)
  obtain ⟨letter', ds', -, hds', rfl⟩ := mem_radix.mp hv
  obtain ⟨-, hfront⟩ := List.cons_prefix_cons.mp hfront
  obtain ⟨-, hfront⟩ := List.cons_prefix_cons.mp hfront
  simpa using length_le_of_stops hds' hrest hfront

theorem readsJust_radix (room : Room) (h : (letter, base, alphabet) ∈ radixDigits)
    (hds : ∀ c ∈ ds, c.isAlphanum = true) (hrest : Stops Char.isAlphanum rest) :
    ReadsJust room ('#' :: letter :: (ds ++ rest)) fun d =>
      FitsBase base alphabet ds ∧ ∃ n : Nat, IsNumeral base ds n ∧ d = .int n := by
  obtain ⟨hmem, hlex⟩ := lex_radix h hds hrest
  refine (readsJust_of_converts hlex hmem rfl (radix_converts h)).congr fun d => ?_
  constructor
  · rintro ⟨hne, hsubset, hshort, rfl⟩
    exact ⟨⟨hne, hsubset, hshort⟩, _, (isNumeral_iff h).mpr ⟨hsubset, rfl⟩, rfl⟩
  · rintro ⟨⟨hne, hsubset, hshort⟩, n, hn, rfl⟩
    obtain ⟨-, rfl⟩ := (isNumeral_iff h).mp hn
    exact ⟨hne, hsubset, hshort, rfl⟩

theorem readsJust_integer (room : Room) (h : ds ∈ digits) :
    ReadsJust room ds fun d =>
      ds.length ≤ digitLimit ∧ ∃ n : Nat, IsNumeral 10 ds n ∧ d = .int n := by
  have hlex : lex ds = ⟨.integer, ds⟩ :: lex [] := by
    simpa using lex_append_of_ends (k := .integer) h (by decide) ends_nil
  refine (readsJust_of_converts hlex h rfl ((integer_converts h).map Datum.int)).congr fun d => ?_
  simp [isNumeral_decimal h]

theorem num_mkRat_mul (n : Int) (hm : m ≠ 0) : (mkRat n m).num * m = n * (mkRat n m).den :=
  (Rat.mkRat_eq_iff (mkRat n m).den_nz hm).mp (Rat.mkRat_self _)

theorem readsJust_ratio (room : Room) (hnum : num ∈ digits) (hden : den ∈ digits) :
    ReadsJust room (num ++ '/' :: den) fun d =>
      num.length ≤ digitLimit ∧ den.length ≤ digitLimit ∧ decimalValue den ≠ 0 ∧
        d = .ratio (mkRat (decimalValue num) (decimalValue den)) := by
  have hmem : num ++ '/' :: den ∈ Kind.ratio.language :=
    mem_digitsAround.mpr ⟨num, hnum, den, hden, rfl⟩
  have hlex : lex (num ++ '/' :: den) = ⟨.ratio, num ++ '/' :: den⟩ :: lex [] := by
    simpa using lex_append_of_ends hmem (by decide) ends_nil
  exact readsJust_of_converts hlex hmem rfl (ratio_converts hnum hden)

end

/-- A numeral is read as the number that its digits spell, two of them around a slash as their
quotient in lowest terms. What follows the letter of a base and is no numeral of the base, a zero
denominator and too long a run of decimal digits are reported at the first character. So a number
that is written in a base is read back, also with zeros in front and with letters of either case. -/
theorem numerals_denote_values (room : Room) :
    (∀ letter base alphabet, (letter, base, alphabet) ∈ radixDigits →
      ∀ ds rest, (∀ c ∈ ds, c.isAlphanum = true) → Stops Char.isAlphanum rest →
        (FitsBase base alphabet ds → ∃ n : Nat, IsNumeral base ds n ∧
          read room ('#' :: letter :: (ds ++ rest)) = .ok (.int n)) ∧
        (¬ FitsBase base alphabet ds → DefectAtStart room ('#' :: letter :: (ds ++ rest)))) ∧
    (∀ num ∈ digits,
      (num.length ≤ digitLimit → ∃ n : Nat, IsNumeral 10 num n ∧ read room num = .ok (.int n)) ∧
      (digitLimit < num.length → DefectAtStart room num)) ∧
    (∀ num ∈ digits, ∀ den ∈ digits,
      (num.length ≤ digitLimit → den.length ≤ digitLimit →
        (DefectAtStart room (num ++ '/' :: den) ↔ ∀ c ∈ den, c = '0') ∧
        ((¬ ∀ c ∈ den, c = '0') → ∃ (n m : Nat) (q : Rat), IsNumeral 10 num n ∧
          IsNumeral 10 den m ∧ read room (num ++ '/' :: den) = .ok (.ratio q) ∧
          m ≠ 0 ∧ q.num * m = n * q.den ∧ 0 < q.den ∧ q.num.natAbs.Coprime q.den)) ∧
      (digitLimit < num.length ∨ digitLimit < den.length →
        DefectAtStart room (num ++ '/' :: den))) ∧
    (∀ letter base alphabet, (letter, base, alphabet) ∈ radixDigits → ∀ n zeros ds,
      ds.map Char.toLower = List.replicate zeros '0' ++ Nat.toDigits base n →
      (base = 10 → ds.length ≤ digitLimit) →
        read room ('#' :: letter :: ds) = .ok (.int n)) ∧
    ∀ n, (Nat.toDigits 10 n).length ≤ digitLimit →
      read room (Nat.toDigits 10 n) = .ok (.int n) := by
  refine ⟨fun letter base alphabet hbase ds rest hds hrest => ⟨fun hfits => ?_, fun hnot => ?_⟩,
    fun num hnum => ⟨fun hshort => ?_, fun hlong => ?_⟩,
    fun num hnum den hden => ⟨fun hshort hshort' => ⟨?_, fun hzero => ?_⟩, fun hlong => ?_⟩,
    fun letter base alphabet hbase n zeros ds hds hshort => ?_, fun n hshort => ?_⟩
  · have hnumeral := (isNumeral_iff hbase).mpr ⟨hfits.subset, rfl⟩
    have hread := readsJust_radix room hbase hds hrest
    exact ⟨_, hnumeral, (hread.ok_iff _).mpr ⟨hfits, _, hnumeral, rfl⟩⟩
  · exact (readsJust_radix room hbase hds hrest).defect fun d hd => hnot hd.1
  · have hnumeral := (isNumeral_decimal hnum).mpr rfl
    exact ⟨_, hnumeral, ((readsJust_integer room hnum).ok_iff _).mpr ⟨hshort, _, hnumeral, rfl⟩⟩
  · exact (readsJust_integer room hnum).defect fun d hd => absurd hd.1 (Nat.not_le.mpr hlong)
  · rw [(readsJust_ratio room hnum hden).defectAtStart_iff, ← decimalValue_eq_zero_iff hden]
    constructor
    · intro hnone
      by_contra hzero
      exact hnone _ ⟨hshort, hshort', hzero, rfl⟩
    · rintro hzero d ⟨-, -, hne, -⟩
      exact hne hzero
  · rw [← decimalValue_eq_zero_iff hden] at hzero
    have hread := ((readsJust_ratio room hnum hden).ok_iff _).mpr
      ⟨hshort, hshort', hzero, rfl⟩
    exact ⟨_, _, _, (isNumeral_decimal hnum).mpr rfl, (isNumeral_decimal hden).mpr rfl, hread,
      hzero, num_mkRat_mul _ hzero, Rat.den_pos _, Rat.reduced _⟩
  · refine (readsJust_ratio room hnum hden).defect fun d hd => ?_
    have hnumShort := hd.1
    have hdenShort := hd.2.1
    omega
  · have hfits := fitsBase_of_toLower hbase hds hshort
    have hnumeral := isNumeral_of_toLower (base_bounds hbase).1 hds
    have hread := readsJust_radix room hbase
      (fun c hc => isAlphanum_of_mem_alphabet hbase (hfits.subset c hc)) stops_nil
    simpa using (hread.ok_iff _).mpr ⟨hfits, n, hnumeral, rfl⟩
  · have hdigits := toDigits_mem_digits n
    refine ((readsJust_integer room hdigits).ok_iff _).mpr ⟨hshort, n, ?_, rfl⟩
    rw [isNumeral_decimal hdigits, decimalValue_toDigits]

/-- A numeral before a bracket, one with a digit that its base has not, a ratio that can be reduced,
one over zero, and a decimal numeral of one digit too many. -/
theorem numerals_denote_values_mixed :
    (∃ n : Nat, IsNumeral 16 "0fF".toList n ∧ read .standard "#x0fF)".toList = .ok (.int n)) ∧
      DefectAtStart .standard "#b12 ".toList ∧
      read .standard "#x0fF".toList = .ok (.int 255) ∧
      read .standard "255".toList = .ok (.int 255) ∧
      (∃ (n m : Nat) (q : Rat), IsNumeral 10 "06".toList n ∧ IsNumeral 10 "4".toList m ∧
        read .standard "06/4".toList = .ok (.ratio q) ∧ m ≠ 0 ∧ q.num * m = n * q.den ∧
        0 < q.den ∧ q.num.natAbs.Coprime q.den) ∧
      DefectAtStart .standard "1/00".toList ∧
      DefectAtStart .standard (List.replicate (digitLimit + 1) '1') := by
  obtain ⟨hradix, hinteger, hratio, hback, hdecimal⟩ := numerals_denote_values .standard
  have hx : ('x', 16, "0123456789abcdefABCDEF".toList) ∈ radixDigits := by decide
  have hb : ('b', 2, "01".toList) ∈ radixDigits := by decide
  have hfits : FitsBase 16 "0123456789abcdefABCDEF".toList "0fF".toList :=
    ⟨by simp, by simp, by simp⟩
  have hmisfits : ¬ FitsBase 2 "01".toList "12".toList := fun h =>
    absurd (h.subset '2' (by simp)) (by simp)
  have hshort : ∀ ds : List Char, ds.length < 10 → ds.length ≤ digitLimit := by
    intro ds hds
    exact hds.le.trans (by decide)
  have hsix : "06".toList ∈ digits := mem_digits.mpr (by simp)
  have hfour : "4".toList ∈ digits := mem_digits.mpr (by simp)
  have hone : "1".toList ∈ digits := mem_digits.mpr (by simp)
  have hzero : "00".toList ∈ digits := mem_digits.mpr (by simp)
  have hlong : List.replicate (digitLimit + 1) '1' ∈ digits :=
    mem_digits.mpr ⟨by simp, fun c hc => by rw [List.eq_of_mem_replicate hc]; decide⟩
  refine ⟨?_, ?_, ?_, ?_, ?_, ?_, ?_⟩
  · exact (hradix _ _ _ hx "0fF".toList [')'] (by simp) (stops_cons.mpr (by decide))).1 hfits
  · exact (hradix _ _ _ hb "12".toList [' '] (by simp) (stops_cons.mpr (by decide))).2 hmisfits
  · exact hback _ _ _ hx 255 1 "0fF".toList (by decide) (by decide)
  · exact hdecimal 255 (hshort _ (by decide))
  · exact ((hratio _ hsix _ hfour).1 (hshort _ (by decide)) (hshort _ (by decide))).2 (by simp)
  · exact ((hratio _ hone _ hzero).1 (hshort _ (by decide)) (hshort _ (by decide))).1.mpr
      (by simp)
  · exact (hinteger _ hlong).2 (by simp)

end Lisplet
