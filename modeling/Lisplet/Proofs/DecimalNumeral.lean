import Lisplet.Number
import Lisplet.Proofs.Lexeme

/-! Runs of ASCII digits as numerals: every reader takes them for the number that they spell in
decimal, up to the limit on their length, and they are what an integer is written with. -/
namespace Lisplet
open Lexeme Scan

def decimalValue (ds : List Char) : Nat := positional 10 (ds.map digitValue)

section
variable {c : Char} {ds cs rest : List Char}

theorem digitOfScript?_of_isDigit (h : c.isDigit = true) :
    digitOfScript? c = some (digitValue c) := by
  simp [digitOfScript?, digitValue, h]

theorem decimalValue_eq_ofDigitChars (h : ∀ c ∈ ds, c.isDigit = true) :
    decimalValue ds = Nat.ofDigitChars 10 ds 0 := by
  rw [decimalValue, positional, Nat.ofDigitChars_eq_foldl, List.foldl_map]
  refine List.foldl_ext _ _ _ fun n c hc => ?_
  simp [digitValue, h c hc]

theorem isDigit_of_mem_toDigits {n : Nat} (hc : c ∈ Nat.toDigits 10 n) : c.isDigit = true :=
  Nat.isDigit_of_mem_toDigits (by decide) (by decide) hc

theorem toDigits_mem_digits (n : Nat) : Nat.toDigits 10 n ∈ digits :=
  mem_digits.mpr ⟨Nat.toDigits_ne_nil, fun _ => isDigit_of_mem_toDigits⟩

theorem decimalValue_toDigits (n : Nat) : decimalValue (Nat.toDigits 10 n) = n := by
  rw [decimalValue_eq_ofDigitChars fun _ => isDigit_of_mem_toDigits]
  exact Nat.ofDigitChars_ten_toDigits

theorem isNumeralBlank_of_isDigit (h : c.isDigit = true) : isNumeralBlank c = false := by
  simp [isNumeralBlank, isBlank_of_isDigit h]

theorem splitSign_of_isDigit (h : c.isDigit = true) : splitSign (c :: cs) = (false, c :: cs) := by
  have hminus : c ≠ '-' := by
    rintro rfl
    exact absurd h (by decide)
  have hplus : c ≠ '+' := by
    rintro rfl
    exact absurd h (by decide)
  unfold splitSign
  split
  · rename_i heq
    exact absurd (List.cons.inj heq).1 hminus
  · rename_i heq
    exact absurd (List.cons.inj heq).1 hplus
  · rfl

theorem groupedDigits?_of_mem_digits (h : ds ∈ digits) :
    groupedDigits? ds = some (ds.map digitValue) := by
  obtain ⟨hne, hdigit⟩ := mem_digits.mp h
  clear h
  induction ds with
  | nil => exact absurd rfl hne
  | cons c ds ih =>
    have hc := digitOfScript?_of_isDigit (hdigit c (by simp))
    cases ds with
    | nil => simp [groupedDigits?, hc]
    | cons d ds =>
      have hd : d ≠ '_' := by
        rintro rfl
        exact absurd (hdigit '_' (by simp)) (by decide)
      have htail := ih (by simp) fun x hx => hdigit x (List.mem_cons_of_mem c hx)
      simp [groupedDigits?, hc, htail]

/-- What may stand in a run of digits for the readers of numerals. -/
def inNumeral (c : Char) : Bool := (digitOfScript? c).isSome || c == '_'

theorem inNumeral_of_isDigit (h : c.isDigit = true) : inNumeral c = true := by
  simp [inNumeral, digitOfScript?_of_isDigit h]

theorem takeWhile_inNumeral (h : ∀ c ∈ ds, c.isDigit = true) (hrest : Stops inNumeral rest) :
    (ds ++ rest).takeWhile inNumeral = ds := by
  have hds : ∀ c ∈ ds, inNumeral c = true := fun c hc => inNumeral_of_isDigit (h c hc)
  rw [List.takeWhile_append_of_pos hds, takeWhile_of_stops hrest, List.append_nil]

theorem dropWhile_inNumeral (h : ∀ c ∈ ds, c.isDigit = true) (hrest : Stops inNumeral rest) :
    (ds ++ rest).dropWhile inNumeral = rest := by
  have hds : ∀ c ∈ ds, inNumeral c = true := fun c hc => inNumeral_of_isDigit (h c hc)
  rw [List.dropWhile_append_of_pos hds, dropWhile_of_stops hrest]

/-- Digits are read as the number that they spell, unless there are too many. -/
theorem readInteger_of_mem_digits (h : ds ∈ digits) :
    readInteger ds =
      if digitLimit < ds.length then .error (.tooLong ds.length) else .ok (decimalValue ds) := by
  obtain ⟨hne, hdigit⟩ := mem_digits.mp h
  obtain ⟨c, tail, rfl⟩ := List.exists_cons_of_ne_nil hne
  have hc := hdigit c (by simp)
  have hblank : (c :: tail).dropWhile isNumeralBlank = c :: tail := by
    simp [isNumeralBlank_of_isDigit hc]
  have htake := takeWhile_inNumeral hdigit stops_nil
  have hdrop := dropWhile_inNumeral hdigit stops_nil
  unfold inNumeral at htake hdrop
  rw [List.append_nil] at htake hdrop
  simp only [readInteger, hblank, splitSign_of_isDigit hc, htake, hdrop,
    groupedDigits?_of_mem_digits h, List.length_map]
  rfl

theorem toLower_of_isDigit (h : c.isDigit = true) : c.toLower = c :=
  ascii_induction (P := fun c => c.isDigit = true → c.toLower = c) (by decide)
    (toNat_lt_of_isDigit h) h

theorem lowered_ne_of_isDigit {name : List Char} (h : c.isDigit = true)
    (hname : ∀ d ∈ name.head?, d.isDigit = false) : (c :: cs).map Char.toLower ≠ name := by
  rintro rfl
  have hc := hname c.toLower (by simp)
  rw [toLower_of_isDigit h, h] at hc
  cases hc

theorem exists_cons_of_mem_real {w : List Char} (h : w ∈ real) :
    ∃ c tail, c.isDigit = true ∧ w = c :: tail := by
  rcases mem_real.mp h with h | h
  · obtain ⟨c, tail, rfl⟩ := List.exists_cons_of_ne_nil (mem_digits.mp h).1
    exact ⟨c, tail, (mem_digits.mp h).2 c (by simp), rfl⟩
  · obtain ⟨u, hu, v, -, rfl⟩ := mem_digitsAround.mp h
    obtain ⟨c, tail, rfl⟩ := List.exists_cons_of_ne_nil (mem_digits.mp hu).1
    exact ⟨c, tail ++ '.' :: v, (mem_digits.mp hu).2 c (by simp), rfl⟩

theorem isNumeralBlank_of_mem_real {w : List Char} (h : w ∈ real) :
    ∀ c ∈ w, isNumeralBlank c = false := by
  rcases mem_real.mp h with h | h
  · exact fun c hc => isNumeralBlank_of_isDigit ((mem_digits.mp h).2 c hc)
  · obtain ⟨u, hu, v, hv, rfl⟩ := mem_digitsAround.mp h
    intro c hc
    rcases List.mem_append.mp hc with hc | hc
    · exact isNumeralBlank_of_isDigit ((mem_digits.mp hu).2 c hc)
    · rcases List.mem_cons.mp hc with rfl | hc
      · decide
      · exact isNumeralBlank_of_isDigit ((mem_digits.mp hv).2 c hc)

theorem optionalDigits?_nil : Binary64.optionalDigits? [] = some [] := rfl

theorem exponent?_nil : Binary64.exponent? [] = some 0 := rfl

theorem optionalDigits?_of_mem_digits (h : ds ∈ digits) :
    Binary64.optionalDigits? ds = some (ds.map digitValue) := by
  obtain ⟨c, tail, rfl⟩ := List.exists_cons_of_ne_nil (mem_digits.mp h).1
  exact groupedDigits?_of_mem_digits h

/-- A real is a number without its sign: digits, or digits, a point and digits. -/
theorem isSome_ofUnsigned?_of_mem_real {w : List Char} (h : w ∈ real) (negative : Bool) :
    (Binary64.ofUnsigned? negative w).isSome = true := by
  obtain ⟨c, tail, hc, hw⟩ := exists_cons_of_mem_real h
  have hinf : w.map Char.toLower ≠ "inf".toList := hw ▸ lowered_ne_of_isDigit hc (by simp)
  have hinfinity : w.map Char.toLower ≠ "infinity".toList :=
    hw ▸ lowered_ne_of_isDigit hc (by simp)
  have hnan : w.map Char.toLower ≠ "nan".toList := hw ▸ lowered_ne_of_isDigit hc (by simp)
  simp only [Binary64.ofUnsigned?, hinf, hinfinity, hnan, or_self, if_false]
  rcases mem_real.mp h with h | h
  · have htake := takeWhile_inNumeral (mem_digits.mp h).2 stops_nil
    have hdrop := dropWhile_inNumeral (mem_digits.mp h).2 stops_nil
    unfold inNumeral at htake hdrop
    rw [List.append_nil] at htake hdrop
    simp [htake, hdrop, optionalDigits?_of_mem_digits h, optionalDigits?_nil, exponent?_nil,
      (mem_digits.mp h).1]
  · obtain ⟨u, hu, v, hv, rfl⟩ := mem_digitsAround.mp h
    have hpoint : Stops inNumeral ('.' :: v) := stops_cons.mpr (by decide)
    have htake := takeWhile_inNumeral (mem_digits.mp hu).2 hpoint
    have hdrop := dropWhile_inNumeral (mem_digits.mp hu).2 hpoint
    have htake' := takeWhile_inNumeral (mem_digits.mp hv).2 stops_nil
    have hdrop' := dropWhile_inNumeral (mem_digits.mp hv).2 stops_nil
    unfold inNumeral at htake hdrop htake' hdrop'
    rw [List.append_nil] at htake' hdrop'
    simp [htake, hdrop, htake', hdrop', optionalDigits?_of_mem_digits hu,
      optionalDigits?_of_mem_digits hv, exponent?_nil, (mem_digits.mp hu).1]

theorem isSome_ofText?_of_mem_real {w : List Char} (h : w ∈ real) :
    (Binary64.ofText? w).isSome = true := by
  have hblank : ∀ c ∈ w, isNumeralBlank c = false := isNumeralBlank_of_mem_real h
  have hfront : w.dropWhile isNumeralBlank = w := dropWhile_of_stops fun c hc =>
    hblank c (List.mem_of_mem_head? hc)
  have hback : w.reverse.dropWhile isNumeralBlank = w.reverse := dropWhile_of_stops fun c hc =>
    hblank c (List.mem_reverse.mp (List.mem_of_mem_head? hc))
  obtain ⟨c, tail, hc, rfl⟩ := exists_cons_of_mem_real h
  simp only [Binary64.ofText?, hfront, hback, List.reverse_reverse, splitSign_of_isDigit hc]
  exact isSome_ofUnsigned?_of_mem_real h false

end

end Lisplet
