import Lisplet.Proofs.WritingLimit
import Lisplet.Proofs.NumberLiteral

/-! What the reader can produce. The parts of a datum that is read are such as tokens stand for, so
what is written for it is read as the same datum, and is what would be written for that again. -/
namespace Lisplet
open Lexeme

section
variable {ds : List Char}

theorem decimalValue_lt (h : ds ∈ digits) : decimalValue ds < 10 ^ ds.length := by
  have hvalues : ∀ v ∈ (ds.map digitValue).reverse, v < 10 := by
    intro v hv
    obtain ⟨c, hc, rfl⟩ := List.mem_map.mp (List.mem_reverse.mp hv)
    exact digitOfScript?_lt (digitOfScript?_of_isDigit ((mem_digits.mp h).2 c hc))
  have hlt := Nat.ofDigits_lt_base_pow_length (by decide) hvalues
  rwa [List.length_reverse, List.length_map, ← positional_eq_ofDigits] at hlt

theorem isWritable_of_le_decimalValue (h : ds ∈ digits) (hlength : ds.length ≤ digitLimit) {n : Int}
    (hn : n.natAbs ≤ decimalValue ds) : isWritable n = true := by
  refine isWritable_iff_lt.mpr ?_
  calc n.natAbs ≤ decimalValue ds := hn
    _ < 10 ^ ds.length := decimalValue_lt h
    _ ≤ 10 ^ digitLimit := Nat.pow_le_pow_right (by decide) hlength

theorem mkRat_le (n : Nat) {m : Nat} (hm : m ≠ 0) :
    (mkRat n m).num.natAbs ≤ n ∧ (mkRat n m).den ≤ m := by
  obtain ⟨k, hk, hnum, hden⟩ := Rat.mkRat_num_den hm (rfl : mkRat n m = mkRat n m)
  have hone : 1 ≤ k := Nat.one_le_iff_ne_zero.mpr hk
  constructor
  · have habs := congrArg Int.natAbs hnum
    rw [Int.natAbs_mul, Int.natAbs_natCast, Int.natAbs_natCast] at habs
    exact (Nat.le_mul_of_pos_right _ hone).trans_eq habs.symm
  · exact (Nat.le_mul_of_pos_right _ hone).trans_eq hden.symm

end

namespace Datum

/-- What a part of a datum that is read can be. Both parts of a ratio are short enough to be
written, for they are no longer than those that it is reduced from. -/
def CanBeRead : Datum → Prop
  | .symbol name => name ≠ "" ∧ name.toList ∈ Kind.symbol.language
  | .int n => 0 ≤ n
  | .ratio q =>
    0 ≤ q ∧ q.num.natAbs.Coprime q.den ∧ isWritable q.num = true ∧ isWritable q.den = true
  | .char c => isLetter c = true ∨ c = ' ' ∨ c = '\n'
  | .foreign => False
  | _ => True

section
variable {d : Datum}

end
end Datum

def Phrase.data : Phrase → List Datum
  | .datum d => [d]
  | .items _ ds | .heads _ ds => ds

section
variable {t : Token} {d : Datum} {n : Nat} {ts : List Token} {p : Phrase}

theorem Token.Denotes.throughout (h : t.Denotes d) (ht : t.Genuine) :
    d.Throughout Datum.CanBeRead := by
  cases h with
  | symbol =>
    have hmem := ht.mem (by simp)
    refine ⟨?_, by rwa [String.toList_ofList]⟩
    intro hempty
    exact Scan.ne_nil_of_mem hmem (String.ofList_eq_empty_iff.mp hempty)
  | integer | radix => exact Int.natCast_nonneg _
  | @ratio num den hnum hden hn hd hzero =>
    obtain ⟨hle, hle'⟩ := mkRat_le (decimalValue num) hzero
    exact ⟨Rat.mkRat_nonneg (Int.natCast_nonneg _) _, Rat.reduced _,
      isWritable_of_le_decimalValue hnum hn hle, isWritable_of_le_decimalValue hden hd hle'⟩
  | letter hc => exact .inl hc
  | space => exact .inr (.inl rfl)
  | newline => exact .inr (.inr rfl)
  | float | complex | isTrue | isFalse | string => trivial

theorem quoteName_throughout {mark : Char} {name : String} (h : (mark, name) ∈ quoteNames) :
    (Datum.symbol name).Throughout Datum.CanBeRead := by
  have hname := Token.Denotes.symbol.throughout (Token.quoteName_genuine h)
  rwa [String.ofList_toList] at hname

theorem throughout_close {bracket : Bracket} {ds : List Datum} {q : Datum → Prop} :
    (bracket.close ds).Throughout q ↔ ∀ d ∈ ds, d.Throughout q := by
  cases bracket <;> exact Datum.allThroughout_iff

theorem Derives.throughout (h : Derives n ts p) (hts : ∀ t ∈ ts, t.Genuine) :
    ∀ d ∈ p.data, d.Throughout Datum.CanBeRead := by
  induction h with
  | literal hdenotes =>
    exact List.forall_mem_singleton.mpr (hdenotes.throughout (hts _ List.mem_cons_self))
  | quotation hmark _ ih =>
    obtain ⟨-, hts⟩ := List.forall_mem_cons.mp hts
    have hd := List.forall_mem_singleton.mp (ih hts)
    exact List.forall_mem_singleton.mpr ⟨quoteName_throughout hmark, hd, trivial⟩
  | empty => exact List.forall_mem_singleton.mpr (throughout_close.mpr (by simp))
  | sequence _ _ _ ih =>
    simp only [List.forall_mem_cons, List.forall_mem_append] at hts
    exact List.forall_mem_singleton.mpr (throughout_close.mpr (ih hts.2.1))
  | dotted _ _ _ _ _ _ ihheads ihtail =>
    simp only [List.forall_mem_cons, List.forall_mem_append] at hts
    obtain ⟨-, hheads, -, -, htail, -⟩ := hts
    have hd := List.forall_mem_singleton.mp (ihtail htail)
    exact List.forall_mem_singleton.mpr ⟨Datum.allThroughout_iff.mpr (ihheads hheads), hd⟩
  | one _ ih => exact ih hts
  | more _ _ _ ihitems ihdatum =>
    simp only [List.forall_mem_cons, List.forall_mem_append] at hts
    exact List.forall_mem_append.mpr ⟨ihitems hts.1, ihdatum hts.2.2⟩
  | none => exact fun d hd => by cases hd
  | head _ _ _ ihheads ihdatum =>
    simp only [List.forall_mem_append] at hts
    exact List.forall_mem_append.mpr ⟨ihheads hts.1, ihdatum hts.2.1⟩

end

end Lisplet
