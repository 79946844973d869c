import Lisplet.Proofs.RoundTrip

/-! Which data have a text: those in which no integer has too many digits, as far as there is room
for it. Numerals in base sixteen are read at any length, so there are sources of integers that have
none. -/
namespace Lisplet

namespace Datum

/-- The integers that are written for a datum which is not built from others have no more digits
than are written. -/
def IsWritable : Datum → Prop
  | .int n => isWritable n = true
  | .ratio q => isWritable q.num = true ∧ isWritable q.den = true
  | _ => True

section
variable {room : Room} {d : Datum} {ds : List Datum} {text : List Char} {parts : List (List Char)}
  {why : Failure}

def FailsForDigits (writable : Prop) (why : Failure) : Prop := why = .longInteger ∧ ¬ writable

theorem FailsForDigits.whole {α : Type} {part whole : Prop} {m n : Nat} {o : Outcome α}
    (h : FailsOnly (FailsForDigits part) room m o) (hpart : whole → part) (hmn : m ≤ n) :
    FailsOnly (FailsForDigits whole) room n o :=
  (h.mono hmn).imp fun _ ⟨hwhy, hnot⟩ => ⟨hwhy, fun hwhole => hnot (hpart hwhole)⟩

theorem writeInteger_failsOnly (n : Int) (k : Nat) :
    FailsOnly (FailsForDigits (isWritable n = true)) room k (writeInteger n) := by
  by_cases h : isWritable n = true
  · rw [writeInteger_of_isWritable h]
    exact .of_ok _
  · rw [writeInteger_of_not_isWritable h]
    exact .of_error ⟨rfl, h⟩

theorem writeAll_failsOnly_of
    (h : ∀ d ∈ ds, FailsOnly (FailsForDigits (d.Throughout IsWritable)) room d.writingDepth
      (d.write room)) :
    FailsOnly (FailsForDigits (AllThroughout IsWritable ds)) room (writingDepthAll ds)
      (writeAll room ds) := by
  induction ds with
  | nil => exact .of_ok []
  | cons d ds ih =>
    obtain ⟨hd, hds⟩ := List.forall_mem_cons.mp h
    rw [writeAll, writingDepthAll, depthAll, AllThroughout]
    refine .bind ?_ fun _ _ => .bind ?_ fun _ _ => .of_ok _
    · exact FailsForDigits.whole hd And.left (Nat.le_max_left _ _)
    · exact FailsForDigits.whole (ih hds) And.right (Nat.le_max_right _ _)

theorem write_dotted (room : Room) (head : List Datum) (tail : Datum) :
    write room (.dotted head tail) = ((room.enter headWeight >>= fun inner => writeAll inner head) >>=
      fun parts => (room.enter tailWeight >>= fun outer => write outer tail) >>=
        fun last => .ok ('(' :: (spaced (parts ++ [['.'], last]) ++ [')']))) := by
  simp only [write, bind_assoc]

/-- Where there is room a datum has no text only if an integer in it has too many digits. -/
theorem write_failsOnly (room : Room) (d : Datum) :
    FailsOnly (FailsForDigits (d.Throughout IsWritable)) room d.writingDepth (d.write room) := by
  induction d using induction_on generalizing room with
  | int n => exact writeInteger_failsOnly n _
  | ratio q =>
    rw [write]
    refine .bind ?_ fun _ _ => .bind ?_ fun _ _ => .of_ok _
    · exact FailsForDigits.whole (writeInteger_failsOnly q.num 0) And.left (Nat.zero_le _)
    · exact FailsForDigits.whole (writeInteger_failsOnly q.den 0) And.right (Nat.zero_le _)
  | list items ih =>
    rw [write, writingDepth, depth]
    refine .enter (fun inner _ => ?_) (Nat.le_refl _)
    exact .bind (writeAll_failsOnly_of fun d hd => ih d hd inner) fun _ _ => .of_ok _
  | vector items ih =>
    rw [write, writingDepth, depth]
    refine .enter (fun inner _ => ?_) (Nat.le_refl _)
    exact .bind (writeAll_failsOnly_of fun d hd => ih d hd inner) fun _ _ => .of_ok _
  | dotted head tail ihhead ihtail =>
    rw [write_dotted, writingDepth, depth]
    refine .bind ?_ fun _ _ => .bind ?_ fun _ _ => .of_ok _
    · refine .enter (fun inner _ => ?_) (Nat.le_max_left _ _)
      exact FailsForDigits.whole (writeAll_failsOnly_of fun d hd => ihhead d hd inner) And.left
        (Nat.le_refl _)
    · refine .enter (fun outer _ => ?_) (Nat.le_max_right _ _)
      exact FailsForDigits.whole (ihtail outer) And.right (Nat.le_refl _)
  | _ => exact .of_ok _

theorem writeAll_failsOnly (room : Room) (ds : List Datum) :
    FailsOnly (FailsForDigits (AllThroughout IsWritable ds)) room (writingDepthAll ds)
      (writeAll room ds) :=
  writeAll_failsOnly_of fun d _ => write_failsOnly room d

theorem writeAll_cons_eq_error_iff : writeAll room (d :: ds) = .error why ↔
    d.write room = .error why ∨
      ∃ text, d.write room = .ok text ∧ writeAll room ds = .error why := by
  rw [writeAll, bind_eq_error_iff]
  simp only [bind_ok_eq_error_iff]

theorem writeAll_singleton_eq_error_iff :
    writeAll room [d] = .error why ↔ d.text room = .error why := by
  rw [writeAll_cons_eq_error_iff, text, map_eq_error_iff]
  simp [writeAll]

theorem writeAll_pair_eq_error_iff {d' : Datum} : writeAll room [d, d'] = .error why ↔
    (d.text room >>= fun _ => d'.text room) = .error why := by
  rw [writeAll_cons_eq_error_iff, writeAll_singleton_eq_error_iff]
  cases h : d.write room <;> simp [text, h, Except.map, bind, Except.bind]

theorem isWritable_of_writeInteger {n : Int} (h : writeInteger n = .ok text) :
    isWritable n = true := by
  by_cases hn : isWritable n = true
  · exact hn
  · rw [writeInteger_of_not_isWritable hn] at h
    cases h

theorem allThroughout_of_writeAll
    (hds : ∀ d ∈ ds, ∀ text, d.write room = .ok text → d.Throughout IsWritable)
    (h : writeAll room ds = .ok parts) : AllThroughout IsWritable ds := by
  induction ds generalizing parts with
  | nil => trivial
  | cons d ds ih =>
    obtain ⟨hd, hds⟩ := List.forall_mem_cons.mp hds
    rw [writeAll] at h
    obtain ⟨text, htext, h⟩ := bind_eq_ok_iff.mp h
    obtain ⟨texts, htexts, -⟩ := bind_eq_ok_iff.mp h
    exact ⟨hd text htext, ih hds htexts⟩

theorem throughout_of_write (h : d.write room = .ok text) : d.Throughout IsWritable := by
  induction d using induction_on generalizing room text with
  | int n => exact isWritable_of_writeInteger h
  | ratio q =>
    rw [write] at h
    obtain ⟨num, hnum, h⟩ := bind_eq_ok_iff.mp h
    obtain ⟨den, hden, -⟩ := bind_eq_ok_iff.mp h
    exact ⟨isWritable_of_writeInteger hnum, isWritable_of_writeInteger hden⟩
  | list items ih | vector items ih =>
    rw [write] at h
    obtain ⟨inner, -, h⟩ := bind_eq_ok_iff.mp h
    obtain ⟨parts, hparts, -⟩ := bind_eq_ok_iff.mp h
    exact allThroughout_of_writeAll (fun d hd _ htext => ih d hd htext) hparts
  | dotted head tail ihhead ihtail =>
    rw [write] at h
    obtain ⟨inner, -, h⟩ := bind_eq_ok_iff.mp h
    obtain ⟨parts, hparts, h⟩ := bind_eq_ok_iff.mp h
    obtain ⟨outer, -, h⟩ := bind_eq_ok_iff.mp h
    obtain ⟨last, hlast, -⟩ := bind_eq_ok_iff.mp h
    exact ⟨allThroughout_of_writeAll (fun d hd _ htext => ihhead d hd htext) hparts,
      ihtail hlast⟩
  | _ => trivial

end
end Datum

open Lexeme

theorem isWritable_iff_lt {n : Int} : isWritable n = true ↔ n.natAbs < 10 ^ digitLimit := by
  rw [isWritable_iff, Nat.length_toDigits_le_iff (by decide) (by decide)]

theorem positional_replicate_zero (base d n : Nat) :
    positional base (d :: List.replicate n 0) = d * base ^ n := by
  induction n with
  | zero => simp [positional]
  | succ n ih =>
    have hlast : d :: List.replicate (n + 1) 0 = d :: List.replicate n 0 ++ [0] := by
      rw [List.replicate_succ', List.cons_append]
    rw [hlast, positional_append_singleton, ih, Nat.pow_succ, Nat.add_zero, Nat.mul_comm base,
      Nat.mul_assoc]

def sixteenPower (n : Nat) : Int := (16 ^ n : Nat)

def powerNumeral (n : Nat) : List Char := '#' :: 'x' :: '1' :: List.replicate n '0'

namespace Datum

theorem readsBack_powerNumeral (n : Nat) : ReadsBack (.int (sixteenPower n)) (powerNumeral n) := by
  have hdigits : ∀ c ∈ '1' :: List.replicate n '0', c = '1' ∨ c = '0' := by
    intro c hc
    rcases List.mem_cons.mp hc with hc | hc
    · exact .inl hc
    · exact .inr (List.eq_of_mem_replicate hc)
  have hdenotes : Token.Denotes ⟨.radix, powerNumeral n⟩
      (.int (positional 16 (('1' :: List.replicate n '0').map digitValue))) := by
    have hbase : ('x', 16, "0123456789abcdefABCDEF".toList) ∈ radixDigits := by decide
    refine .radix hbase (by simp) ?_ (by simp)
    intro c hc
    rcases hdigits c hc with rfl | rfl <;> decide
  have hvalues : ('1' :: List.replicate n '0').map digitValue = 1 :: List.replicate n 0 := by
    rw [List.map_cons, List.map_replicate]
    rfl
  rw [hvalues, positional_replicate_zero, Nat.one_mul] at hdenotes
  have hmem : powerNumeral n ∈ Kind.radix.language := by
    refine mem_radix.mpr ⟨'x', '1' :: List.replicate n '0', by decide, ?_, rfl⟩
    intro c hc
    rcases hdigits c hc with rfl | rfl <;> decide
  exact readsBack_literal hdenotes rfl hmem

end Datum

/-- Forty digits in base sixteen are worth more than 43 in base ten. -/
theorem ten_pow_le_power {m n : Nat} (hn : 40 * m ≤ n) : 10 ^ (43 * m) ≤ 16 ^ n := by
  have hsteps : (10 ^ 43 : Nat) ≤ 16 ^ 40 := by decide
  calc
    10 ^ (43 * m) = (10 ^ 43) ^ m := Nat.pow_mul 10 43 m
    _ ≤ (16 ^ 40) ^ m := Nat.pow_le_pow_left hsteps m
    _ = 16 ^ (40 * m) := (Nat.pow_mul 16 40 m).symm
    _ ≤ 16 ^ n := Nat.pow_le_pow_right (by decide) hn

theorem not_isWritable_power {n : Nat} (hn : 4000 ≤ n) : ¬ isWritable (sixteenPower n) = true := by
  have hdigits : digitLimit = 43 * 100 := rfl
  rw [isWritable_iff_lt, sixteenPower, Int.natAbs_natCast, hdigits]
  exact Nat.not_lt.mpr (ten_pow_le_power hn)

end Lisplet
