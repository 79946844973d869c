import Lisplet.Proofs.DecimalNumeral
import Lisplet.Literal

/-! What the literals mean, class by class, and that converting a token of a literal class gives
just this datum. A token that is in its class and means nothing has a defect of the text. -/
namespace Lisplet
open Lexeme Computability

def radixDigits : List (Char × Nat × List Char) :=
  [('d', 10, "0123456789".toList), ('b', 2, "01".toList), ('o', 8, "01234567".toList),
    ('x', 16, "0123456789abcdefABCDEF".toList)]

def escapes : List (Char × Char) :=
  [('\\', '\\'), ('\x22', '\x22'), ('n', '\n'), ('r', '\r'), ('t', '\t')]

/-- What stands between quotes, and the text that is meant. -/
inductive Unescapes : List Char → List Char → Prop
  | nil : Unescapes [] []
  | plain {c : Char} {body cs : List Char} : c ≠ '\\' → c ≠ '\x22' → Unescapes body cs →
      Unescapes (c :: body) (c :: cs)
  | escaped {c d : Char} {body cs : List Char} : (c, d) ∈ escapes → Unescapes body cs →
      Unescapes ('\\' :: c :: body) (d :: cs)

/-- A token of a literal class and the datum that it stands for. How a decimal fraction is rounded
to a floating-point number is left to `Binary64.ofText?`. -/
inductive Token.Denotes : Token → Datum → Prop
  | symbol {cs : List Char} : Denotes ⟨.symbol, cs⟩ (.symbol (String.ofList cs))
  | integer {ds : List Char} : ds ∈ digits → ds.length ≤ digitLimit →
      Denotes ⟨.integer, ds⟩ (.int (decimalValue ds))
  | float {cs : List Char} {x : Binary64} : Binary64.ofText? cs = some x →
      Denotes ⟨.float, cs⟩ (.float x)
  | ratio {num den : List Char} : num ∈ digits → den ∈ digits → num.length ≤ digitLimit →
      den.length ≤ digitLimit → decimalValue den ≠ 0 →
      Denotes ⟨.ratio, num ++ '/' :: den⟩ (.ratio (mkRat (decimalValue num) (decimalValue den)))
  | complex {re im : List Char} {x y : Binary64} : re ∈ real → im ∈ real →
      Binary64.ofText? re = some x → Binary64.ofText? im = some y →
      Denotes ⟨.complex, re ++ '+' :: (im ++ ['i'])⟩ (.complex x y)
  | radix {letter : Char} {base : Nat} {alphabet ds : List Char} :
      (letter, base, alphabet) ∈ radixDigits → ds ≠ [] → (∀ c ∈ ds, c ∈ alphabet) →
      (base = 10 → ds.length ≤ digitLimit) →
      Denotes ⟨.radix, '#' :: letter :: ds⟩ (.int (positional base (ds.map digitValue)))
  | isTrue : Denotes ⟨.bool, ['#', 't']⟩ (.bool true)
  | isFalse : Denotes ⟨.bool, ['#', 'f']⟩ (.bool false)
  | letter {c : Char} : isLetter c = true → Denotes ⟨.char, ['#', '\\', c]⟩ (.char c)
  | space {name : List Char} : name.map Char.toLower = "space".toList →
      Denotes ⟨.char, '#' :: '\\' :: name⟩ (.char ' ')
  | newline {name : List Char} : name.map Char.toLower = "newline".toList →
      Denotes ⟨.char, '#' :: '\\' :: name⟩ (.char '\n')
  | string {body cs : List Char} : Unescapes body cs →
      Denotes ⟨.string, '\x22' :: (body ++ ['\x22'])⟩ (.string (String.ofList cs))

namespace Literal

/-- A conversion gives the data with some property and no others, and where it gives none it says
what is wrong with the text. -/
structure Converts {α : Type} (e : Except Refusal α) (P : α → Prop) : Prop where
  ok_iff : ∀ {a}, e = .ok a ↔ P a
  defect : ∀ {why}, e = .error why → ∃ what, why = .defect what

section
variable {α β : Type} {e : Except Refusal α} {P : α → Prop} {cs ds : List Char}

theorem converts_ok (a : α) : Converts (.ok a) (· = a) where
  ok_iff := by simp [eq_comm]
  defect h := by cases h

theorem converts_defect (what : Defect) (h : ∀ a, ¬ P a) :
    Converts (.error (.defect what)) P where
  ok_iff := by simp [h]
  defect h := ⟨what, by cases h; rfl⟩

theorem Converts.congr {Q : α → Prop} (h : Converts e P) (hPQ : ∀ a, P a ↔ Q a) : Converts e Q where
  ok_iff := h.ok_iff.trans (hPQ _)
  defect := h.defect

theorem Converts.map (h : Converts e P) (f : α → β) :
    Converts (e.map f) fun b => ∃ a, P a ∧ b = f a where
  ok_iff {b} := by
    cases e with
    | ok a =>
      have ha : P a := h.ok_iff.mp rfl
      constructor
      · rintro ⟨rfl⟩
        exact ⟨a, ha, rfl⟩
      · rintro ⟨a', ha', rfl⟩
        cases h.ok_iff.mpr ha'
        rfl
    | error why =>
      constructor
      · intro hb
        cases hb
      · rintro ⟨a, ha, -⟩
        cases h.ok_iff.mpr ha
  defect {why} hb := by
    cases e with
    | ok a => cases hb
    | error why' =>
      cases hb
      exact h.defect rfl

theorem Converts.bind {f : α → Except Refusal β} {Q : α → β → Prop} (h : Converts e P)
    (hf : ∀ a, P a → Converts (f a) (Q a)) : Converts (e >>= f) fun b => ∃ a, P a ∧ Q a b where
  ok_iff {b} := by
    cases e with
    | ok a =>
      have ha : P a := h.ok_iff.mp rfl
      constructor
      · intro hb
        exact ⟨a, ha, (hf a ha).ok_iff.mp hb⟩
      · rintro ⟨a', ha', hb⟩
        cases h.ok_iff.mpr ha'
        exact (hf a ha').ok_iff.mpr hb
    | error why =>
      constructor
      · intro hb
        cases hb
      · rintro ⟨a, ha, -⟩
        cases h.ok_iff.mpr ha
  defect {why} hb := by
    cases e with
    | ok a => exact (hf a (h.ok_iff.mp rfl)).defect hb
    | error why' =>
      cases hb
      exact h.defect rfl

theorem Converts.guard (h : Converts e P) (c : Prop) [Decidable c] (what : Defect) :
    Converts (if c then .error (.defect what) else e) fun a => ¬ c ∧ P a := by
  by_cases hc : c
  · rw [if_pos hc]
    exact converts_defect what fun a ha => ha.1 hc
  · rw [if_neg hc]
    exact h.congr fun a => (and_iff_right hc).symm

theorem partsAt_of_not_mem {mark : Char} (h : mark ∉ cs) : partsAt mark cs = [cs] := by
  induction cs with
  | nil => rfl
  | cons c cs ih =>
    rw [List.mem_cons, not_or] at h
    simp [partsAt, Ne.symm h.1, ih h.2]

theorem partsAt_append {mark : Char} (hcs : mark ∉ cs) (hds : mark ∉ ds) :
    partsAt mark (cs ++ mark :: ds) = [cs, ds] := by
  induction cs with
  | nil => simp [partsAt, partsAt_of_not_mem hds]
  | cons c cs ih =>
    rw [List.mem_cons, not_or] at hcs
    simp [partsAt, Ne.symm hcs.1, ih hcs.2]

theorem not_mem_of_mem_digits {mark : Char} (h : ds ∈ digits) (hmark : mark.isDigit = false) :
    mark ∉ ds := by
  intro hmem
  rw [(mem_digits.mp h).2 mark hmem] at hmark
  cases hmark

theorem not_mem_of_mem_real {mark : Char} (h : cs ∈ Lexeme.real) (hmark : mark.isDigit = false)
    (hpoint : mark ≠ '.') : mark ∉ cs := by
  rcases mem_real.mp h with h | h
  · exact not_mem_of_mem_digits h hmark
  · obtain ⟨u, hu, v, hv, rfl⟩ := mem_digitsAround.mp h
    simp [not_mem_of_mem_digits hu hmark, not_mem_of_mem_digits hv hmark, hpoint]

theorem integer_converts (h : ds ∈ digits) :
    Converts (integer ds) fun n => ds.length ≤ digitLimit ∧ n = decimalValue ds := by
  have hguard := (converts_ok (decimalValue ds : Int)).guard (digitLimit < ds.length)
    (.longNumeral ds.length)
  have hds : integer ds = if digitLimit < ds.length then .error (.defect (.longNumeral ds.length))
      else .ok (decimalValue ds : Int) := by
    rw [integer, readInteger_of_mem_digits h]
    by_cases hlong : digitLimit < ds.length
    · simp [hlong]
    · simp [hlong]
  rw [hds]
  exact hguard.congr fun n => by rw [Nat.not_lt]

theorem real_converts (h : cs ∈ Lexeme.real) :
    Converts (real cs) fun x => Binary64.ofText? cs = some x := by
  obtain ⟨x, hx⟩ := Option.isSome_iff_exists.mp (isSome_ofText?_of_mem_real h)
  have hcs : real cs = .ok x := by simp [real, hx]
  rw [hcs]
  exact (converts_ok x).congr (by simp [hx, eq_comm])

theorem ratio_converts {num den : List Char} (hnum : num ∈ digits) (hden : den ∈ digits) :
    Converts (ratio (num ++ '/' :: den)) fun d =>
      num.length ≤ digitLimit ∧ den.length ≤ digitLimit ∧ decimalValue den ≠ 0 ∧
        d = .ratio (mkRat (decimalValue num) (decimalValue den)) := by
  have hparts : partsAt '/' (num ++ '/' :: den) = [num, den] :=
    partsAt_append (not_mem_of_mem_digits hnum (by decide)) (not_mem_of_mem_digits hden (by decide))
  have hboth := (integer_converts hnum).bind fun n _ =>
    (integer_converts hden).bind fun d _ => (converts_ok (Datum.ratio (Rat.divInt n d))).guard
      (d = 0) (.zeroDenominator (num ++ '/' :: den))
  simp only [ratio, hparts]
  refine hboth.congr fun r => ?_
  constructor
  · rintro ⟨_, ⟨hn, rfl⟩, _, ⟨hd, rfl⟩, hzero, rfl⟩
    exact ⟨hn, hd, by exact_mod_cast hzero, rfl⟩
  · rintro ⟨hn, hd, hzero, rfl⟩
    exact ⟨_, ⟨hn, rfl⟩, _, ⟨hd, rfl⟩, by exact_mod_cast hzero, rfl⟩

theorem complex_converts {re im : List Char} (hre : re ∈ Lexeme.real) (him : im ∈ Lexeme.real) :
    Converts (complex (re ++ '+' :: (im ++ ['i']))) fun d =>
      ∃ x y, Binary64.ofText? re = some x ∧ Binary64.ofText? im = some y ∧ d = .complex x y := by
  have hlast : (re ++ '+' :: (im ++ ['i'])).dropLast = re ++ '+' :: im := by
    rw [← List.cons_append, ← List.append_assoc, List.dropLast_concat]
  have hparts : partsAt '+' (re ++ '+' :: im) = [re, im] :=
    partsAt_append (not_mem_of_mem_real hre (by decide) (by decide))
      (not_mem_of_mem_real him (by decide) (by decide))
  have hboth := (real_converts hre).bind fun x _ => (real_converts him).bind fun y _ =>
    converts_ok (Datum.complex x y)
  simp only [complex, hlast, hparts]
  refine hboth.congr fun d => ?_
  constructor
  · rintro ⟨x, hx, y, hy, rfl⟩
    exact ⟨x, y, hx, hy, rfl⟩
  · rintro ⟨x, y, hx, hy, rfl⟩
    exact ⟨x, hx, y, hy, rfl⟩

theorem isDigitOf_iff {letter c : Char} {base : Nat} {alphabet : List Char}
    (h : (letter, base, alphabet) ∈ radixDigits) :
    isDigitOf base c = true ↔ c ∈ alphabet := by
  constructor
  · intro hdigit
    obtain ⟨halnum, hvalue⟩ := Bool.and_eq_true_iff.mp hdigit
    have hsmall := ascii_induction (P := fun c => c.isAlphanum = true →
      ∀ r ∈ radixDigits, digitValue c < r.2.1 → c ∈ r.2.2) (by decide +kernel)
      (toNat_lt_of_isAlphanum halnum) halnum
    exact hsmall _ h (of_decide_eq_true hvalue)
  · intro hmem
    have hall : ∀ r ∈ radixDigits, r.2.2.all (isDigitOf r.2.1) = true := by decide
    exact List.all_eq_true.mp (hall _ h) c hmem

theorem base?_eq {letter : Char} {base : Nat} {alphabet : List Char}
    (h : (letter, base, alphabet) ∈ radixDigits) : base? letter = some base := by
  have hbases : ∀ r ∈ radixDigits, base? r.1 = some r.2.1 := by decide
  exact hbases _ h

theorem radix_converts {letter : Char} {base : Nat} {alphabet : List Char}
    (h : (letter, base, alphabet) ∈ radixDigits) :
    Converts (radix ('#' :: letter :: ds)) fun d =>
      ds ≠ [] ∧ (∀ c ∈ ds, c ∈ alphabet) ∧ (base = 10 → ds.length ≤ digitLimit) ∧
        d = .int (positional base (ds.map digitValue)) := by
  simp only [radix, base?_eq h]
  by_cases hds : ds = []
  · rw [if_pos hds]
    exact converts_defect _ (by simp [hds])
  · rw [if_neg hds]
    cases hbad : ds.find? fun c => !isDigitOf base c with
    | some c =>
      have hc : c ∉ alphabet := by
        rw [← isDigitOf_iff h]
        simpa using List.find?_some hbad
      refine converts_defect _ fun d hd => ?_
      exact hc (hd.2.1 c (List.mem_of_find?_eq_some hbad))
    | none =>
      have halphabet : ∀ c ∈ ds, c ∈ alphabet := by
        intro c hc
        rw [← isDigitOf_iff h]
        simpa using List.find?_eq_none.mp hbad c hc
      refine ((converts_ok _).guard _ _).congr fun d => ?_
      rw [not_and, Nat.not_lt]
      exact ⟨fun hd => ⟨hds, halphabet, hd⟩, fun hd => hd.2.2⟩

theorem character_converts (cs : List Char) :
    Converts (character ('#' :: '\\' :: cs)) fun d =>
      (∃ c, cs = [c] ∧ d = .char c) ∨ (cs.map Char.toLower = "space".toList ∧ d = .char ' ') ∨
        cs.map Char.toLower = "newline".toList ∧ d = .char '\n' := by
  have hdrop : ('#' :: '\\' :: cs).drop 2 = cs := rfl
  rw [character, hdrop]
  by_cases hspace : cs.map Char.toLower = "space".toList
  · have hone : ∀ c, cs ≠ [c] := by
      rintro c rfl
      simp at hspace
    have hlookup : characterNames.lookup (cs.map Char.toLower) = some ' ' := by
      rw [hspace]
      rfl
    rw [hlookup]
    refine (converts_ok (Datum.char ' ')).congr fun d => ?_
    simp [hone, hspace]
  · by_cases hnewline : cs.map Char.toLower = "newline".toList
    · have hone : ∀ c, cs ≠ [c] := by
        rintro c rfl
        simp at hnewline
      have hlookup : characterNames.lookup (cs.map Char.toLower) = some '\n' := by
        rw [hnewline]
        rfl
      rw [hlookup]
      refine (converts_ok (Datum.char '\n')).congr fun d => ?_
      simp [hone, hnewline]
    · have hlookup : characterNames.lookup (cs.map Char.toLower) = none := by
        simp only [characterNames, List.lookup_cons, beq_eq_false_iff_ne.mpr hspace,
          beq_eq_false_iff_ne.mpr hnewline, List.lookup_nil]
      rw [hlookup]
      match cs with
      | [] => exact converts_defect _ (by simp)
      | [c] =>
        refine (converts_ok (Datum.char c)).congr fun d => ?_
        simp only [hspace, hnewline, false_and, or_false, List.cons.injEq, and_true]
        simp
      | c :: c' :: rest =>
        refine converts_defect _ fun d hd => ?_
        rcases hd with ⟨_, hd, -⟩ | ⟨hd, -⟩ | ⟨hd, -⟩
        · cases hd
        · exact hspace hd
        · exact hnewline hd

theorem unescape_cons_of_ne {c : Char} (h : c ≠ '\\') (cs : List Char) :
    unescape (c :: cs) = (unescape cs).map (c :: ·) := by
  cases cs with
  | nil => simp [unescape, h]
  | cons d cs => simp [unescape, h]

theorem escape?_eq_some_iff {c d : Char} : escape? c = some d ↔ (c, d) ∈ escapes := by
  constructor
  · intro h
    unfold escape? at h
    split at h
    case h_6 => cases h
    all_goals
      obtain rfl := Option.some.inj h
      decide
  · intro h
    have hall : ∀ r ∈ escapes, escape? r.1 = some r.2 := by decide
    exact hall _ h

theorem unescape_escaped (c : Char) (cs : List Char) :
    unescape ('\\' :: c :: cs) =
      (escape? c).elim (.error (.defect (.badEscape c))) fun d => (unescape cs).map (d :: ·) := by
  rw [unescape]
  cases escape? c <;> rfl

theorem unescapes_nil_iff {text : List Char} : Unescapes [] text ↔ text = [] := by
  constructor
  · intro h
    cases h
    rfl
  · rintro rfl
    exact .nil

theorem unescapes_escaped_iff {c : Char} {text : List Char} :
    Unescapes ('\\' :: c :: cs) text ↔
      ∃ d, (c, d) ∈ escapes ∧ ∃ body, Unescapes cs body ∧ text = d :: body := by
  constructor
  · intro h
    cases h with
    | plain hback => exact absurd rfl hback
    | escaped hd hcs => exact ⟨_, hd, _, hcs, rfl⟩
  · rintro ⟨d, hd, body, hcs, rfl⟩
    exact .escaped hd hcs

theorem unescapes_plain_iff {c : Char} {text : List Char} (hback : c ≠ '\\')
    (hquote : c ≠ '\x22') :
    Unescapes (c :: cs) text ↔ ∃ body, Unescapes cs body ∧ text = c :: body := by
  constructor
  · intro h
    cases h with
    | plain _ _ hcs => exact ⟨_, hcs, rfl⟩
    | escaped => exact absurd rfl hback
  · rintro ⟨body, hcs, rfl⟩
    exact .plain hback hquote hcs

theorem unescape_converts (h : cs ∈ quotedPart∗) : Converts (unescape cs) (Unescapes cs) := by
  induction cs, h using quoted_induction with
  | nil => exact (converts_ok []).congr fun text => unescapes_nil_iff.symm
  | escaped c cs hcs ih =>
    rw [unescape_escaped]
    cases hescape : escape? c with
    | some d =>
      refine (ih.map (d :: ·)).congr fun text => ?_
      rw [unescapes_escaped_iff]
      simp [← escape?_eq_some_iff, hescape]
    | none =>
      refine converts_defect _ fun text h => ?_
      obtain ⟨d, hd, -⟩ := unescapes_escaped_iff.mp h
      cases hescape.symm.trans (escape?_eq_some_iff.mpr hd)
  | plain c cs hcs hback hquote ih =>
    rw [unescape_cons_of_ne hback]
    exact (ih.map (c :: ·)).congr fun text => (unescapes_plain_iff hback hquote).symm

theorem string_converts (h : cs ∈ quotedPart∗) :
    Converts (string ('\x22' :: (cs ++ ['\x22']))) fun d =>
      ∃ text, Unescapes cs text ∧ d = .string (String.ofList text) := by
  have hbody : (('\x22' :: (cs ++ ['\x22'])).drop 1).dropLast = cs := by
    rw [List.drop_one, List.tail_cons, List.dropLast_concat]
  rw [string, hbody]
  exact (unescape_converts h).map _

end

end Literal

namespace Token
open Literal

section
variable {t : Token} {d : Datum} {e : Except Refusal Datum}

theorem mem_star_of_unescapes {body cs : List Char} (h : Unescapes body cs) :
    body ∈ quotedPart∗ := by
  induction h with
  | nil => exact Language.nil_mem_kstar _
  | plain hback hquote _ ih => exact plain_mem_star hback hquote ih
  | escaped _ _ ih => exact escaped_mem_star _ ih

theorem literal?_of_denotes (h : t.Denotes d) : t.literal? = some (.ok d) := by
  cases h with
  | symbol | isTrue | isFalse => rfl
  | integer hds hlength =>
    exact congrArg some (((integer_converts hds).map _).ok_iff.mpr ⟨_, ⟨hlength, rfl⟩, rfl⟩)
  | float hx => simp [literal?, Literal.real, hx, Except.map]
  | ratio hnum hden hn hd hzero =>
    exact congrArg some ((ratio_converts hnum hden).ok_iff.mpr ⟨hn, hd, hzero, rfl⟩)
  | complex hre him hx hy =>
    exact congrArg some ((complex_converts hre him).ok_iff.mpr ⟨_, _, hx, hy, rfl⟩)
  | radix hbase hds halphabet hlength =>
    exact congrArg some ((radix_converts hbase).ok_iff.mpr ⟨hds, halphabet, hlength, rfl⟩)
  | letter hc =>
    exact congrArg some ((character_converts _).ok_iff.mpr (.inl ⟨_, rfl, rfl⟩))
  | space hname =>
    exact congrArg some ((character_converts _).ok_iff.mpr (.inr (.inl ⟨hname, rfl⟩)))
  | newline hname =>
    exact congrArg some ((character_converts _).ok_iff.mpr (.inr (.inr ⟨hname, rfl⟩)))
  | string htext =>
    exact congrArg some
      ((string_converts (mem_star_of_unescapes htext)).ok_iff.mpr ⟨_, htext, rfl⟩)

theorem converts_denotes {P : Datum → Prop} (h : Converts e P) (he : t.literal? = some e)
    (hP : ∀ d, P d → t.Denotes d) : Converts e t.Denotes := by
  refine ⟨fun {d} => ⟨fun hd => hP d (h.ok_iff.mp hd), fun hd => ?_⟩, h.defect⟩
  exact Option.some.inj (he.symm.trans (literal?_of_denotes hd))

theorem literal?_converts (h : t.text ∈ t.kind.language) (he : t.literal? = some e) :
    Converts e t.Denotes := by
  obtain ⟨kind, text⟩ := t
  have hresult := he
  cases kind with
  | symbol =>
    obtain rfl := Option.some.inj he
    refine converts_denotes (converts_ok _) hresult ?_
    rintro _ rfl
    exact .symbol
  | integer =>
    obtain rfl := Option.some.inj he
    have hds : text ∈ digits := h
    refine converts_denotes ((integer_converts hds).map _) hresult ?_
    rintro _ ⟨_, ⟨hlength, rfl⟩, rfl⟩
    exact .integer hds hlength
  | float =>
    obtain rfl := Option.some.inj he
    refine converts_denotes ((real_converts (mem_real.mpr (.inr h))).map _) hresult ?_
    rintro _ ⟨x, hx, rfl⟩
    exact .float hx
  | ratio =>
    obtain ⟨num, hnum, den, hden, rfl⟩ := mem_digitsAround.mp h
    obtain rfl := Option.some.inj he
    refine converts_denotes (ratio_converts hnum hden) hresult ?_
    rintro _ ⟨hn, hd, hzero, rfl⟩
    exact .ratio hnum hden hn hd hzero
  | complex =>
    obtain ⟨re, hre, im, him, rfl⟩ := mem_complex.mp h
    obtain rfl := Option.some.inj he
    refine converts_denotes (complex_converts hre him) hresult ?_
    rintro _ ⟨x, y, hx, hy, rfl⟩
    exact .complex hre him hx hy
  | radix =>
    obtain ⟨letter, ds, hletter, -, rfl⟩ := mem_radix.mp h
    obtain rfl := Option.some.inj he
    obtain ⟨base, alphabet, hbase⟩ : ∃ base alphabet, (letter, base, alphabet) ∈ radixDigits := by
      rcases hletter with rfl | rfl | rfl | rfl <;> simp [radixDigits]
    refine converts_denotes (radix_converts hbase) hresult ?_
    rintro _ ⟨hds, halphabet, hlength, rfl⟩
    exact .radix hbase hds halphabet hlength
  | bool =>
    obtain rfl := Option.some.inj he
    refine converts_denotes (converts_ok _) hresult ?_
    rcases mem_bool.mp h with h | h
    · obtain rfl : text = ['#', 't'] := h
      rintro _ rfl
      exact .isTrue
    · obtain rfl : text = ['#', 'f'] := h
      rintro _ rfl
      exact .isFalse
  | char =>
    obtain ⟨name, hname, rfl⟩ := mem_char.mp h
    obtain rfl := Option.some.inj he
    refine converts_denotes (character_converts name) hresult ?_
    rintro _ (⟨c, rfl, rfl⟩ | ⟨hspace, rfl⟩ | ⟨hnewline, rfl⟩)
    · exact .letter (hname c (by simp))
    · exact .space hspace
    · exact .newline hnewline
  | string =>
    obtain ⟨body, hbody, rfl⟩ := mem_string.mp h
    obtain rfl := Option.some.inj he
    refine converts_denotes (string_converts hbody) hresult ?_
    rintro _ ⟨cs, hcs, rfl⟩
    exact .string hcs
  | space | lparen | rparen | vector | quote | dot | error | other => cases he

end

end Token
end Lisplet
