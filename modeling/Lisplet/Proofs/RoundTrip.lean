import Lisplet.Evaluation
import Lisplet.Proofs.TextGrammar

/-! Writing a datum and reading it back. The text of a readable datum falls into the tokens of a
derivation of that datum, wherever it is followed by what may follow an item. -/
namespace Lisplet
open Lexeme Computability

namespace Datum

/-- The data that have a text of their own. -/
inductive Readable : Datum → Prop
  | symbol {name : String} : name.toList ∈ Kind.symbol.language → Readable (.symbol name)
  | int {n : Int} : 0 ≤ n → (Nat.toDigits 10 n.natAbs).length ≤ digitLimit → Readable (.int n)
  | ratio {q : Rat} : 0 ≤ q.num → (Nat.toDigits 10 q.num.natAbs).length ≤ digitLimit →
      (Nat.toDigits 10 q.den).length ≤ digitLimit → Readable (.ratio q)
  | string {text : String} : '\x22' ∉ text.toList → '\\' ∉ text.toList → Readable (.string text)
  | bool {b : Bool} : Readable (.bool b)
  | char {c : Char} : isLetter c = true ∨ c = ' ' ∨ c = '\n' → Readable (.char c)
  | list {items : List Datum} : (∀ d ∈ items, Readable d) → Readable (.list items)
  | vector {items : List Datum} : (∀ d ∈ items, Readable d) → Readable (.vector items)
  | dotted {head : List Datum} {tail : Datum} : (∀ d ∈ head, Readable d) → Readable tail →
      Readable (.dotted head tail)

mutual

/-- The nested calls that reading a datum takes when it is written without quote marks. -/
def nesting : Datum → Nat
  | .list items => max 1 (nestingAll items)
  | .vector items => max (Bracket.vector.gap items.tail) (nestingAll items)
  | .dotted head tail => max (nestingAll head) (nesting tail + 3)
  | _ => 0

def nestingAll : List Datum → Nat
  | [] => 0
  | d :: ds => max (itemCalls 1 (nesting d)) (nestingAll ds)

end

/-- In front of what may follow an item the text falls into tokens that spell the datum. -/
def ReadsBack (d : Datum) (text : List Char) : Prop :=
  ∃ ts, Derives d.nesting ts (.datum d) ∧ ∀ rest, Ends rest → lex (text ++ rest) = ts ++ lex rest

section
variable {d : Datum} {ds : List Datum} {k : Kind} {text w rest : List Char}
  {parts : List (List Char)} {bracket : Bracket}

theorem readsBack_iff : ReadsBack d text ↔ DerivesText d.nesting text (.datum d) := by
  constructor
  · rintro ⟨ts, hts, hlex⟩
    have htext := hlex [] ends_nil
    rw [List.append_nil, lex_nil, List.append_nil] at htext
    exact DerivesText.iff_derives_lex.mpr (htext ▸ hts)
  · rintro ⟨ts, hts, hgenuine, rfl⟩
    have hrun : Leads .unlimited _ ts (.done d) := hts.leads rfl
    exact ⟨ts, hts, fun rest hrest => (hrun.relex hgenuine hrest).1⟩

theorem readsBack_literal (hdenotes : Token.Denotes ⟨k, w⟩ d) (hnesting : d.nesting = 0)
    (hmem : w ∈ k.language) : ReadsBack d w := by
  rw [readsBack_iff, hnesting]
  exact .literal (.inl hmem) hdenotes

theorem readsBack_symbol {name : String} (h : name.toList ∈ Kind.symbol.language) :
    ReadsBack (.symbol name) name.toList := by
  have hdenotes : Token.Denotes ⟨.symbol, name.toList⟩ (.symbol (String.ofList name.toList)) :=
    .symbol
  rw [String.ofList_toList] at hdenotes
  exact readsBack_literal hdenotes rfl h

theorem writeInteger_of_nonneg {n : Int} (hn : 0 ≤ n)
    (hlength : (Nat.toDigits 10 n.natAbs).length ≤ digitLimit) :
    writeInteger n = .ok (Nat.toDigits 10 n.natAbs) := by
  rw [writeInteger_of_isWritable (isWritable_iff.mpr hlength), decimal, if_neg (by omega)]

theorem readsBack_int {n : Int} (hn : 0 ≤ n)
    (hlength : (Nat.toDigits 10 n.natAbs).length ≤ digitLimit) :
    ReadsBack (.int n) (Nat.toDigits 10 n.natAbs) := by
  have hdigits := toDigits_mem_digits n.natAbs
  have hdenotes := Token.Denotes.integer hdigits hlength
  rw [decimalValue_toDigits, Int.natAbs_of_nonneg hn] at hdenotes
  exact readsBack_literal hdenotes rfl hdigits

theorem readsBack_ratio {q : Rat} (hq : 0 ≤ q.num)
    (hnum : (Nat.toDigits 10 q.num.natAbs).length ≤ digitLimit)
    (hden : (Nat.toDigits 10 q.den).length ≤ digitLimit) :
    ReadsBack (.ratio q) (Nat.toDigits 10 q.num.natAbs ++ '/' :: Nat.toDigits 10 q.den) := by
  have hdenotes := Token.Denotes.ratio (toDigits_mem_digits q.num.natAbs)
    (toDigits_mem_digits q.den) hnum hden (by rw [decimalValue_toDigits]; exact q.den_nz)
  rw [decimalValue_toDigits, decimalValue_toDigits, Int.natAbs_of_nonneg hq,
    Rat.mkRat_self] at hdenotes
  have hmem : _ ∈ Kind.ratio.language := mem_digitsAround.mpr
    ⟨_, toDigits_mem_digits q.num.natAbs, _, toDigits_mem_digits q.den, rfl⟩
  exact readsBack_literal hdenotes rfl hmem

theorem unescapes_self (hquote : '\x22' ∉ text) (hback : '\\' ∉ text) : Unescapes text text := by
  induction text with
  | nil => exact .nil
  | cons c text ih =>
    rw [List.mem_cons, not_or] at hquote hback
    exact .plain (Ne.symm hback.1) (Ne.symm hquote.1) (ih hquote.2 hback.2)

theorem readsBack_string {s : String} (hquote : '\x22' ∉ s.toList) (hback : '\\' ∉ s.toList) :
    ReadsBack (.string s) ('\x22' :: (s.toList ++ ['\x22'])) := by
  have hbody := unescapes_self hquote hback
  have hdenotes := Token.Denotes.string hbody
  rw [String.ofList_toList] at hdenotes
  have hmem := mem_string.mpr ⟨_, Token.mem_star_of_unescapes hbody, rfl⟩
  exact readsBack_literal hdenotes rfl hmem

theorem readsBack_bool (b : Bool) :
    ReadsBack (.bool b) (if b then ['#', 't'] else ['#', 'f']) := by
  cases b with
  | true => exact readsBack_literal .isTrue rfl (mem_bool.mpr (.inl rfl))
  | false => exact readsBack_literal .isFalse rfl (mem_bool.mpr (.inr rfl))

theorem readsBack_char {c : Char} (hc : isLetter c = true ∨ c = ' ' ∨ c = '\n') :
    ReadsBack (.char c) ('#' :: '\\' :: characterText c) := by
  have hmem {name : List Char} (hname : ∀ c ∈ name, isLetter c = true) :
      '#' :: '\\' :: name ∈ Kind.char.language :=
    mem_char.mpr ⟨name, hname, rfl⟩
  rcases hc with hc | rfl | rfl
  · have hblank := isBlank_of_isLetter hc
    have hspace : c ≠ ' ' := fun h => absurd hblank (by rw [h]; decide)
    have hnewline : c ≠ '\n' := fun h => absurd hblank (by rw [h]; decide)
    have htext : characterText c = [c] := by simp [characterText, hspace, hnewline]
    rw [htext]
    exact readsBack_literal (.letter hc) rfl (hmem (by simpa using hc))
  · have hname : ∀ c ∈ "space".toList, isLetter c = true := by
      simp
      decide
    exact readsBack_literal (.space rfl) rfl (hmem hname)
  · have hname : ∀ c ∈ "newline".toList, isLetter c = true := by
      simp
      decide
    exact readsBack_literal (.newline rfl) rfl (hmem hname)

theorem derivesText_spaced (h : List.Forall₂ ReadsBack (d :: ds) (text :: parts)) :
    DerivesText (max (bracket.gap ds) (nestingAll (d :: ds))) (spaced (text :: parts))
      (.items bracket (d :: ds)) := by
  induction ds generalizing d text parts with
  | nil =>
    obtain ⟨hd, hnil⟩ := List.forall₂_cons.mp h
    obtain rfl := List.forall₂_nil_left_iff.mp hnil
    have hnumber : max (bracket.gap []) (nestingAll [d]) = itemCalls 1 d.nesting := by
      have hpos := itemCalls_pos le_rfl d.nesting
      rw [gap_nil, nestingAll, nestingAll]
      omega
    rw [hnumber]
    exact (readsBack_iff.mp hd).one
  | cons d' ds ih =>
    obtain ⟨hd, htail⟩ := List.forall₂_cons.mp h
    obtain ⟨text', parts', -, -, rfl⟩ := List.forall₂_cons_left_iff.mp htail
    have hnumber : max (itemCalls 1 d.nesting) (max (bracket.gap [d])
        (max (bracket.gap ds) (nestingAll (d' :: ds)))) =
          max (bracket.gap (d' :: ds)) (nestingAll (d :: d' :: ds)) := by
      have hmore : bracket.gap [d] = bracket.gap (d' :: ds) := by simp [Bracket.gap]
      have hle : bracket.gap ds ≤ bracket.gap (d' :: ds) := by
        by_cases hds : ds = []
        · rw [hds, gap_nil]
          exact (gap_le bracket [d']).1
        · exact (gap_cons hds).ge
      rw [hmore, nestingAll.eq_2 d]
      omega
    rw [← hnumber]
    exact (readsBack_iff.mp hd).items_cons isGap_space (ih htail)

theorem derivesText_heads (h : List.Forall₂ ReadsBack ds parts) :
    DerivesText (nestingAll ds) (parts.flatMap (· ++ [' '])) (.heads .list ds) := by
  induction h with
  | nil => exact .none
  | cons hd _ ih =>
    rw [List.flatMap_cons, List.append_assoc]
    exact (readsBack_iff.mp hd).heads_cons isGap_space ih

theorem spaced_cons (hparts : parts ≠ []) : spaced (w :: parts) = w ++ ' ' :: spaced parts := by
  cases parts with
  | nil => exact absurd rfl hparts
  | cons => rfl

theorem spaced_point (parts : List (List Char)) (last : List Char) :
    spaced (parts ++ [['.'], last]) = parts.flatMap (· ++ [' ']) ++ '.' :: ' ' :: last := by
  induction parts with
  | nil => rfl
  | cons w parts ih =>
    rw [List.cons_append, spaced_cons (by simp), ih]
    simp

theorem nesting_close (bracket : Bracket) (ds : List Datum) :
    (bracket.close ds).nesting = max (bracket.gap ds.tail) (nestingAll ds) := by
  cases bracket with
  | list => rw [Bracket.close, nesting, gap_list]
  | vector => rw [Bracket.close, nesting]

theorem readsBack_sequence (bracket : Bracket) (h : List.Forall₂ ReadsBack ds parts) :
    ReadsBack (bracket.close ds) (bracket.text ++ (spaced parts ++ [')'])) := by
  rw [readsBack_iff, nesting_close]
  cases h with
  | nil => exact .empty bracket
  | cons hd hds => exact (derivesText_spaced (.cons hd hds)).sequence bracket

theorem readsBack_dotted {tail : Datum} {last : List Char} (h : List.Forall₂ ReadsBack ds parts)
    (htail : ReadsBack tail last) :
    ReadsBack (.dotted ds tail) ('(' :: (spaced (parts ++ [['.'], last]) ++ [')'])) := by
  rw [readsBack_iff, nesting, spaced_point]
  have hdotted := (derivesText_heads h).dotted isGap_space (readsBack_iff.mp htail)
  simpa using hdotted

theorem writeAll_of_forall {room : Room}
    (h : ∀ d ∈ ds, ∀ room : Room, room.admits (d.writingDepth) = true →
      ∃ text, d.write room = .ok text ∧ ReadsBack d text)
    (hroom : room.admits (writingDepthAll ds) = true) :
    ∃ parts, writeAll room ds = .ok parts ∧ List.Forall₂ ReadsBack ds parts := by
  induction ds with
  | nil => exact ⟨[], rfl, .nil⟩
  | cons d ds ih =>
    rw [writingDepthAll, depthAll, Room.admits_max] at hroom
    obtain ⟨text, hwrite, hd⟩ := h d (by simp) room hroom.1
    obtain ⟨parts, hwrites, hds⟩ := ih (fun x hx => h x (List.mem_cons_of_mem d hx)) hroom.2
    refine ⟨text :: parts, ?_, .cons hd hds⟩
    rw [writeAll, hwrite, hwrites]
    rfl

theorem Readable.exists_write (h : Readable d) (room : Room)
    (hroom : room.admits (d.writingDepth) = true) :
    ∃ text, d.write room = .ok text ∧ ReadsBack d text := by
  induction h generalizing room with
  | symbol hname => exact ⟨_, rfl, readsBack_symbol hname⟩
  | int hn hlength => exact ⟨_, writeInteger_of_nonneg hn hlength, readsBack_int hn hlength⟩
  | @ratio q hq hnum hden =>
    refine ⟨_, ?_, readsBack_ratio hq hnum hden⟩
    rw [write, writeInteger_of_nonneg hq hnum, writeInteger_of_nonneg (Int.natCast_nonneg _) hden]
    rfl
  | string hquote hback => exact ⟨_, rfl, readsBack_string hquote hback⟩
  | bool => exact ⟨_, rfl, readsBack_bool _⟩
  | char hc => exact ⟨_, rfl, readsBack_char hc⟩
  | list _ ih =>
    rw [writingDepth, depth] at hroom
    obtain ⟨inner, henter, hinner⟩ := Room.enter_of_admits hroom
    obtain ⟨parts, hwrite, hparts⟩ := writeAll_of_forall ih hinner
    refine ⟨_, ?_, readsBack_sequence .list hparts⟩
    simp only [write, henter, hwrite, bind, Except.bind]
    rfl
  | vector _ ih =>
    rw [writingDepth, depth] at hroom
    obtain ⟨inner, henter, hinner⟩ := Room.enter_of_admits hroom
    obtain ⟨parts, hwrite, hparts⟩ := writeAll_of_forall ih hinner
    refine ⟨_, ?_, readsBack_sequence .vector hparts⟩
    simp only [write, henter, hwrite, bind, Except.bind]
    rfl
  | dotted _ _ ihhead ihtail =>
    rw [writingDepth, depth, Room.admits_max] at hroom
    obtain ⟨inner, henter, hinner⟩ := Room.enter_of_admits hroom.1
    obtain ⟨outer, houter, htailroom⟩ := Room.enter_of_admits hroom.2
    obtain ⟨parts, hwrite, hparts⟩ := writeAll_of_forall ihhead hinner
    obtain ⟨last, hlast, htail⟩ := ihtail outer htailroom
    refine ⟨_, ?_, readsBack_dotted hparts htail⟩
    simp only [write, henter, hwrite, houter, hlast, bind, Except.bind]

theorem read_of_derivesText {n : Nat} {room : Room} (h : DerivesText n text (.datum d))
    (hroom : room.admits n = true) : read room text = .ok d :=
  read_of_derives List.prefix_rfl (DerivesText.iff_derives_lex.mp h) hroom

theorem ReadsBack.read_eq (h : ReadsBack d text) {room : Room}
    (hroom : room.admits d.nesting = true) : read room text = .ok d :=
  read_of_derivesText (readsBack_iff.mp h) hroom

theorem ReadsBack.read_quote_eq (h : ReadsBack d text) {room : Room}
    (hroom : room.admits (d.nesting + 1) = true) :
    read room ('\x27' :: text) = .ok (.list [.symbol "quote", d]) :=
  read_of_derivesText ((readsBack_iff.mp h).quotation (by decide)) hroom

end

/-- A readable datum is written, if there is room for it, and its text is read as the same datum;
with a quote mark in front it is read as a quotation, whose value is the datum again. -/
theorem text_reads_back {d : Datum} (h : Readable d) {out : Room}
    (hout : out.admits (d.writingDepth) = true) :
    ∃ s, d.text out = .ok s ∧
      (∀ room : Room, room.admits d.nesting = true → read room s.toList = .ok d) ∧
      (∀ room : Room, room.admits (d.nesting + 1) = true →
        read room ("'" ++ s).toList = .ok (.list [.symbol "quote", d])) ∧
      ∀ room : Room, (Datum.list [.symbol "quote", d]).evaluate room = .ok d := by
  obtain ⟨text, hwrite, htext⟩ := h.exists_write out hout
  refine ⟨String.ofList text, ?_, fun room hroom => ?_, fun room hroom => ?_, fun room => ?_⟩
  · rw [Datum.text, hwrite]
    rfl
  · rw [String.toList_ofList]
    exact htext.read_eq hroom
  · have hquoted : ("'" ++ String.ofList text).toList = '\x27' :: text := by simp
    rw [hquoted]
    exact htext.read_quote_eq hroom
  · rw [evaluate, eval_quote]

/-- A ratio and a dotted list whose tail is a list keep apart in a vector. -/
theorem text_reads_back_vector :
    (Datum.vector [.ratio (mkRat 1 2),
        .dotted [.char ' '] (.list [.string "a b"])]).text .standard =
          .ok "#(1/2 (#\\space . (\"a b\")))" ∧
      read .standard "#(1/2 (#\\space . (\"a b\")))".toList =
        .ok (.vector [.ratio (mkRat 1 2), .dotted [.char ' '] (.list [.string "a b"])]) := by
  have hratio : Readable (.ratio (mkRat 1 2)) := .ratio (by decide) (by decide) (by decide)
  have hstring : Readable (.string "a b") := .string (by decide) (by decide)
  have hdotted : Readable (.dotted [.char ' '] (.list [.string "a b"])) :=
    .dotted (by simpa using Readable.char (c := ' ') (by decide)) (.list (by simpa using hstring))
  have hvector : Readable
      (.vector [.ratio (mkRat 1 2), .dotted [.char ' '] (.list [.string "a b"])]) :=
    .vector (by simp [hratio, hdotted])
  have hout : Room.standard.admits ((Datum.vector [.ratio (mkRat 1 2),
      .dotted [.char ' '] (.list [.string "a b"])]).writingDepth) = true := by
    decide
  obtain ⟨s, hs, hread, -, -⟩ := text_reads_back hvector hout
  have htext : (Datum.vector [.ratio (mkRat 1 2),
      .dotted [.char ' '] (.list [.string "a b"])]).text .standard =
        .ok "#(1/2 (#\\space . (\"a b\")))" := by
    rfl
  obtain rfl := Except.ok.inj (htext.symm.trans hs)
  exact ⟨htext, hread .standard (by decide)⟩

end Datum
end Lisplet
