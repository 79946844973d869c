import Lisplet.Proofs.TokenLanguage

/-! What the scanner finds of a single class at the front of an input: a text of the class, and one
that no other text of the class there is longer than. -/
namespace Lisplet
open Lexeme Computability

namespace Scan

/-- A function that finds a text of a language at the front of every input that has one, and no
shorter text than another. -/
structure Finds (find : List Char → Option (List Char)) (L : Language Char) : Prop where
  sound : ∀ {cs w}, find cs = some w → w ∈ L ∧ w <+: cs
  complete : ∀ {v}, v ∈ L → ∀ rest, ∃ w, find (v ++ rest) = some w ∧ v.length ≤ w.length

section
variable {p : Char → Bool} {v w cs rest : List Char}

def Stops (p : Char → Bool) (rest : List Char) : Prop := ∀ c ∈ rest.head?, p c = false

@[simp] theorem stops_nil : Stops p [] := by simp [Stops]

@[simp] theorem stops_cons {c : Char} : Stops p (c :: rest) ↔ p c = false := by simp [Stops]

theorem takeWhile_of_stops (h : Stops p rest) : rest.takeWhile p = [] := by
  cases rest with
  | nil => rfl
  | cons c cs => simp [stops_cons.mp h]

theorem dropWhile_of_stops (h : Stops p rest) : rest.dropWhile p = rest := by
  cases rest with
  | nil => rfl
  | cons c cs => simp [stops_cons.mp h]

theorem stops_dropWhile (p : Char → Bool) (cs : List Char) : Stops p (cs.dropWhile p) := by
  induction cs with
  | nil => simp
  | cons c cs ih => by_cases h : p c = true <;> simp_all

theorem length_le_of_stops (hv : ∀ c ∈ v, p c = true) (hrest : Stops p rest)
    (h : v <+: w ++ rest) : v.length ≤ w.length := by
  obtain ⟨tail, htail⟩ := h
  rcases List.append_eq_append_iff.mp htail with ⟨us, rfl, -⟩ | ⟨us, rfl, rfl⟩
  · simp
  · cases us with
    | nil => simp
    | cons c us =>
      cases (hv c (by simp)).symm.trans (hrest c rfl)

theorem run?_eq_some_iff : run? p cs = some w ↔ w ≠ [] ∧ w = cs.takeWhile p := by
  unfold run?
  split
  · rename_i h
    simp [h]
  · rename_i h
    constructor
    · rintro ⟨rfl⟩
      exact ⟨h, rfl⟩
    · rintro ⟨-, rfl⟩
      rfl

theorem run?_append (hv : v ∈ many p) (rest : List Char) :
    run? p (v ++ rest) = some (v ++ rest.takeWhile p) := by
  obtain ⟨hne, hp⟩ := mem_many.mp hv
  refine run?_eq_some_iff.mpr ⟨by simp [hne], ?_⟩
  rw [List.takeWhile_append_of_pos hp]

theorem run?_append_of_stops (hv : v ∈ many p) (h : Stops p rest) :
    run? p (v ++ rest) = some v := by
  rw [run?_append hv, takeWhile_of_stops h, List.append_nil]

theorem split_of_run? (h : run? p cs = some w) :
    w ∈ many p ∧ ∃ rest, cs = w ++ rest ∧ Stops p rest := by
  obtain ⟨hne, rfl⟩ := run?_eq_some_iff.mp h
  refine ⟨mem_many.mpr ⟨hne, List.all_eq_true.mp List.all_takeWhile⟩, cs.dropWhile p, ?_, ?_⟩
  · exact List.takeWhile_append_dropWhile.symm
  · exact stops_dropWhile p cs

theorem run?_finds (p : Char → Bool) : Finds (run? p) (many p) where
  sound h := by
    obtain ⟨hw, rest, rfl, -⟩ := split_of_run? h
    exact ⟨hw, List.prefix_append _ _⟩
  complete hv rest := ⟨_, run?_append hv rest, by simp⟩

end

section
variable {mark : Char} {u v w cs rest : List Char}

theorem digitsAround?_append (hm : mark.isDigit = false) (hu : u ∈ digits) (hv : v ∈ digits)
    (rest : List Char) :
    digitsAround? mark (u ++ mark :: (v ++ rest)) =
      some (u ++ mark :: (v ++ rest.takeWhile Char.isDigit)) := by
  have hleft : digits? (u ++ mark :: (v ++ rest)) = some u :=
    run?_append_of_stops hu (by simp [hm])
  have hright : digits? (v ++ rest) = some (v ++ rest.takeWhile Char.isDigit) := run?_append hv rest
  simp [digitsAround?, hleft, hright]

theorem split_of_digitsAround? (h : digitsAround? mark cs = some w) :
    ∃ u ∈ digits, ∃ v ∈ digits, ∃ rest, w = u ++ mark :: v ∧ cs = u ++ mark :: (v ++ rest) ∧
      Stops Char.isDigit rest := by
  obtain ⟨u, hu, h⟩ := Option.bind_eq_some_iff.mp h
  obtain ⟨hmem, rest, rfl, -⟩ := split_of_run? hu
  rw [List.drop_left] at h
  cases rest with
  | nil => simp at h
  | cons c rest =>
    simp only [Option.ite_none_right_eq_some, Option.map_eq_some_iff] at h
    obtain ⟨rfl, v, hv, rfl⟩ := h
    obtain ⟨hvd, rest, rfl, hstop⟩ := split_of_run? hv
    exact ⟨u, hmem, v, hvd, rest, rfl, rfl, hstop⟩

theorem digitsAround?_finds (hm : mark.isDigit = false) :
    Finds (digitsAround? mark) (digitsAround mark) where
  sound h := by
    obtain ⟨u, hu, v, hv, rest, rfl, rfl, -⟩ := split_of_digitsAround? h
    exact ⟨mem_digitsAround.mpr ⟨u, hu, v, hv, rfl⟩, rest, by simp⟩
  complete hw rest := by
    obtain ⟨u, hu, v, hv, rfl⟩ := mem_digitsAround.mp hw
    refine ⟨u ++ mark :: (v ++ rest.takeWhile Char.isDigit), ?_, by simp⟩
    simpa using digitsAround?_append hm hu hv rest

/-- A real is the text of a fraction where there is one, and else that of an integer. -/
theorem real?_eq_or (cs : List Char) : real? cs = (digitsAround? '.' cs).or (digits? cs) := by
  cases hd : digits? cs with
  | none => simp [real?, digitsAround?, hd]
  | some whole =>
    simp only [real?, digitsAround?, hd, Option.map_some, Option.bind_some]
    cases cs.drop whole.length with
    | nil => simp
    | cons c rest =>
      by_cases hc : c = '.'
      · subst hc
        cases hr : digits? rest <;> simp [hr]
      · simp [hc]

theorem real?_append_of_stops (hw : w ∈ real) (h : Stops (fun c => c.isDigit || c == '.') rest) :
    real? (w ++ rest) = some w := by
  have hdigit : Stops Char.isDigit rest := fun c hc => (Bool.or_eq_false_iff.mp (h c hc)).1
  rw [real?_eq_or]
  rcases mem_real.mp hw with hw | hw
  · have hrun : digits? (w ++ rest) = some w := run?_append_of_stops hw hdigit
    have hnone : digitsAround? '.' (w ++ rest) = none := by
      rw [digitsAround?, hrun, Option.bind_some, List.drop_left]
      cases rest with
      | nil => rfl
      | cons c rest =>
        obtain ⟨-, hc⟩ := Bool.or_eq_false_iff.mp (stops_cons.mp h)
        exact if_neg (ne_of_beq_false hc)
    rw [hnone, Option.none_or, hrun]
  · obtain ⟨u, hu, v, hv, rfl⟩ := mem_digitsAround.mp hw
    have hsome : digitsAround? '.' (u ++ '.' :: (v ++ rest)) =
        some (u ++ '.' :: (v ++ rest.takeWhile Char.isDigit)) :=
      digitsAround?_append (by decide) hu hv rest
    rw [takeWhile_of_stops hdigit, List.append_nil] at hsome
    rw [List.append_assoc, List.cons_append, hsome, Option.some_or]

theorem split_of_real? (h : real? cs = some w) : w ∈ real ∧ ∃ rest, cs = w ++ rest := by
  rw [real?_eq_or, Option.or_eq_some_iff] at h
  rcases h with h | ⟨-, h⟩
  · obtain ⟨u, hu, v, hv, rest, rfl, rfl, -⟩ := split_of_digitsAround? h
    exact ⟨mem_real.mpr (.inr (mem_digitsAround.mpr ⟨u, hu, v, hv, rfl⟩)), rest, by simp⟩
  · obtain ⟨hw, rest, rfl, -⟩ := split_of_run? h
    exact ⟨mem_real.mpr (.inl hw), rest, rfl⟩

theorem complex?_append (hu : u ∈ real) (hv : v ∈ real) (rest : List Char) :
    complex? (u ++ '+' :: (v ++ 'i' :: rest)) = some (u ++ '+' :: (v ++ ['i'])) := by
  have hre : real? (u ++ '+' :: (v ++ 'i' :: rest)) = some u :=
    real?_append_of_stops hu (stops_cons.mpr (by decide))
  have him : real? (v ++ 'i' :: rest) = some v :=
    real?_append_of_stops hv (stops_cons.mpr (by decide))
  simp [complex?, hre, him]

theorem split_of_complex? (h : complex? cs = some w) :
    ∃ u v rest, real? cs = some u ∧ v ∈ real ∧ w = u ++ '+' :: (v ++ ['i']) ∧
      cs = u ++ '+' :: (v ++ 'i' :: rest) := by
  obtain ⟨u, hu, h⟩ := Option.bind_eq_some_iff.mp h
  obtain ⟨-, rest, rfl⟩ := split_of_real? hu
  rw [List.drop_left] at h
  split at h
  · obtain ⟨v, hv, h⟩ := Option.bind_eq_some_iff.mp h
    obtain ⟨hvr, after, rfl⟩ := split_of_real? hv
    rw [List.drop_left] at h
    split at h
    · rename_i after _ _
      exact ⟨u, v, after, hu, hvr, (Option.some.inj h).symm, rfl⟩
    · simp at h
  · simp at h

theorem complex?_finds : Finds complex? Kind.complex.language where
  sound h := by
    obtain ⟨u, v, rest, hu, hv, rfl, rfl⟩ := split_of_complex? h
    exact ⟨mem_complex.mpr ⟨u, (split_of_real? hu).1, v, hv, rfl⟩, rest, by simp⟩
  complete hw rest := by
    obtain ⟨u, hu, v, hv, rfl⟩ := mem_complex.mp hw
    exact ⟨_, by simpa using complex?_append hu hv rest, le_rfl⟩

end

section
variable {v w cs rest : List Char}

/-- Where `closing?` takes a character for itself and something follows, it is no backslash. -/
theorem ne_backslash {c : Char} (hne : cs ≠ [])
    (hpair : ∀ d tail, c = '\\' → cs = d :: tail → False) : c ≠ '\\' := by
  obtain ⟨d, tail, rfl⟩ := List.exists_cons_of_ne_nil hne
  exact fun hc => hpair d tail hc rfl

theorem closing?_append (hv : v ∈ quotedPart∗) (rest : List Char) :
    closing? (v ++ '\x22' :: rest) = some (v ++ ['\x22']) := by
  induction v, hv using quoted_induction with
  | nil => simp [closing?]
  | escaped c v hv ih => simp [closing?, ih]
  | plain c v hv hback hquote ih => simp [closing?, ih, hback, hquote]

/-- The closing quote is the only one that can stand behind what is between the quotes. -/
theorem eq_of_append_quote (hv : v ∈ quotedPart∗) (hw : w ∈ quotedPart∗)
    (h : v ++ '\x22' :: cs = w ++ '\x22' :: rest) : v = w := by
  have hclosing := congrArg closing? h
  rw [closing?_append hv, closing?_append hw] at hclosing
  exact List.append_cancel_right (Option.some.inj hclosing)

theorem split_of_closing? (h : closing? cs = some w) :
    ∃ v ∈ quotedPart∗, ∃ rest, w = v ++ ['\x22'] ∧ cs = v ++ '\x22' :: rest := by
  fun_induction closing? cs generalizing w with
  | case1 => simp at h
  | case2 => simp at h
  | case3 c rest ih =>
    obtain ⟨t, ht, rfl⟩ := Option.map_eq_some_iff.mp h
    obtain ⟨v, hv, after, rfl, rfl⟩ := ih ht
    exact ⟨'\\' :: c :: v, escaped_mem_star c hv, after, rfl, rfl⟩
  | case4 rest =>
    obtain rfl := Option.some.inj h
    exact ⟨[], Language.nil_mem_kstar _, rest, rfl, rfl⟩
  | case5 c rest _ hpair hquote ih =>
    obtain ⟨t, ht, rfl⟩ := Option.map_eq_some_iff.mp h
    obtain ⟨v, hv, after, rfl, rfl⟩ := ih ht
    have hback := ne_backslash (by simp) hpair
    exact ⟨c :: v, plain_mem_star hback hquote hv, after, rfl, rfl⟩

theorem string?_finds : Finds string? Kind.string.language where
  sound {cs w} h := by
    cases cs with
    | nil => simp [string?] at h
    | cons c rest =>
      simp only [string?, Option.ite_none_right_eq_some, Option.map_eq_some_iff] at h
      obtain ⟨rfl, t, ht, rfl⟩ := h
      obtain ⟨v, hv, after, rfl, rfl⟩ := split_of_closing? ht
      exact ⟨mem_string.mpr ⟨v, hv, rfl⟩, after, by simp⟩
  complete hw rest := by
    obtain ⟨v, hv, rfl⟩ := mem_string.mp hw
    exact ⟨_, by simp [string?, closing?_append hv rest], le_rfl⟩

theorem symbol?_finds : Finds symbol? Kind.symbol.language where
  sound {cs w} h := by
    cases cs with
    | nil => simp [symbol?] at h
    | cons c rest =>
      simp only [symbol?, Option.ite_none_right_eq_some, Option.some.injEq] at h
      obtain ⟨hc, rfl⟩ := h
      refine ⟨mem_symbol.mpr ⟨c, _, hc, List.all_eq_true.mp List.all_takeWhile, rfl⟩, ?_⟩
      exact (List.prefix_cons_inj c).mpr (List.takeWhile_prefix _)
  complete hw rest := by
    obtain ⟨c, v, hc, hv, rfl⟩ := mem_symbol.mp hw
    refine ⟨c :: (v ++ rest.takeWhile continuesSymbol), ?_, by simp⟩
    simp [symbol?, hc, List.takeWhile_append_of_pos hv]

end

theorem lexeme?_sound {k : Kind} {cs w : List Char} (hk : k ≠ .error) (h : lexeme? k cs = some w) :
    w ∈ k.language ∧ w <+: cs := by
  unfold lexeme? at h
  split at h
  case h_1 => exact (run?_finds isBlank).sound h
  case h_8 => exact string?_finds.sound h
  case h_13 => exact complex?_finds.sound h
  case h_14 => exact (digitsAround?_finds (by decide)).sound h
  case h_15 => exact (digitsAround?_finds (by decide)).sound h
  case h_16 => exact (run?_finds Char.isDigit).sound h
  case h_17 => exact symbol?_finds.sound h
  case h_9 rest =>
    obtain rfl := Option.some.inj h
    refine ⟨mem_char.mpr ⟨_, List.all_eq_true.mp List.all_takeWhile, rfl⟩, ?_⟩
    exact (List.prefix_append_right_inj ['#', '\\']).mpr (List.takeWhile_prefix _)
  case h_12 c rest =>
    simp only [Option.ite_none_right_eq_some, Option.some.injEq] at h
    obtain ⟨hc, rfl⟩ := h
    refine ⟨mem_radix.mpr ⟨c, _, hc, List.all_eq_true.mp List.all_takeWhile, rfl⟩, ?_⟩
    exact (List.prefix_append_right_inj ['#', c]).mpr (List.takeWhile_prefix _)
  case h_10 | h_11 =>
    obtain rfl := Option.some.inj h
    exact ⟨mem_bool.mpr (by simp), List.prefix_append _ _⟩
  case h_19 => exact absurd rfl hk
  case h_20 => simp at h
  -- the marks that stand alone
  all_goals
    obtain rfl := Option.some.inj h
    refine ⟨?_, List.prefix_append _ _⟩
    simp [Kind.language]

/-- Where a class has a text, the one that is found is as long. -/
theorem lexeme?_complete {k : Kind} {v : List Char} (hv : v ∈ k.language) (rest : List Char) :
    ∃ w, lexeme? k (v ++ rest) = some w ∧ v.length ≤ w.length := by
  cases k with
  | space => exact (run?_finds isBlank).complete hv rest
  | string => exact string?_finds.complete hv rest
  | complex => exact complex?_finds.complete hv rest
  | float => exact (digitsAround?_finds (by decide)).complete hv rest
  | ratio => exact (digitsAround?_finds (by decide)).complete hv rest
  | integer => exact (run?_finds Char.isDigit).complete hv rest
  | symbol => exact symbol?_finds.complete hv rest
  | char =>
    obtain ⟨u, hu, rfl⟩ := mem_char.mp hv
    refine ⟨'#' :: '\\' :: (u ++ rest.takeWhile isLetter), ?_, by simp⟩
    simp [lexeme?, List.takeWhile_append_of_pos hu]
  | radix =>
    obtain ⟨c, u, hc, hu, rfl⟩ := mem_radix.mp hv
    refine ⟨'#' :: c :: (u ++ rest.takeWhile Char.isAlphanum), ?_, by simp⟩
    simp [lexeme?, hc, List.takeWhile_append_of_pos hu]
  | bool =>
    rcases mem_bool.mp hv with rfl | rfl
    · exact ⟨_, rfl, le_rfl⟩
    · exact ⟨_, rfl, le_rfl⟩
  | quote =>
    rcases mem_quote.mp hv with rfl | rfl | rfl
    · exact ⟨_, rfl, le_rfl⟩
    · exact ⟨_, rfl, le_rfl⟩
    · exact ⟨_, rfl, le_rfl⟩
  | lparen | rparen | vector | dot =>
    obtain rfl := mem_word.mp hv
    exact ⟨_, rfl, le_rfl⟩
  | error | other => exact absurd hv (Language.notMem_zero v)

end Scan
end Lisplet
