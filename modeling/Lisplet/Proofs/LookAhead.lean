import Lisplet.Proofs.StreamPlace
import Lisplet.Proofs.WholeText

/-! The reader does not look behind a datum. The token that completes it is taken without a look at
the next one, and a token that nothing can prolong is cut off without a look at what follows. -/
namespace Lisplet
open Lexeme Scan Reading

/-- What of the stream is left after exactly these tokens. No token is left in the buffer, so nothing
behind them has been pulled. -/
structure Stream.Takes (s : Stream) (front : List Token) (s' : Stream) : Prop where
  ahead_eq : s.ahead = front ++ s'.ahead
  buffer_eq : s'.buffer = []
  taken_eq : s'.taken = s.taken + front.length
  pulled_eq : s'.pulled = s.taken + front.length
  position_eq : s'.position = s.position.past (Token.source front)

/-- The classes whose tokens are cut off whatever follows. -/
def Kind.delimited : List Kind := [.rparen, .string, .bool]

section
variable {room : Room} {s s' : Stream} {t : Token} {ts front rest : List Token} {d : Datum}

theorem Token.Genuine.lex_of_delimited (ht : t.Genuine) (hkind : t.kind ∈ Kind.delimited)
    (more : List Char) : lex (t.text ++ more) = t :: lex more := by
  obtain ⟨kind, text⟩ := t
  simp only [Kind.delimited, List.mem_cons, List.not_mem_nil, or_false] at hkind
  rcases hkind with rfl | rfl | rfl
  · exact ht.lex_of_fixed (by simp [Kind.fixed]) more
  · exact lex_append_of_string (ht.mem (by simp)) more
  · exact ht.lex_of_fixed (by simp [Kind.fixed]) more

theorem Leads.lex_append (h : Leads room (.next (.expression [])) ts (.done d))
    (hts : ∀ t ∈ ts, t.Genuine) (hlast : ts.getLast? = some t) (hkind : t.kind ∈ Kind.delimited)
    (more : List Char) : lex (Token.source ts ++ more) = ts ++ lex more := by
  obtain ⟨us, rfl⟩ := List.getLast?_eq_some_iff.mp hlast
  obtain ⟨r, hrun, hstep⟩ := h.exists_last
  obtain ⟨hus, ht⟩ : (∀ t ∈ us, t.Genuine) ∧ t.Genuine := by simpa [or_imp, forall_and] using hts
  have hlex : lex (t.text ++ more) = t :: lex more := ht.lex_of_delimited hkind more
  have htakes : ∀ why taken, r.step t ≠ .refuse why taken := by
    intro why taken hrefused
    rw [hrefused] at hstep
    cases hstep
  have hcut := (hrun.relex hus (allows_of_step ht hlex htakes)).1
  rw [hlex] at hcut
  simpa [Token.source] using hcut

theorem Stream.Passes.takes (h : s.Passes front s') (hs : s.Sound) (hfresh : s'.Fresh) :
    s.Takes front s' where
  ahead_eq := h.ahead_eq
  buffer_eq := hfresh.1
  taken_eq := h.taken_eq
  pulled_eq := by
    rw [(h.reaches.sound hs).pulled, hfresh.1, h.taken_eq]
    rfl
  position_eq := h.position_eq

/-- A reading that succeeds, from a stream in any state that calls lead to, takes the tokens of the
datum, one at least, and has looked at none behind them. It goes the same way in every stream that
begins with these tokens, and no stream that ends before the last of them has a datum. A text that
ends with a closing bracket, a string or a truth value is read as before when any other text is put
behind it. -/
theorem Stream.parse_ignores_rest (room : Room) :
    (∀ (s s' : Stream) (d : Datum), s.Reached → s.parse room = (.ok d, s') →
      ∃ front, front ≠ [] ∧ s.Takes front s' ∧
        ((∀ t ∈ front, t.Genuine) → ∃ n, Derives n front (.datum d) ∧ room.admits n = true) ∧
        (∀ (u : Stream) (rest : List Token), u.Reached → u.ahead = front ++ rest →
          ∃ u', u.parse room = (.ok d, u') ∧ u.Takes front u' ∧ u'.ahead = rest ∧
            (u.position = s.position → u'.position = s'.position)) ∧
        ∀ u : Stream, u.Reached → u.ahead <+: front → u.ahead ≠ front →
          ∀ d' u', u.parse room ≠ (.ok d', u')) ∧
    ∀ (w more : List Char) (d : Datum) (t : Token), Spells room w d →
      (lex w).getLast? = some t → t.kind ∈ Kind.delimited →
        read room (w ++ more) = .ok d ∧
          ((Stream.ofText defaultSource (w ++ more)).parse room).2.ahead = lex more := by
  constructor
  · intro s s' d hs h
    obtain ⟨front, hrun, hpass, hfresh⟩ := parse_ok hs.sound h
    refine ⟨front, ?_, hpass.takes hs.sound hfresh, hrun.exists_derives, fun u rest hu hahead => ?_, ?_⟩
    · rintro rfl
      cases hrun
    · obtain ⟨u', hparse, hpass', hfresh'⟩ := parse_of_leads hu.sound hahead hrun
      have hrest : front ++ u'.ahead = front ++ rest := hpass'.ahead_eq.symm.trans hahead
      refine ⟨u', hparse, hpass'.takes hu.sound hfresh', List.append_cancel_left hrest,
        fun hposition => ?_⟩
      rw [hpass'.position_eq, hpass.position_eq, hposition]
    · intro u hu hshort hne d' u' hparse
      -- Otherwise the run would stop twice within these tokens.
      obtain ⟨front', hrun', hpass', -⟩ := parse_ok hu.sound hparse
      have hfront : front' <+: u.ahead := hpass'.behind.front_le
      obtain ⟨rfl, -⟩ := hrun.done_unique hrun' (List.prefix_refl front) (hfront.trans hshort)
      exact hne (hshort.eq_of_length_le hfront.length_le)
  · intro w more d t hw hlast hkind
    have hlex := hw.leads.lex_append (fun _ => genuine_of_mem_lex) hlast hkind more
    rw [source_lex] at hlex
    obtain ⟨s', hparse, hpass, -⟩ := parse_of_leads (ofText_sound defaultSource (w ++ more)) hlex
      hw.leads
    have hrest : lex w ++ s'.ahead = lex w ++ lex more := hpass.ahead_eq.symm.trans hlex
    simp only [read, hparse, true_and]
    exact List.append_cancel_left hrest

/-- A token that is no part of any datum, an unbalanced bracket or the end of the tokens behind
`'(a . "b)")` make no difference, nor does any text. -/
theorem Stream.parse_ignores_rest_string :
    let text := "'(a . \"b)\")".toList
    let d := Datum.list [.symbol "quote", .dotted [.symbol "a"] (.string "b)")]
    let s := (Stream.ofText "lisp" "\n\n    '(a . \"b)\")]".toList).after [.peek, .advance, .peek]
    (∃ s', s.parse .standard = (.ok d, s') ∧ s'.buffer = [] ∧ s'.pulled = 9 ∧
        s'.position = ⟨3, 16⟩) ∧
      (∀ rest : List Token, ∃ u', (Stream.ofTokens "file" (lex text ++ rest)).parse .standard =
        (.ok d, u') ∧ u'.ahead = rest ∧ u'.pulled = 8) ∧
      ∀ more, read .standard (text ++ more) = .ok d := by
  intro text d s
  have hreached : s.Reached := .call .peek (.call .advance (.call .peek (.ofText _ _)))
  obtain ⟨s', hparse⟩ : ∃ s', s.parse .standard = (.ok d, s') := by
    refine ⟨_, Prod.ext ?_ rfl⟩
    rw [parse_outcome hreached.sound]
    rfl
  have htaken : s'.taken = s.taken + 8 := by
    have hcount := parse_taken hreached.sound .standard
    rw [hparse] at hcount
    exact hcount
  have hspells : Spells .standard text d := spells_of_datum rfl
  obtain ⟨hstream, htext⟩ := parse_ignores_rest .standard
  obtain ⟨front, -, htakes, -, hsame, -⟩ := hstream s s' d hreached hparse
  have hlen : front.length = (lex text).length :=
    Nat.add_left_cancel (htakes.taken_eq.symm.trans htaken)
  have hahead : s.ahead = lex text ++ [⟨.error, [']']⟩] := rfl
  obtain ⟨rfl, -⟩ := List.append_inj (htakes.ahead_eq.symm.trans hahead) hlen
  refine ⟨⟨s', hparse, htakes.buffer_eq, htakes.pulled_eq, htakes.position_eq⟩, fun rest => ?_,
    fun more => (htext text more d ⟨.rparen, [')']⟩ hspells rfl (by decide)).1⟩
  obtain ⟨u', hu, htakes', hrest, -⟩ := hsame _ rest (.ofTokens "file" (lex text ++ rest)) rfl
  exact ⟨u', hu, hrest, htakes'.pulled_eq⟩

end
end Lisplet
