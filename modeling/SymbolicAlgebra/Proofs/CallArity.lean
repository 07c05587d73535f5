import SymbolicAlgebra.Proofs.DecimalText
import SymbolicAlgebra.Proofs.GrammarSound
import SymbolicAlgebra.Proofs.SyntaxTokens
import SymbolicAlgebra.Proofs.TokenBrackets

set_option autoImplicit false

/-!
# Calls and their arguments

The number of arguments of a call is found twice: by counting commas between brackets, before
anything is parsed, and by parsing the arguments. Both find the same number. A word of the
grammar has nested brackets, and no comma outside of them; so the members of a list are the
segments between its brackets (`Grammar.IsBody.arguments`), and the bracket that closes a group is
found in one way. On the tokens of a text the parser and the count agree on every call and every
bracket (`Grammar.agrees_of_tokenize`).
-/

namespace SymbolicAlgebra.Grammar

variable {R : Type} [Scalar R] {U : FunctionTable R}

/-! ## Words of the grammar -/

theorem BareLiteral.segment {w : List (Token R)} {e n : Expr R} (h : BareLiteral w e n) :
    Segment w := by
  cases h with
  | number v => exact .cons rfl .nil
  | complex z => exact .cons rfl .nil
  | quantity v u => exact .cons rfl (.cons rfl .nil)

mutual
theorem IsAssignment.segment {w : List (Token R)} {e : Expr R} :
    IsAssignment U w e → Segment w
  | .chain h => h.segment
  | .assign h h' _ => h.segment.append (.cons rfl h'.segment)
theorem IsChain.segment {l : Level} {w : List (Token R)} {e : Expr R} :
    IsChain U l w e → Segment w
  | .operand h => h.segment
  | .connective _ h h' => h.segment.append (.cons rfl h'.segment)
  | .juxtaposition _ _ _ h h' => h.segment.append h'.segment
theorem IsOperand.segment {l : Level} {w : List (Token R)} {e : Expr R} :
    IsOperand U l w e → Segment w
  | .tighter _ h => h.segment
  | .signed h => h.segment
theorem IsSigned.segment {w : List (Token R)} {e : Expr R} : IsSigned U w e → Segment w
  | .negateLiteral h => .cons rfl h.segment
  | .negate h _ => .cons rfl h.segment
  | .not h => .cons rfl h.segment
  | .power h => h.segment
theorem IsPower.segment {w : List (Token R)} {e : Expr R} : IsPower U w e → Segment w
  | .trailing h => h.segment
  | .power h h' => h.segment.append (.cons rfl h'.segment)
  | .signed h _ h' => h.segment.append (.cons rfl h'.segment)
theorem IsTrailing.segment {w : List (Token R)} {e : Expr R} : IsTrailing U w e → Segment w
  | .primary h => h.segment
  | .trailing h _ => h.segment.append (.cons rfl .nil)
theorem IsPrimary.segment {w : List (Token R)} {e : Expr R} : IsPrimary U w e → Segment w
  | .literal h => h.segment
  | .truth _ => .cons rfl .nil
  | .name _ => .cons rfl .nil
  | .call hb h _ => .cons rfl (.group hb h.arguments.nested .nil)
  | .group h => .group rfl h.segment.nested .nil
  | .list h _ => .group rfl h.arguments.nested .nil
/-- A word that lists expressions between two brackets holds as many arguments. -/
theorem IsBody.arguments {w : List (Token R)} {es : List (Expr R)} :
    IsBody U w es → Arguments w es.length
  | .empty => .empty
  | .members h => .segments (ne_nil_of_startsPhrase (h.startsPhrase [])) h.segmented
/-- Each expression of a list is one segment. -/
theorem IsMembers.segmented {w : List (Token R)} {es : List (Expr R)} :
    IsMembers U w es → Segmented w es.length
  | .one h => .one h.segment
  | .cons h h' => .cons h.segment h'.segmented
end

/-! ## Calls -/

/-- A list that is parsed between two brackets has as many members as there are arguments. -/
theorem length_list {close : Delimiter} {c : Reader R} {v x : List (Token R)} {n : Nat}
    (hv : Arguments v n) (hclose : close.isClose = true)
    (hc : c.rest = v ++ .delimiter close :: x)
    {p : Shorter R (List (Expr R)) c.rest.length} (hp : list U close c = .ok p) :
    p.1.1.length = n := by
  obtain ⟨_, hf, w, rfl, hbody⟩ := (reads_list close c).ok p hp
  have hw : v ++ .delimiter close :: x = w ++ .delimiter close :: p.1.2.rest := calc
    v ++ .delimiter close :: x = c.rest := hc.symm
    _ = (w ++ [.delimiter close]) ++ p.1.2.rest := hf.1
    _ = w ++ .delimiter close :: p.1.2.rest := List.append_assoc ..
  -- Both words end at the bracket that closes the group, so they are one.
  obtain rfl : v = w := hv.nested.eq_of_append_close hbody.arguments.nested hclose hclose hw
  exact hbody.arguments.unique hv

/-- Where the number of arguments is right, a call is its list and the function of its name:
nothing else can fail. -/
theorem primary_call {c : Reader R} {f : String} {n : Nat} {b close : Delimiter}
    {rest : List (Token R)} (hc : c.rest = .call f n :: .delimiter b :: rest)
    (hb : b.closing? = some close)
    (hn : ∀ p, list U close c.advance.advance = .ok p → p.1.1.length = n) :
    (primary U c).map (·.1) =
      (list U close c.advance.advance).bind fun p => (callOf U f p.1.1).map (·, p.1.2) := by
  obtain ⟨i, l, r⟩ := c
  obtain rfl : r = .call f n :: .delimiter b :: rest := hc
  rw [primary]
  dsimp only
  split
  · rename_i close' hb'
    obtain rfl : close' = close := Option.some.inj (hb'.symm.trans hb)
    cases hl : list U close' (Reader.advance (Reader.advance
        ⟨i, l, .call f n :: .delimiter b :: rest⟩)) with
    | error z => rfl
    | ok p =>
      obtain ⟨⟨es, c₁⟩, h₁⟩ := p
      dsimp only [bind, Except.bind]
      rw [if_pos (show es.length = n from hn _ hl)]
      cases callOf U f es <;> rfl
  · rename_i hb'
    rw [hb] at hb'
    cases hb'

/-! ## Tokens of a text -/

/-- Where the tokens are well bracketed, they do not end behind the name of a call or within
a group. -/
theorem EndsOpen.not_wellBracketed {ts : List (Token R)} (h : EndsOpen U ts) :
    ¬ WellBracketed ts := by
  intro hts
  cases h with
  | call w f n =>
    obtain ⟨b, b', v, x, -, hw, -⟩ := hts.calls w f n [] rfl
    cases hw
  | group w hb h => exact h.segmented.nested.not_open hb hts.nested

/-- The tokens of a text and the parser agree on calls and brackets. The tokens are well
bracketed. Wherever a call is ahead, its bracket follows; as many arguments are parsed as the
call says, so that a call is its list and the function of its name, and nothing else can fail.
All that can be missing at the end of the tokens is an operand. -/
theorem agrees_of_tokenize {text : String} {ts : List (Token R)} (h : tokenize text = .ok ts)
    (U : FunctionTable R) :
    WellBracketed ts ∧
    (∀ w c f n rest, (Reader.start ts).Follows w c → c.rest = .call f n :: rest →
      ∃ b close rest', rest = .delimiter b :: rest' ∧ b.closing? = some close ∧
        (∀ p, list U close c.advance.advance = .ok p → p.1.1.length = n) ∧
        (primary U c).map (·.1) = (list U close c.advance.advance).bind fun p =>
          (callOf U f p.1.1).map (·, p.1.2)) ∧
    ∀ y, parse U ts = .error (.unexpectedEnd y) → y = .operand := by
  have hts := wellBracketed_of_tokenize h
  refine ⟨hts, fun w c f n rest hf hc => ?_, fun y hy => ?_⟩
  · have heq : ts = w ++ .call f n :: rest := hc ▸ hf.1
    obtain ⟨b, close, v, x, hb, rfl, hv⟩ := hts.calls w f n rest heq
    have hlength := fun p => length_list (U := U) (p := p) hv (Delimiter.isOpen_isClose hb).2
      (show c.advance.advance.rest = v ++ .delimiter close :: x by simp [hc])
    exact ⟨b, close, _, rfl, hb, hlength, primary_call hc hb hlength⟩
  · exact (endsOpen_of_parse hy).resolve_right fun he => he.not_wellBracketed hts

/-- In `f(1+2i, g{y})` a literal is merged within the brackets; the outer call has two
arguments and the inner one has one. -/
theorem agrees_of_tokenize_merged :
    let U : FunctionTable Whole := FunctionTable.empty
    let ts : List (Token Whole) := [.call "f" 2, .delimiter .openParen, .complex ⟨⟨1⟩, ⟨2⟩⟩,
      .delimiter .comma, .call "g" 1, .delimiter .openBrace, .name "y",
      .delimiter .closeBrace, .delimiter .closeParen]
    tokenize "f(1+2i, g\x7by\x7d)" = .ok ts ∧ WellBracketed ts ∧
      (∀ p, list U .closeParen (Reader.start ts).advance.advance = .ok p → p.1.1.length = 2) ∧
      ∀ y, parse U ts = .error (.unexpectedEnd y) → y = .operand := by
  intro U ts
  have hone : Numeral.IsPlain ['1'] [] := Numeral.isPlain_toDigits 1
  have htwo : Numeral.IsPlain ['2'] [] := Numeral.isPlain_toDigits 2
  have hy : Phrase U _ _ (.var "y") := .atom (.name (x := "y") (by decide +kernel))
  have hg : Phrase U _ _ (.call "g" [.var "y"]) :=
    .atom (.call (f := "g") (b := .openBrace) (by decide +kernel) rfl (.items (.one hy)) rfl)
  have hf : Phrase U _ _ (.call "f" [.complex ⟨⟨1⟩, ⟨2⟩⟩, .call "g" [.var "y"]]) :=
    .atom (.call (f := "f") (b := .openParen) (by decide +kernel) rfl
      (.items (.cons (.complex false false hone htwo) (.one hg))) rfl)
  have htokens : tokenize "f(1+2i, g\x7by\x7d)" = .ok ts := hf.tokenize
  obtain ⟨hts, hcalls, hend⟩ := agrees_of_tokenize htokens U
  obtain ⟨b, close, rest, hrest, hb, hlength, -⟩ :=
    hcalls [] (Reader.start ts) "f" 2 _ (Reader.Follows.refl _) rfl
  obtain rfl := Token.delimiter.inj (List.cons.inj hrest).1
  obtain rfl : .closeParen = close := Option.some.inj hb
  exact ⟨htokens, hts, hlength, hend⟩

end SymbolicAlgebra.Grammar
