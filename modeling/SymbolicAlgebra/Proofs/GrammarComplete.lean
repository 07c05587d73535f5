import SymbolicAlgebra.Proofs.GrammarRules

set_option autoImplicit false

/-!
# The parser reads what the grammar derives

The functions of the grammar are greedy: each takes what it can. None of them takes too much
of a derived word, because what follows the word in a derivation is never something that it
would go on with. What a function does go on with is said by `Reader.Stops`, which gets
stronger from level to level; how a word starts is said by `Grammar.IsPrimary.startsOperand` and
the same for the other words.

Chains and trailing operators are derived from the right and read from the left. For these
the induction is on the derivation, and says what reading gives if it goes on behind the
word. The result is that a derived word is read as the expression that it stands for
(`Grammar.IsAssignment.yields`).
-/

namespace SymbolicAlgebra

variable {R : Type}

/-! ## Where operands end -/

/-- Where an operand ends: no unit, trailing operator or exponent follows, and no
connective of the levels with less than `n` tighter ones. -/
structure Reader.Stops (n : Nat) (c : Reader R) : Prop where
  /-- No unit follows. -/
  unit : startsNoUnit c.rest = true
  /-- If an operator follows, it stands between two operands and is not the sign of a
  power. -/
  operator : ∀ op ts, c.rest = .operator op :: ts → op.isInfix = true ∧ op ≠ .power
  /-- No connective follows. -/
  connective : ∀ l : Level, l.rank < n → l.connectiveAt? c = none

namespace Reader

variable {c : Reader R} {n m : Nat}

theorem Stops.mono (h : c.Stops n) (hm : m ≤ n) : c.Stops m where
  unit := h.unit
  operator := h.operator
  connective l hl := h.connective l (Nat.lt_of_lt_of_le hl hm)

/-- Nothing follows where an expression ends. -/
theorem stops_of_endsGroup (h : endsGroup c.rest = true) : c.Stops n where
  unit := startsNoUnit_of_endsGroup h
  operator op ts hop := absurd hop (ne_operator_of_endsGroup h op ts)
  connective _ _ := Level.connectiveAt?_endsGroup h

/-- No trailing operator follows. -/
theorem Stops.trailed?_eq_none (h : c.Stops n) (e : Expr R) [Scalar R] (op : Operator)
    (ts : List (Token R)) (hop : c.rest = .operator op :: ts) :
    Grammar.trailed? e op = none := by
  have hi := (h.operator op ts hop).1
  cases op <;> first | rfl | cases hi

theorem Stops.ne_power (h : c.Stops n) (ts : List (Token R)) :
    c.rest ≠ .operator .power :: ts := fun hop => (h.operator .power ts hop).2 rfl

/-- An operand of a level ends before a connective of the level. -/
theorem stops_of_connective {l : Level} {op : Operator} {k : Connective}
    {ts : List (Token R)} (hk : l.connective? op = some k) (hc : c.rest = .operator op :: ts) :
    c.Stops l.rank where
  unit := by rw [hc]; rfl
  operator op' ts' hop := by
    rw [hc] at hop
    obtain ⟨rfl, -⟩ : op = op' ∧ ts = ts' := by
      cases hop
      exact ⟨rfl, rfl⟩
    refine ⟨Operator.isInfix_of_connective? hk, ?_⟩
    rintro rfl
    cases l <;> cases hk
  connective l' hl' := by
    have hne : l' ≠ l := by
      rintro rfl
      exact Nat.lt_irrefl _ hl'
    rw [Level.connectiveAt?_operator hc, Grammar.connective?_eq_none hk hne]
    rfl

/-- A signed operand ends before a token that it is multiplied with. -/
theorem stops_of_juxtaposed {before after : Token R} (hc : c.rest.head? = some after)
    (hj : juxtaposed before after = true) : c.Stops 0 where
  unit := by
    cases hr : c.rest with
    | nil => rfl
    | cons t ts =>
      rw [hr] at hc
      obtain rfl := Option.some.inj hc
      cases t <;> first | rfl | cases hj
  operator op ts hop := by
    rw [hop] at hc
    obtain rfl := Option.some.inj hc
    cases hj
  connective _ h := absurd h (Nat.not_lt_zero _)

/-- Before an assignment operator a chain of every level ends. -/
theorem stops_of_isAssignment {op : Operator} {ts : List (Token R)}
    (ho : op.isAssignment = true) (hc : c.rest = .operator op :: ts) : c.Stops n where
  unit := by rw [hc]; rfl
  operator op' ts' hop := by
    rw [hc] at hop
    obtain ⟨rfl, -⟩ : op = op' ∧ ts = ts' := by
      cases hop
      exact ⟨rfl, rfl⟩
    refine ⟨Operator.isInfix_of_isAssignment ho, ?_⟩
    rintro rfl
    cases ho
  connective l _ := by
    rw [Level.connectiveAt?_operator hc]
    cases op <;> first | (cases ho; done) | (cases l <;> rfl)

end Reader

namespace Reader

variable (c : Reader R)

/-- A word behind the token ahead. -/
theorem past_advance {t : Token R} {w rest : List (Token R)} (h : c.rest = t :: (w ++ rest)) :
    c.advance.past w rest = c.past (t :: w) rest := by
  rw [advance_eq h, past_past]
  rfl

/-- A word behind another word and a token. -/
theorem past_advance_past (w w' rest : List (Token R)) (t : Token R) :
    (c.past w (t :: (w' ++ rest))).advance.past w' rest = c.past (w ++ t :: w') rest := by
  rw [past_advance _ rfl, past_past]

end Reader

/-- A level has one more tighter level than the next tighter one. -/
theorem Level.rank_eq_succ {l l' : Level} (h : l.tighter? = some l') :
    l.rank = l'.rank + 1 := by
  cases l <;> cases h <;> rfl

namespace Grammar

/-- Where a token is multiplied with the one before the reader, a product goes on. -/
theorem connectiveAt?_juxtaposed {c : Reader R} {before after : Token R}
    (hb : c.last? = some before) (ha : c.rest.head? = some after)
    (hj : juxtaposed before after = true) :
    Level.product.connectiveAt? c = some (.operation .mul, c) := by
  unfold Level.connectiveAt?
  cases hr : c.rest with
  | nil =>
    rw [hr] at ha
    cases ha
  | cons t ts =>
    rw [hr] at ha
    obtain rfl := Option.some.inj ha
    cases t <;> first
      | cases hj
      | simp only [hb, Option.any_some, hj, decide_true, Bool.and_self, if_true]

variable [Scalar R] {U : FunctionTable R}

/-! ## How words start -/

theorem BareLiteral.startsOperand {w : List (Token R)} {e n : Expr R}
    (h : BareLiteral w e n) (rest : List (Token R)) :
    SymbolicAlgebra.startsOperand (w ++ rest) = true := by
  cases h <;> rfl

theorem IsPrimary.startsOperand {w : List (Token R)} {e : Expr R} (h : IsPrimary U w e)
    (rest : List (Token R)) : SymbolicAlgebra.startsOperand (w ++ rest) = true := by
  cases h with
  | literal h => exact h.startsOperand rest
  | _ => rfl

theorem IsTrailing.startsOperand {w : List (Token R)} {e : Expr R} :
    IsTrailing U w e → ∀ rest : List (Token R),
      SymbolicAlgebra.startsOperand (w ++ rest) = true
  | .primary h, rest => h.startsOperand rest
  | .trailing h _, rest => by
    rw [List.append_assoc]
    exact h.startsOperand _

theorem IsPower.startsOperand {w : List (Token R)} {e : Expr R} (h : IsPower U w e)
    (rest : List (Token R)) : SymbolicAlgebra.startsOperand (w ++ rest) = true := by
  cases h with
  | trailing h => exact h.startsOperand rest
  | power h _ | signed h _ _ =>
    rw [List.append_assoc]
    exact h.startsOperand _

theorem IsSigned.startsPhrase {w : List (Token R)} {e : Expr R} (h : IsSigned U w e)
    (rest : List (Token R)) : SymbolicAlgebra.startsPhrase (w ++ rest) = true := by
  cases h with
  | power h => exact startsPhrase_of_startsOperand (h.startsOperand rest)
  | _ => rfl

mutual
theorem IsChain.startsPhrase {l : Level} {w : List (Token R)} {e : Expr R} :
    IsChain U l w e → ∀ rest : List (Token R),
      SymbolicAlgebra.startsPhrase (w ++ rest) = true
  | .operand h, rest => h.startsPhrase rest
  | .connective _ h _, rest => by
    rw [List.append_assoc]
    exact h.startsPhrase _
  | .juxtaposition _ _ _ h _, rest => by
    rw [List.append_assoc]
    exact h.startsPhrase _
theorem IsOperand.startsPhrase {l : Level} {w : List (Token R)} {e : Expr R} :
    IsOperand U l w e → ∀ rest : List (Token R),
      SymbolicAlgebra.startsPhrase (w ++ rest) = true
  | .tighter _ h, rest => h.startsPhrase rest
  | .signed h, rest => h.startsPhrase rest
end

theorem IsAssignment.startsPhrase {w : List (Token R)} {e : Expr R} (h : IsAssignment U w e)
    (rest : List (Token R)) : SymbolicAlgebra.startsPhrase (w ++ rest) = true := by
  cases h with
  | chain h => exact h.startsPhrase rest
  | assign h _ _ =>
    rw [List.append_assoc]
    exact h.startsPhrase _

theorem IsMembers.startsPhrase {w : List (Token R)} {es : List (Expr R)}
    (h : IsMembers U w es) (rest : List (Token R)) :
    SymbolicAlgebra.startsPhrase (w ++ rest) = true := by
  cases h with
  | one h => exact h.startsPhrase rest
  | cons h _ =>
    rw [List.append_assoc]
    exact h.startsPhrase _

omit [Scalar R] in
/-- A word that starts like an expression is not empty. -/
theorem ne_nil_of_startsPhrase {w : List (Token R)}
    (h : SymbolicAlgebra.startsPhrase (w ++ []) = true) : w ≠ [] := by
  rintro rfl
  cases h

theorem IsAssignment.ne_nil {w : List (Token R)} {e : Expr R} (h : IsAssignment U w e) :
    w ≠ [] :=
  ne_nil_of_startsPhrase (h.startsPhrase [])

/-! ## Signs before literals -/

omit [Scalar R] in
/-- The number of tokens of a literal. -/
def literalLength? : Expr R → Option Nat
  | .number _ | .complex _ => some 1
  | .quantity _ => some 2
  | _ => none

omit [Scalar R] in
theorem literalLength?_le {e : Expr R} {k : Nat} (h : literalLength? e = some k) : k ≤ 2 := by
  cases e <;> simp only [literalLength?, reduceCtorEq, Option.some.injEq] at h <;> omega

theorem BareLiteral.literalLength?_eq {w : List (Token R)} {e n : Expr R}
    (h : BareLiteral w e n) :
    literalLength? e = some w.length ∧ literalLength? n = some w.length := by
  cases h <;> exact ⟨rfl, rfl⟩

/-- A sign before a literal gives the opposite literal. -/
theorem BareLiteral.negated_eq {w : List (Token R)} {e n : Expr R} (h : BareLiteral w e n) :
    negated e w.length = n := by
  cases h <;> rfl

/-- A sign before what is no literal gives the opposite. -/
theorem negated_of_literalLength_ne {e : Expr R} {k : Nat} (h : literalLength? e ≠ some k) :
    negated e k = .neg e := by
  unfold negated
  split
  · exact absurd rfl h
  · exact absurd rfl h
  · exact absurd rfl h
  · rfl

/-- A signed operand that is a literal with as many tokens as the literal has is a bare
literal: neither a sign nor parentheses stand around it. -/
theorem IsSigned.exists_bareLiteral {w : List (Token R)} {e : Expr R} (h : IsSigned U w e)
    (hl : literalLength? e = some w.length) : ∃ n, BareLiteral w e n := by
  cases h with
  | negateLiteral h =>
    rw [h.literalLength?_eq.2, List.length_cons] at hl
    simp at hl
  | negate _ _ | not _ => cases hl
  | power h =>
    cases h with
    | power _ _ | signed _ _ _ => cases hl
    | trailing h =>
      cases h with
      | trailing _ he => cases he <;> cases hl
      | primary h =>
        cases h with
        | literal h => exact ⟨_, h⟩
        | truth | name => cases hl
        | list _ he => cases he <;> cases hl
        | call _ _ _ =>
          have hle := literalLength?_le hl
          simp only [List.length_cons, List.length_append, List.length_nil] at hle
          omega
        | group h =>
          have hle := literalLength?_le hl
          have hpos := List.length_pos_iff.2 h.ne_nil
          simp only [List.length_cons, List.length_append, List.length_nil] at hle
          omega

/-- A sign before a signed operand that is no bare literal gives the opposite. -/
theorem IsSigned.negated_eq {w : List (Token R)} {e : Expr R} (h : IsSigned U w e)
    (hw : ∀ e n, ¬ BareLiteral w e n) : negated e w.length = .neg e :=
  negated_of_literalLength_ne fun hl => by
    obtain ⟨n, hn⟩ := h.exists_bareLiteral hl
    exact hw e n hn

/-! ## Derived words are read -/

variable {c c' : Reader R} {rest : List (Token R)} {e' : Expr R}

/-- A bare literal is read as a primary. -/
theorem BareLiteral.yields {w : List (Token R)} {e n : Expr R} (h : BareLiteral w e n)
    (hc : c.rest = w ++ rest) (hr : startsNoUnit rest = true) :
    Yields (primary U c) e (c.past w rest) := by
  cases h with
  | number v => exact Reader.advance_eq hc ▸ yields_number hc hr
  | complex z => exact Reader.advance_eq hc ▸ yields_complex hc
  | quantity v u => exact Reader.advance_advance_eq hc ▸ yields_quantity hc

/-- A bare literal is read as a signed operand. -/
theorem BareLiteral.yields_signed {w : List (Token R)} {e n : Expr R} (h : BareLiteral w e n)
    (hc : c.rest = w ++ rest) (hs : (c.past w rest).Stops 0) :
    Yields (signed U c) e (c.past w rest) :=
  yields_signed_primary
    (by rw [hc]; exact ne_operator_of_startsOperand (h.startsOperand rest))
    (h.yields hc hs.unit) hs.operator

/-- A primary with its trailing operators and an exponent is a power. -/
theorem yields_power_of_exponent {c₂ c₃ : Reader R} {e e'' : Expr R} {ts : List (Token R)}
    (hc : c₂.rest = .operator .power :: ts)
    (h : ∃ e₀ c₀, Yields (primary U c) e₀ c₀ ∧ Yields (trailing e₀ c₀) e c₂)
    (hx : Yields (signed U c₂.advance) e'' c₃) : Yields (power U c) (.pow e e'') c₃ := by
  obtain ⟨e₀, c₀, hp, ht⟩ := h
  exact yields_power_exponent hp ht hc hx

-- A chain is derived from its last connective and read from its first operand. Its lemma is
-- therefore about a chain with whatever is read behind it, and so is that of trailing
-- operators.
mutual
theorem IsAssignment.yields {w : List (Token R)} {e : Expr R} :
    IsAssignment U w e → ∀ {c : Reader R} {rest : List (Token R)}, c.rest = w ++ rest →
      endsGroup rest = true → Yields (assignment U c) e (c.past w rest)
  | .chain h, c, rest, hc, hr => by
    have hs : ∀ n, (c.past w rest).Stops n := fun n => Reader.stops_of_endsGroup hr
    refine yields_assignment (h.yields hc (hs _) (yields_chainRest_nil ?_)) ?_
    · exact Level.connectiveAt?_endsGroup hr
    · intro op ts hop
      exact absurd hop (ne_operator_of_endsGroup hr op ts)
  | .assign h h' he, c, rest, hc, hr => by
    rename_i op w w' _ _
    rw [List.append_assoc, List.cons_append] at hc
    obtain ⟨ho, he⟩ := assigned_iff.1 he
    -- An assignment operator goes on with no chain, whatever the level.
    have hs : ∀ n, (c.past w (.operator op :: (w' ++ rest))).Stops n :=
      fun n => Reader.stops_of_isAssignment ho rfl
    have ht := h.yields hc (hs _)
      (yields_chainRest_nil ((hs 7).connective .disjunction (by decide)))
    rw [← c.past_advance_past w w' rest]
    have hw := congrArg Reader.rest (Reader.advance_past c w (.operator op) (w' ++ rest))
    exact yields_assignment_assign ht rfl ho (h'.yields hw hr) he
/-- Reading goes on behind a chain. -/
theorem IsChain.yields {l : Level} {w : List (Token R)} {e : Expr R} :
    IsChain U l w e → ∀ {c c' : Reader R} {rest : List (Token R)} {e' : Expr R},
      c.rest = w ++ rest → (c.past w rest).Stops l.rank →
      Yields (chainRest U l e (c.past w rest)) e' c' → Yields (chain U l c) e' c'
  | .operand h, c, c', rest, e', hc, hs, hr => yields_chain (h.yields hc hs) hr
  | .connective hk h h', c, c', rest, e', hc, hs, hr => by
    rename_i op k w w' _ _
    rw [List.append_assoc, List.cons_append] at hc
    have hw := congrArg Reader.rest (Reader.advance_past c w (.operator op) (w' ++ rest))
    have hat : l.connectiveAt? (c.past w (.operator op :: (w' ++ rest))) =
        some (k, (c.past w (.operator op :: (w' ++ rest))).advance) := by
      rw [Level.connectiveAt?_operator rfl, hk]
      rfl
    rw [← c.past_advance_past w w' rest] at hs hr
    exact h.yields hc (Reader.stops_of_connective hk rfl)
      (yields_chainRest_cons hat (h'.yields hw hs) hr)
  | .juxtaposition hb ha hj h h', c, c', rest, e', hc, hs, hr => by
    rename_i before after w w' _ _
    rw [List.append_assoc] at hc
    have hafter : (w' ++ rest).head? = some after := by
      rw [List.head?_append, ha]
      rfl
    -- With no token between the operands, the token behind the reader decides.
    have hbefore : (c.past w (w' ++ rest)).last? = some before := by
      simp only [Reader.past, hb, Option.some_or]
    rw [← Reader.past_past c w w' (w' ++ rest)] at hs hr
    exact h.yields hc (Reader.stops_of_juxtaposed hafter hj)
      (yields_chainRest_cons (connectiveAt?_juxtaposed hbefore hafter hj)
        (h'.yields rfl hs) hr)
theorem IsOperand.yields {l : Level} {w : List (Token R)} {e : Expr R} :
    IsOperand U l w e → ∀ {c : Reader R} {rest : List (Token R)}, c.rest = w ++ rest →
      (c.past w rest).Stops l.rank → Yields (operand U l c) e (c.past w rest)
  | .tighter hl h, c, rest, hc, hs => by
    rw [Level.rank_eq_succ hl] at hs
    refine yields_operand_chain hl (h.yields hc (hs.mono (Nat.le_succ _)) ?_)
    exact yields_chainRest_nil (hs.connective _ (Nat.lt_succ_self _))
  | .signed h, c, rest, hc, hs => yields_operand_signed rfl (h.yields hc hs)
theorem IsSigned.yields {w : List (Token R)} {e : Expr R} :
    IsSigned U w e → ∀ {c : Reader R} {rest : List (Token R)}, c.rest = w ++ rest →
      (c.past w rest).Stops 0 → Yields (signed U c) e (c.past w rest)
  | .negateLiteral h, c, rest, hc, hs => by
    rw [← c.past_advance hc] at hs ⊢
    have hrest := congrArg Reader.rest (Reader.advance_eq hc)
    have hy := yields_signed_negate (U := U) hc (h.yields_signed hrest hs)
    rwa [Reader.index_past, Nat.add_sub_cancel_left, h.negated_eq] at hy
  | .negate h hw, c, rest, hc, hs => by
    rw [← c.past_advance hc] at hs ⊢
    have hrest := congrArg Reader.rest (Reader.advance_eq hc)
    have hy := yields_signed_negate hc (h.yields hrest hs)
    rwa [Reader.index_past, Nat.add_sub_cancel_left, h.negated_eq hw] at hy
  | .not h, c, rest, hc, hs => by
    rw [← c.past_advance hc] at hs ⊢
    exact yields_signed_not hc (h.yields (congrArg Reader.rest (Reader.advance_eq hc)) hs)
  | .power h, c, rest, hc, hs => by
    refine yields_signed (fun op ts hop => ?_) (h.yields hc hs)
    rw [hc] at hop
    exact absurd hop (ne_operator_of_startsOperand (h.startsOperand rest) op ts)
theorem IsPower.yields {w : List (Token R)} {e : Expr R} :
    IsPower U w e → ∀ {c : Reader R} {rest : List (Token R)}, c.rest = w ++ rest →
      (c.past w rest).Stops 0 → Yields (power U c) e (c.past w rest)
  | .trailing h, c, rest, hc, hs => by
    -- Behind the word neither a trailing operator nor an exponent follows.
    obtain ⟨e₀, c₀, hp, ht⟩ :=
      h.yields hc hs.unit (yields_trailing_none (hs.trailed?_eq_none e))
    exact yields_power hp ht hs.ne_power
  | .power h h', c, rest, hc, hs => by
    rename_i w w' _ _
    rw [List.append_assoc, List.cons_append] at hc
    rw [← c.past_advance_past w w' rest] at hs ⊢
    have hw := congrArg Reader.rest (Reader.advance_past c w (.operator .power) (w' ++ rest))
    refine yields_power_of_exponent rfl
      (h.yields hc rfl (yields_trailing_none fun _ _ hop => by cases hop; rfl))
      (yields_signed (fun op ts hop => ?_) (h'.yields hw hs))
    rw [hw] at hop
    exact absurd hop (ne_operator_of_startsOperand (h'.startsOperand rest) op ts)
  | .signed h _ h', c, rest, hc, hs => by
    rename_i w w' _ _ _
    rw [List.append_assoc, List.cons_append] at hc
    rw [← c.past_advance_past w w' rest] at hs ⊢
    have hw := congrArg Reader.rest (Reader.advance_past c w (.operator .power) (w' ++ rest))
    exact yields_power_of_exponent rfl
      (h.yields hc rfl (yields_trailing_none fun _ _ hop => by cases hop; rfl))
      (h'.yields hw hs)
/-- Reading goes on behind a primary with trailing operators. -/
theorem IsTrailing.yields {w : List (Token R)} {e : Expr R} :
    IsTrailing U w e → ∀ {c c' : Reader R} {rest : List (Token R)} {e' : Expr R},
      c.rest = w ++ rest → startsNoUnit rest = true →
      Yields (trailing e (c.past w rest)) e' c' →
      ∃ e₀ c₀, Yields (primary U c) e₀ c₀ ∧ Yields (trailing e₀ c₀) e' c'
  | .primary h, c, c', rest, e', hc, hr, ht => ⟨e, _, h.yields hc hr, ht⟩
  | .trailing h he, c, c', rest, e', hc, hr, ht => by
    rename_i op w _
    rw [List.append_assoc] at hc
    rw [← Reader.advance_past] at ht
    exact h.yields hc rfl (yields_trailing_some rfl (trailed?_eq_some_ok_iff.2 he) ht)
theorem IsPrimary.yields {w : List (Token R)} {e : Expr R} :
    IsPrimary U w e → ∀ {c : Reader R} {rest : List (Token R)}, c.rest = w ++ rest →
      startsNoUnit rest = true → Yields (primary U c) e (c.past w rest)
  | .literal h, c, rest, hc, hr => h.yields hc hr
  | .truth b, c, rest, hc, _ => Reader.advance_eq hc ▸ yields_truth hc
  | .name x, c, rest, hc, _ => Reader.advance_eq hc ▸ yields_name hc
  | .call hb h he, c, rest, hc, _ => by
    simp only [List.cons_append, List.append_assoc, List.nil_append] at hc
    have hc' := Reader.advance_advance_eq hc
    have hp := h.yields (c := c.advance.advance) (Delimiter.isOpen_isClose hb).2
      (congrArg Reader.rest hc')
    have hg := yields_call hc hb hp (called_iff.1 he)
    rw [hc', Reader.past_past] at hg
    exact hg
  | .group h, c, rest, hc, _ => by
    simp only [List.cons_append, List.append_assoc, List.nil_append] at hc
    have hc' := Reader.advance_eq hc
    have hg := yields_group hc (h.yields (congrArg Reader.rest hc') rfl) rfl
    rw [Reader.advance_past, hc', Reader.past_past] at hg
    exact hg
  | .list h he, c, rest, hc, _ => by
    simp only [List.cons_append, List.append_assoc, List.nil_append] at hc
    have hc' := Reader.advance_eq hc
    have hp := h.yields (c := c.advance) (b := .closeBrace) rfl (congrArg Reader.rest hc')
    have hg := yields_list hc hp (collected_iff.1 he)
    rw [hc', Reader.past_past] at hg
    exact hg
theorem IsBody.yields {w : List (Token R)} {es : List (Expr R)} :
    IsBody U w es → ∀ {c : Reader R} {rest : List (Token R)} {b : Delimiter},
      b.isClose = true → c.rest = w ++ .delimiter b :: rest →
      Yields (list U b c) es (c.past (w ++ [.delimiter b]) rest)
  | .empty, c, rest, b, hb, hc => Reader.advance_eq hc ▸ yields_list_nil hc
  | .members h, c, rest, b, hb, hc =>
    yields_list_members
      (by rw [hc]; exact ne_close_of_startsPhrase (h.startsPhrase _) hb) (h.yields hb hc)
theorem IsMembers.yields {w : List (Token R)} {es : List (Expr R)} :
    IsMembers U w es → ∀ {c : Reader R} {rest : List (Token R)} {b : Delimiter},
      b.isClose = true → c.rest = w ++ .delimiter b :: rest →
      Yields (members U b c) es (c.past (w ++ [.delimiter b]) rest)
  | .one h, c, rest, b, hb, hc => by
    have hne : b ≠ .comma := by
      rintro rfl
      cases hb
    have hend : endsGroup (.delimiter b :: rest) = true := by
      cases b <;> first | rfl | cases hb
    have hm := yields_members_one hne (h.yields hc hend) rfl
    rwa [Reader.advance_past] at hm
  | .cons h h', c, rest, b, hb, hc => by
    rename_i w w' _ _
    simp only [List.cons_append, List.append_assoc] at hc
    have hc' := Reader.advance_past c w (.delimiter .comma) (w' ++ .delimiter b :: rest)
    have hm := yields_members_cons (h.yields hc rfl) rfl (h'.yields hb (congrArg Reader.rest hc'))
    rw [hc', Reader.past_past] at hm
    simpa using hm
end

/-- A derived word forms the expression that it stands for. -/
theorem IsAssignment.parse {ts : List (Token R)} {e : Expr R} (h : IsAssignment U ts e) :
    parse U ts = .ok e := by
  obtain ⟨hl, ha⟩ :=
    (h.yields (c := Reader.start ts) (List.append_nil ts).symm rfl).eq_ok
  unfold SymbolicAlgebra.parse
  rw [List.isEmpty_eq_false_iff.2 h.ne_nil, ha]
  rfl

end Grammar

end SymbolicAlgebra
