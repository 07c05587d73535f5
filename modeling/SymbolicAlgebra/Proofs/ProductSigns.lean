import Mathlib.Data.List.Chain
import SymbolicAlgebra.Proofs.GrammarComplete
import SymbolicAlgebra.Proofs.GrammarSound

set_option autoImplicit false

/-!
# Products without a sign

Two operands side by side are multiplied, and whether they are is decided by the two tokens
between which the sign is left out (`Token.omitsSign`). So the signs can be written down without
looking at the rest of the formula (`withProductSigns`), and the formula stays what it was
(`parse_withProductSigns`): an omitted sign is exactly a sign.

A sign that is put in stands between two tokens that the grammar has only one rule for: the
one for operands side by side, which then becomes the one for the connective. Every other rule
separates its words by tokens that are never multiplied with a neighbour, so the signs of a
word are the signs of its parts (`withProductSigns_append`). The two directions are
`Grammar.IsAssignment.withProductSigns` and `Grammar.IsAssignment.of_withProductSigns`.
-/

namespace SymbolicAlgebra

variable {R : Type}

/-! ## Putting in the signs -/

/-- Whether a sign is left out between two neighbours: between a closing bracket or a literal
and a name, a call or an opening parenthesis, and between a closing bracket and a number or a
complex literal. -/
def Token.omitsSign : Token R → Token R → Bool
  | .delimiter .closeParen, .name _ | .delimiter .closeParen, .call _ _
  | .delimiter .closeParen, .delimiter .openParen | .delimiter .closeParen, .number _
  | .delimiter .closeParen, .complex _ => true
  | .delimiter .closeBrace, .name _ | .delimiter .closeBrace, .call _ _
  | .delimiter .closeBrace, .delimiter .openParen | .delimiter .closeBrace, .number _
  | .delimiter .closeBrace, .complex _ => true
  | .number _, .name _ | .number _, .call _ _ | .number _, .delimiter .openParen => true
  | .complex _, .name _ | .complex _, .call _ _ | .complex _, .delimiter .openParen => true
  | .unit _, .name _ | .unit _, .call _ _ | .unit _, .delimiter .openParen => true
  | _, _ => false

/-- The tokens with a multiplication sign between every two neighbours that omit it. -/
def withProductSigns : List (Token R) → List (Token R)
  | [] => []
  | [t] => [t]
  | p :: q :: ts =>
    if p.omitsSign q then p :: .operator .multiply :: withProductSigns (q :: ts)
    else p :: withProductSigns (q :: ts)

/-- The grammar multiplies the neighbours that omit a sign. -/
theorem Token.juxtaposed_eq_omitsSign (p q : Token R) : juxtaposed p q = p.omitsSign q := by
  cases p with
  | delimiter d => cases d <;> cases q <;> first | rfl | (rename_i d; cases d <;> rfl)
  | _ => cases q <;> first | rfl | (rename_i d; cases d <;> rfl)

/-- The token is never multiplied with the one before it. -/
def Token.StartsNoFactor (t : Token R) : Prop := ∀ p : Token R, p.omitsSign t = false

/-- The token is never multiplied with the one behind it. -/
def Token.EndsNoFactor (t : Token R) : Prop := ∀ q : Token R, t.omitsSign q = false

theorem Token.StartsNoFactor.operator (op : Operator) :
    (Token.operator op : Token R).StartsNoFactor := by
  intro p
  rw [← juxtaposed_eq_omitsSign]
  rfl

theorem Token.StartsNoFactor.comma : (Token.delimiter .comma : Token R).StartsNoFactor := by
  intro p
  rw [← juxtaposed_eq_omitsSign]
  rfl

theorem Token.StartsNoFactor.close {b : Delimiter} (hb : b.isClose = true) :
    (Token.delimiter b : Token R).StartsNoFactor := by
  intro p
  rw [← juxtaposed_eq_omitsSign]
  cases b <;> first | rfl | cases hb

theorem Token.EndsNoFactor.operator (op : Operator) :
    (Token.operator op : Token R).EndsNoFactor := fun _ => rfl

theorem Token.EndsNoFactor.comma : (Token.delimiter .comma : Token R).EndsNoFactor :=
  fun _ => rfl

theorem Token.EndsNoFactor.opening {b : Delimiter} (hb : b.isOpen = true) :
    (Token.delimiter b : Token R).EndsNoFactor := by
  intro q
  cases b <;> first | rfl | cases hb

theorem Token.EndsNoFactor.call (f : String) (n : Nat) :
    (Token.call f n : Token R).EndsNoFactor := fun _ => rfl

variable {p q t : Token R} {u u' w w' : List (Token R)}

/-! ## The signs of a word and of its parts -/

/-- The signs of a word, with the one before its second token apart. -/
theorem withProductSigns_cons_cons (p q : Token R) (w : List (Token R)) :
    withProductSigns (p :: q :: w) =
      p :: ((if p.omitsSign q then [.operator .multiply] else []) ++
        withProductSigns (q :: w)) := by
  rw [withProductSigns]
  split <;> rfl

/-- A word starts as it did. -/
theorem head?_withProductSigns (w : List (Token R)) : (withProductSigns w).head? = w.head? := by
  match w with
  | [] => rfl
  | [t] => rfl
  | p :: q :: w => rw [withProductSigns_cons_cons, List.head?_cons, List.head?_cons]

/-- Only the empty word becomes empty. -/
theorem withProductSigns_eq_nil : withProductSigns w = [] ↔ w = [] := by
  rw [← List.head?_eq_none_iff, head?_withProductSigns, List.head?_eq_none_iff]

/-- No sign is put in behind a token that is never multiplied with the one behind it. -/
theorem withProductSigns_cons (ht : t.EndsNoFactor) (w : List (Token R)) :
    withProductSigns (t :: w) = t :: withProductSigns w := by
  cases w with
  | nil => rfl
  | cons q w => rw [withProductSigns, if_neg (by simp [ht q])]

/-- The signs of two words, with the one between them. -/
theorem withProductSigns_append (hp : w.getLast? = some p) (hq : w'.head? = some q) :
    withProductSigns (w ++ w') =
      withProductSigns w ++ ((if p.omitsSign q then [.operator .multiply] else []) ++
        withProductSigns w') := by
  induction w with
  | nil => cases hp
  | cons t w ih =>
    cases w with
    | nil =>
      obtain rfl := Option.some.inj hp
      obtain ⟨w', rfl⟩ := List.head?_eq_some_iff.1 hq
      exact withProductSigns_cons_cons t q w'
    | cons a w =>
      have ih := ih (by rwa [← List.getLast?_cons_cons])
      rw [List.cons_append] at ih
      rw [List.cons_append, List.cons_append, withProductSigns_cons_cons,
        withProductSigns_cons_cons, ih]
      simp only [List.cons_append, List.append_assoc]

/-- A token that is never multiplied with its neighbours separates the signs of two words. -/
theorem withProductSigns_separated (hs : t.StartsNoFactor) (he : t.EndsNoFactor)
    (w w' : List (Token R)) :
    withProductSigns (w ++ t :: w') = withProductSigns w ++ t :: withProductSigns w' := by
  cases hp : w.getLast? with
  | none =>
    rw [List.getLast?_eq_none_iff.1 hp]
    exact withProductSigns_cons he w'
  | some p =>
    rw [withProductSigns_append hp (List.head?_cons ..), if_neg (by simp [hs p]),
      withProductSigns_cons he]
    rfl

/-- No sign is put into a word that has at most two tokens with its signs. -/
theorem withProductSigns_eq_self (h : (withProductSigns w).length ≤ 2) :
    withProductSigns w = w := by
  induction w using withProductSigns.induct with
  | case1 => rfl
  | case2 t => rfl
  | case3 p q w hpq ih =>
    have hpos := List.length_pos_iff.2 (mt withProductSigns_eq_nil.1 (List.cons_ne_nil q w))
    rw [withProductSigns, if_pos hpq, List.length_cons, List.length_cons] at h
    omega
  | case4 p q w hpq ih =>
    rw [withProductSigns, if_neg hpq] at h ⊢
    rw [ih (Nat.le_of_succ_le h)]

/-- No two neighbours omit a sign any more. -/
theorem isChain_withProductSigns (w : List (Token R)) :
    (withProductSigns w).IsChain fun p q => p.omitsSign q = false := by
  induction w using withProductSigns.induct with
  | case1 => exact .nil
  | case2 t => exact .singleton t
  | case3 p q w h ih =>
    rw [withProductSigns, if_pos h]
    refine .cons_cons (Token.StartsNoFactor.operator _ p) (List.isChain_cons.2 ⟨?_, ih⟩)
    exact fun q' _ => Token.EndsNoFactor.operator _ q'
  | case4 p q w h ih =>
    rw [withProductSigns, if_neg h]
    refine List.isChain_cons.2 ⟨fun q' hq' => ?_, ih⟩
    rw [head?_withProductSigns] at hq'
    obtain rfl := Option.some.inj hq'
    exact Bool.eq_false_iff.2 h

/-- A short word with its signs is the word. -/
theorem eq_of_eq_withProductSigns (h : u = withProductSigns w) (hu : u.length ≤ 2) : w = u := by
  subst h
  exact (withProductSigns_eq_self hu).symm

/-- A word with its signs, behind a first token that is never multiplied with the one behind
it. -/
theorem exists_of_cons_eq_withProductSigns (ht : t.EndsNoFactor)
    (h : t :: u = withProductSigns w) : ∃ v, w = t :: v ∧ u = withProductSigns v := by
  have hw : w.head? = some t := by rw [← head?_withProductSigns, ← h, List.head?_cons]
  obtain ⟨v, rfl⟩ := List.head?_eq_some_iff.1 hw
  rw [withProductSigns_cons ht] at h
  exact ⟨v, rfl, (List.cons.inj h).2⟩

/-- How a word with its signs is taken apart at a token. -/
inductive SignSplit (w u : List (Token R)) (t : Token R) (u' : List (Token R)) : Prop where
  /-- The token stands in the word. -/
  | standing {v v' : List (Token R)} (hw : w = v ++ t :: v') (hu : u = withProductSigns v)
      (hu' : t :: u' = withProductSigns (t :: v')) : SignSplit w u t u'
  /-- The token is a sign that was put in. -/
  | inserted {v v' : List (Token R)} {p q : Token R} (ht : t = .operator .multiply)
      (hw : w = v ++ v') (hu : u = withProductSigns v) (hu' : u' = withProductSigns v')
      (hp : v.getLast? = some p) (hq : v'.head? = some q) (h : p.omitsSign q = true) :
      SignSplit w u t u'

/-- A token in front, with the sign behind it. -/
theorem SignSplit.cons (h : SignSplit (q :: w) u t u') (hu : u = [] → p.omitsSign q = false) :
    SignSplit (p :: q :: w)
      (p :: ((if p.omitsSign q then [.operator .multiply] else []) ++ u)) t u' := by
  cases h with
  | @standing v v' hw hv hu' =>
    cases v with
    | nil =>
      rw [hv, if_neg (by simp [hu hv])]
      exact .standing (v := [p]) (congrArg (p :: ·) hw) rfl hu'
    | cons q' v =>
      obtain ⟨rfl, rfl⟩ := List.cons.inj hw
      rw [hv, ← withProductSigns_cons_cons]
      exact .standing rfl rfl hu'
  | @inserted v v' p' q' ht hw hv hu' hp hq h =>
    cases v with
    | nil => cases hp
    | cons q'' v =>
      obtain ⟨rfl, rfl⟩ := List.cons.inj hw
      rw [hv, ← withProductSigns_cons_cons]
      exact .inserted ht rfl rfl hu' (by rwa [List.getLast?_cons_cons]) hq h

/-- A word with its signs, taken apart at a token that is never multiplied with the one before
it. -/
theorem signSplit_of_eq (ht : t.StartsNoFactor) (h : withProductSigns w = u ++ t :: u') :
    SignSplit w u t u' := by
  induction w using withProductSigns.induct generalizing u with
  | case1 => simp [withProductSigns] at h
  | case2 a =>
    rw [withProductSigns, List.singleton_eq_append_iff] at h
    rcases h with ⟨rfl, h⟩ | ⟨-, h⟩
    · cases h
      exact .standing (v := []) rfl rfl rfl
    · cases h
  | case3 p q w hpq ih =>
    rw [withProductSigns, if_pos hpq] at h
    match u with
    | [] =>
      cases h
      exact .standing (v := []) rfl rfl (by rw [withProductSigns, if_pos hpq])
    | [a] =>
      cases h
      exact .inserted (v := [p]) rfl rfl rfl rfl rfl rfl hpq
    | a :: b :: u =>
      simp only [List.cons_append, List.cons.injEq] at h
      obtain ⟨rfl, rfl, h⟩ := h
      have hsplit := (ih h).cons (p := p) fun hu => by
        -- The word behind the sign starts with a token that is multiplied.
        rw [hu] at h
        have hq := congrArg List.head? h
        rw [head?_withProductSigns] at hq
        obtain rfl := Option.some.inj hq
        exact ht p
      rwa [if_pos hpq] at hsplit
  | case4 p q w hpq ih =>
    rw [withProductSigns, if_neg hpq] at h
    cases u with
    | nil =>
      cases h
      exact .standing (v := []) rfl rfl (by rw [withProductSigns, if_neg hpq])
    | cons a u =>
      simp only [List.cons_append, List.cons.injEq] at h
      obtain ⟨rfl, h⟩ := h
      have hsplit := (ih h).cons (p := p) fun _ => Bool.eq_false_iff.2 hpq
      rwa [if_neg hpq] at hsplit

/-- Taken apart at a token that is never multiplied with its neighbours and is no
multiplication sign, a word with its signs is two words with their signs. -/
theorem exists_of_append_eq_withProductSigns (hs : t.StartsNoFactor) (he : t.EndsNoFactor)
    (ht : t ≠ .operator .multiply) (h : u ++ t :: u' = withProductSigns w) :
    ∃ v v', w = v ++ t :: v' ∧ u = withProductSigns v ∧ u' = withProductSigns v' := by
  cases signSplit_of_eq hs h.symm with
  | @standing v v' hw hu hu' =>
    rw [withProductSigns_cons he] at hu'
    exact ⟨v, v', hw, hu, (List.cons.inj hu').2⟩
  | inserted hmul _ _ _ _ _ _ => exact absurd hmul ht

/-- A word with its signs before a closing bracket, the last token of all. -/
theorem withProductSigns_enclosed {b : Delimiter} (hb : b.isClose = true)
    (w : List (Token R)) :
    withProductSigns (w ++ [.delimiter b]) = withProductSigns w ++ [.delimiter b] := by
  cases hp : w.getLast? with
  | none =>
    rw [List.getLast?_eq_none_iff.1 hp]
    rfl
  | some p =>
    rw [withProductSigns_append hp rfl, if_neg (by simp [Token.StartsNoFactor.close hb p])]
    rfl

/-- What stands before a closing bracket, the last token of all, is a word with its signs. -/
theorem exists_of_enclosed_eq_withProductSigns {b : Delimiter} (hb : b.isClose = true)
    (h : u ++ [.delimiter b] = withProductSigns w) :
    ∃ v, w = v ++ [.delimiter b] ∧ u = withProductSigns v := by
  cases signSplit_of_eq (.close hb) h.symm with
  | @standing v v' hw hu hu' =>
    -- Nothing stands behind the bracket.
    obtain rfl : v' = [] := by
      have hlen := withProductSigns_eq_self (w := .delimiter b :: v') (by rw [← hu']; simp)
      rw [← hu'] at hlen
      exact (List.cons.inj hlen).2.symm
    exact ⟨v, hw, hu⟩
  | inserted hmul _ _ _ _ _ _ => cases hmul

namespace Grammar

/-! ## Signs in formulas -/

theorem startsWithSign_withProductSigns (w : List (Token R)) :
    startsWithSign (withProductSigns w) = startsWithSign w := by
  rw [startsWithSign, startsWithSign, head?_withProductSigns]

variable [Scalar R] {U : FunctionTable R}

omit [Scalar R] in
/-- A sign that is left out is the sign of a product. -/
theorem connective?_multiply :
    Level.product.connective? .multiply = some (.operation .mul) := rfl

/-- A literal omits no sign. -/
theorem bareLiteral_withProductSigns {w : List (Token R)} {e n : Expr R} :
    BareLiteral (withProductSigns w) e n ↔ BareLiteral w e n := by
  constructor
  · intro h
    have hlen : (withProductSigns w).length ≤ 2 := by
      generalize withProductSigns w = u at h
      cases h <;> simp
    rwa [withProductSigns_eq_self hlen] at h
  · intro h
    cases h with
    | number v => exact .number v
    | complex z => exact .complex z
    | quantity v u => exact .quantity v u

omit [Scalar R] in
theorem Assigned.ne_multiply {e e' e'' : Expr R} {op : Operator} (h : Assigned e e' op e'') :
    op ≠ .multiply := by
  rintro rfl
  cases h

omit [Scalar R] in
theorem Trailed.ne_multiply {e e' : Expr R} {op : Operator} (h : Trailed e op e') :
    op ≠ .multiply := by
  rintro rfl
  cases h

-- Each rule of the grammar separates its words by tokens that are not multiplied with their
-- neighbours, apart from the rule for operands side by side, which becomes the one for the
-- connective.
mutual
theorem IsAssignment.withProductSigns {w : List (Token R)} {e : Expr R} :
    IsAssignment U w e → IsAssignment U (SymbolicAlgebra.withProductSigns w) e
  | .chain h => .chain h.withProductSigns
  | .assign h h' he => by
    rw [withProductSigns_separated (.operator _) (.operator _)]
    exact .assign h.withProductSigns h'.withProductSigns he
theorem IsChain.withProductSigns {l : Level} {w : List (Token R)} {e : Expr R} :
    IsChain U l w e → IsChain U l (SymbolicAlgebra.withProductSigns w) e
  | .operand h => .operand h.withProductSigns
  | .connective hk h h' => by
    rw [withProductSigns_separated (.operator _) (.operator _)]
    exact .connective hk h.withProductSigns h'.withProductSigns
  | .juxtaposition hb ha hj h h' => by
    rw [Token.juxtaposed_eq_omitsSign] at hj
    rw [withProductSigns_append hb ha, if_pos hj]
    exact .connective connective?_multiply h.withProductSigns h'.withProductSigns
theorem IsOperand.withProductSigns {l : Level} {w : List (Token R)} {e : Expr R} :
    IsOperand U l w e → IsOperand U l (SymbolicAlgebra.withProductSigns w) e
  | .tighter hl h => .tighter hl h.withProductSigns
  | .signed h => .signed h.withProductSigns
theorem IsSigned.withProductSigns {w : List (Token R)} {e : Expr R} :
    IsSigned U w e → IsSigned U (SymbolicAlgebra.withProductSigns w) e
  | .negateLiteral h => by
    rw [withProductSigns_cons (.operator _)]
    exact .negateLiteral (bareLiteral_withProductSigns.2 h)
  | .negate h hw => by
    rw [withProductSigns_cons (.operator _)]
    exact .negate h.withProductSigns fun e n hn => hw e n (bareLiteral_withProductSigns.1 hn)
  | .not h => by
    rw [withProductSigns_cons (.operator _)]
    exact .not h.withProductSigns
  | .power h => .power h.withProductSigns
theorem IsPower.withProductSigns {w : List (Token R)} {e : Expr R} :
    IsPower U w e → IsPower U (SymbolicAlgebra.withProductSigns w) e
  | .trailing h => .trailing h.withProductSigns
  | .power h h' => by
    rw [withProductSigns_separated (.operator _) (.operator _)]
    exact .power h.withProductSigns h'.withProductSigns
  | .signed h hs h' => by
    rw [withProductSigns_separated (.operator _) (.operator _)]
    exact .signed h.withProductSigns ((startsWithSign_withProductSigns _).trans hs)
      h'.withProductSigns
theorem IsTrailing.withProductSigns {w : List (Token R)} {e : Expr R} :
    IsTrailing U w e → IsTrailing U (SymbolicAlgebra.withProductSigns w) e
  | .primary h => .primary h.withProductSigns
  | .trailing h he => by
    rw [withProductSigns_separated (.operator _) (.operator _)]
    exact .trailing h.withProductSigns he
theorem IsPrimary.withProductSigns {w : List (Token R)} {e : Expr R} :
    IsPrimary U w e → IsPrimary U (SymbolicAlgebra.withProductSigns w) e
  | .literal h => .literal (bareLiteral_withProductSigns.2 h)
  | .truth b => .truth b
  | .name x => .name x
  | .call hb h he => by
    rw [withProductSigns_cons (.call _ _),
      withProductSigns_cons (.opening (Delimiter.isOpen_isClose hb).1),
      withProductSigns_enclosed (Delimiter.isOpen_isClose hb).2]
    exact .call hb h.withProductSigns he
  | .group h => by
    rw [withProductSigns_cons (.opening rfl), withProductSigns_enclosed rfl]
    exact .group h.withProductSigns
  | .list h he => by
    rw [withProductSigns_cons (.opening rfl), withProductSigns_enclosed rfl]
    exact .list h.withProductSigns he
theorem IsBody.withProductSigns {w : List (Token R)} {es : List (Expr R)} :
    IsBody U w es → IsBody U (SymbolicAlgebra.withProductSigns w) es
  | .empty => .empty
  | .members h => .members h.withProductSigns
theorem IsMembers.withProductSigns {w : List (Token R)} {es : List (Expr R)} :
    IsMembers U w es → IsMembers U (SymbolicAlgebra.withProductSigns w) es
  | .one h => .one h.withProductSigns
  | .cons h h' => by
    rw [withProductSigns_separated .comma .comma]
    exact .cons h.withProductSigns h'.withProductSigns
end

-- A sign that was put in is the operator of a connective, and without it the operands stand
-- side by side; the rule for operands side by side derives no word with all its signs.
mutual
theorem IsAssignment.of_withProductSigns {u : List (Token R)} {e : Expr R} :
    IsAssignment U u e → ∀ {w : List (Token R)}, u = SymbolicAlgebra.withProductSigns w →
      IsAssignment U w e
  | .chain h, w, hw => .chain (h.of_withProductSigns hw)
  | .assign h h' he, w, hw => by
    obtain ⟨v, v', rfl, hv, hv'⟩ := exists_of_append_eq_withProductSigns (.operator _)
      (.operator _) (fun hop => he.ne_multiply (Token.operator.inj hop)) hw
    exact .assign (h.of_withProductSigns hv) (h'.of_withProductSigns hv') he
theorem IsChain.of_withProductSigns {l : Level} {u : List (Token R)} {e : Expr R} :
    IsChain U l u e → ∀ {w : List (Token R)}, u = SymbolicAlgebra.withProductSigns w →
      IsChain U l w e
  | .operand h, w, hw => .operand (h.of_withProductSigns hw)
  | .connective hk h h', w, hw => by
    rename_i op k _ _ _ _
    cases signSplit_of_eq (.operator op) hw.symm with
    | standing hv hu hu' =>
      rw [withProductSigns_cons (.operator op)] at hu'
      rw [hv]
      exact .connective hk (h.of_withProductSigns hu)
        (h'.of_withProductSigns (List.cons.inj hu').2)
    | inserted ht hv hu hu' hp hq hj =>
      have hchain := h.of_withProductSigns hu
      have hoperand := h'.of_withProductSigns hu'
      obtain rfl : op = .multiply := Token.operator.inj ht
      obtain ⟨rfl, rfl⟩ : l = .product ∧ k = .operation .mul := by
        cases l <;> cases hk
        exact ⟨rfl, rfl⟩
      rw [hv]
      exact .juxtaposition hp hq ((Token.juxtaposed_eq_omitsSign _ _).trans hj) hchain hoperand
  | .juxtaposition hb ha hj h h', w, hw => by
    have hneighbours := isChain_withProductSigns w
    rw [← hw, List.isChain_append] at hneighbours
    have hno := hneighbours.2.2 _ hb _ ha
    rw [← Token.juxtaposed_eq_omitsSign, hj] at hno
    cases hno
theorem IsOperand.of_withProductSigns {l : Level} {u : List (Token R)} {e : Expr R} :
    IsOperand U l u e → ∀ {w : List (Token R)}, u = SymbolicAlgebra.withProductSigns w →
      IsOperand U l w e
  | .tighter hl h, _, hw => .tighter hl (h.of_withProductSigns hw)
  | .signed h, _, hw => .signed (h.of_withProductSigns hw)
theorem IsSigned.of_withProductSigns {u : List (Token R)} {e : Expr R} :
    IsSigned U u e → ∀ {w : List (Token R)}, u = SymbolicAlgebra.withProductSigns w →
      IsSigned U w e
  | .negateLiteral h, w, hw => by
    obtain ⟨v, rfl, hv⟩ := exists_of_cons_eq_withProductSigns (.operator _) hw
    rw [hv] at h
    exact .negateLiteral (bareLiteral_withProductSigns.1 h)
  | .negate h hn, w, hw => by
    obtain ⟨v, rfl, hv⟩ := exists_of_cons_eq_withProductSigns (.operator _) hw
    rw [hv] at hn
    exact .negate (h.of_withProductSigns hv) fun e n hb =>
      hn e n (bareLiteral_withProductSigns.2 hb)
  | .not h, w, hw => by
    obtain ⟨v, rfl, hv⟩ := exists_of_cons_eq_withProductSigns (.operator _) hw
    exact .not (h.of_withProductSigns hv)
  | .power h, w, hw => .power (h.of_withProductSigns hw)
theorem IsPower.of_withProductSigns {u : List (Token R)} {e : Expr R} :
    IsPower U u e → ∀ {w : List (Token R)}, u = SymbolicAlgebra.withProductSigns w →
      IsPower U w e
  | .trailing h, w, hw => .trailing (h.of_withProductSigns hw)
  | .power h h', w, hw => by
    obtain ⟨v, v', rfl, hv, hv'⟩ :=
      exists_of_append_eq_withProductSigns (.operator .power) (.operator .power) nofun hw
    exact .power (h.of_withProductSigns hv) (h'.of_withProductSigns hv')
  | .signed h hs h', w, hw => by
    obtain ⟨v, v', rfl, hv, hv'⟩ :=
      exists_of_append_eq_withProductSigns (.operator .power) (.operator .power) nofun hw
    rw [hv', startsWithSign_withProductSigns] at hs
    exact .signed (h.of_withProductSigns hv) hs (h'.of_withProductSigns hv')
theorem IsTrailing.of_withProductSigns {u : List (Token R)} {e : Expr R} :
    IsTrailing U u e → ∀ {w : List (Token R)}, u = SymbolicAlgebra.withProductSigns w →
      IsTrailing U w e
  | .primary h, w, hw => .primary (h.of_withProductSigns hw)
  | .trailing h he, w, hw => by
    obtain ⟨v, v', rfl, hv, hv'⟩ := exists_of_append_eq_withProductSigns (.operator _)
      (.operator _) (fun hop => he.ne_multiply (Token.operator.inj hop)) hw
    obtain rfl := withProductSigns_eq_nil.1 hv'.symm
    exact .trailing (h.of_withProductSigns hv) he
theorem IsPrimary.of_withProductSigns {u : List (Token R)} {e : Expr R} :
    IsPrimary U u e → ∀ {w : List (Token R)}, u = SymbolicAlgebra.withProductSigns w →
      IsPrimary U w e
  | .literal h, w, hw => by
    rw [hw] at h
    exact .literal (bareLiteral_withProductSigns.1 h)
  | .truth b, _, hw => by
    rw [eq_of_eq_withProductSigns hw (by simp)]
    exact .truth b
  | .name x, _, hw => by
    rw [eq_of_eq_withProductSigns hw (by simp)]
    exact .name x
  | .call hb h he, w, hw => by
    obtain ⟨ho, hc⟩ := Delimiter.isOpen_isClose hb
    obtain ⟨w₁, rfl, hw₁⟩ := exists_of_cons_eq_withProductSigns (.call _ _) hw
    obtain ⟨w₂, rfl, hw₂⟩ := exists_of_cons_eq_withProductSigns (.opening ho) hw₁
    obtain ⟨v, rfl, hv⟩ := exists_of_enclosed_eq_withProductSigns hc hw₂
    exact .call hb (h.of_withProductSigns hv) he
  | .group h, w, hw => by
    obtain ⟨w₁, rfl, hw₁⟩ := exists_of_cons_eq_withProductSigns (.opening rfl) hw
    obtain ⟨v, rfl, hv⟩ := exists_of_enclosed_eq_withProductSigns rfl hw₁
    exact .group (h.of_withProductSigns hv)
  | .list h he, w, hw => by
    obtain ⟨w₁, rfl, hw₁⟩ := exists_of_cons_eq_withProductSigns (.opening rfl) hw
    obtain ⟨v, rfl, hv⟩ := exists_of_enclosed_eq_withProductSigns rfl hw₁
    exact .list (h.of_withProductSigns hv) he
theorem IsBody.of_withProductSigns {u : List (Token R)} {es : List (Expr R)} :
    IsBody U u es → ∀ {w : List (Token R)}, u = SymbolicAlgebra.withProductSigns w →
      IsBody U w es
  | .empty, w, hw => by
    rw [withProductSigns_eq_nil.1 hw.symm]
    exact .empty
  | .members h, w, hw => .members (h.of_withProductSigns hw)
theorem IsMembers.of_withProductSigns {u : List (Token R)} {es : List (Expr R)} :
    IsMembers U u es → ∀ {w : List (Token R)}, u = SymbolicAlgebra.withProductSigns w →
      IsMembers U w es
  | .one h, w, hw => .one (h.of_withProductSigns hw)
  | .cons h h', w, hw => by
    obtain ⟨v, v', rfl, hv, hv'⟩ :=
      exists_of_append_eq_withProductSigns .comma .comma nofun hw
    exact .cons (h.of_withProductSigns hv) (h'.of_withProductSigns hv')
end

end Grammar

variable [Scalar R]

/-- An omitted multiplication sign is exactly a multiplication sign: tokens form an expression
exactly if they form it with every omitted sign put in. -/
theorem parse_withProductSigns (U : FunctionTable R) (ts : List (Token R)) (e : Expr R) :
    parse U ts = .ok e ↔ parse U (withProductSigns ts) = .ok e := by
  constructor
  · intro h
    exact (Grammar.isAssignment_of_parse h).withProductSigns.parse
  · intro h
    exact ((Grammar.isAssignment_of_parse h).of_withProductSigns rfl).parse

end SymbolicAlgebra
