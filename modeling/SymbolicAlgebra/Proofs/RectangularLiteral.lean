import SymbolicAlgebra.Proofs.DecimalText
import SymbolicAlgebra.Proofs.ExchangedPart
import SymbolicAlgebra.Proofs.RectangularTokens
import SymbolicAlgebra.Proofs.TokenBrackets

set_option autoImplicit false

/-!
# Merging complex literals

A real literal, a plus or minus sign and an imaginary literal are merged into one complex
literal before there is a grammar: the decision rests on the tokens in front of them and on
what follows. It is a decision about precedence, because the three are an operand of their own
only where nothing before them and nothing behind them binds tighter than the sign.

Here it is shown to be right. Where an expression starts in front of the three tokens and a
summand ends behind them, the grammar has exactly one place for them: they are a sum or a
difference by itself. So any complex literal can stand in that place, and everything else
remains as it is (`Grammar.Exchanges`, `Grammar.IsAssignment.exchanges`). The tokens of a draft
after merging are such tokens (`behind_pushImaginary`), and merging regroups nothing
(`parse_merged`).
-/

namespace SymbolicAlgebra

variable {R : Type}

namespace Grammar

variable [Scalar R] {U : FunctionTable R}

/-! ## The sum in its place -/

/-- The expression has the sum at some position, and what is derived for the expression with
any literal in that position is the expression with that literal. -/
def Exchanges (q : Rectangular R) (derives : ComplexNumber R → Expr R → Prop) (e : Expr R) :
    Prop :=
  ∃ p, e.subexprAt? p = some q.sum ∧ ∀ z, derives z (e.replaceAt p (.complex z))

variable {q : Rectangular R}

/-- The exchange is one in a larger word of the same expression. -/
theorem Exchanges.imp {derives derives' : ComplexNumber R → Expr R → Prop} {e : Expr R}
    (h : Exchanges q derives e) (hd : ∀ z e', derives z e' → derives' z e') :
    Exchanges q derives' e := by
  obtain ⟨p, hp, hz⟩ := h
  exact ⟨p, hp, fun z => hd z _ (hz z)⟩

/-- The exchange is one in a direct subexpression. -/
theorem Exchanges.inChild {derives derives' : ComplexNumber R → Expr R → Prop} {e c : Expr R}
    (i : Nat) (h : Exchanges q derives c)
    (hd : ∀ z c', Expr.Alike c c' → derives z c' →
      e.children[i]? = some c ∧ derives' z (e.withChild i c')) :
    Exchanges q derives' e := by
  obtain ⟨p, hp, hz⟩ := h
  have hstep := fun z => hd z _ (Expr.alike_replaceAt hp rfl rfl rfl) (hz z)
  obtain ⟨hc, -⟩ := hstep q.literal
  refine ⟨i :: p, Expr.subexprAt?_cons_eq_some_iff.2 ⟨c, hc, hp⟩, fun z => ?_⟩
  rw [Expr.replaceAt_cons hc]
  exact (hstep z).2

/-- Some member of the list has the sum, and what is derived for the list with any literal in
its place is the list with that literal. -/
def ExchangesMember (q : Rectangular R) (derives : ComplexNumber R → List (Expr R) → Prop)
    (es : List (Expr R)) : Prop :=
  ∃ i c, es[i]? = some c ∧ Exchanges q (fun z c' => derives z (es.set i c')) c

/-- A complex literal is an operand. -/
theorem isOperand_complex (z : ComplexNumber R) :
    IsOperand U .sum [.complex z] (.complex z) :=
  IsSigned.isOperand (.power (.trailing (.primary (.literal (.complex z))))) .sum

omit [Scalar R] in
/-- The sign between the two literals is an operation of sums. -/
theorem connective?_sign {l : Level} {k : Connective}
    (h : l.connective? q.sign = some k) :
    l = .sum ∧ k = .operation (if q.minus then .sub else .add) := by
  unfold Rectangular.sign at h
  cases hm : q.minus <;> rw [hm] at h <;> cases l <;> cases h <;> exact ⟨rfl, rfl⟩

omit [Scalar R] in
/-- A minus sign in front is no operation on two operands. -/
theorem connective?_negate (l : Level) : l.connective? .negate = none := by
  cases l <;> rfl

/-- The real literal with its sign stands for the real part. -/
theorem isSigned_number (q : Rectangular R) : IsSigned U q.number (.number q.real) := by
  unfold Rectangular.number Rectangular.real
  cases q.negated with
  | true => exact .negateLiteral (.number q.re)
  | false => exact .power (.trailing (.primary (.literal (.number q.re))))

omit [Scalar R] in
/-- No bracket closes in the real literal with its sign. -/
theorem closesGroup_of_mem_number {t : Token R} (h : t ∈ q.number) : t.closesGroup = false := by
  unfold Rectangular.number at h
  split at h
  · rcases List.mem_cons.1 h with rfl | h
    · rfl
    · rw [List.mem_singleton.1 h]
      rfl
  · rw [List.mem_singleton.1 h]
    rfl

/-- A sum of the real literal and the imaginary one has nothing in front of it and nothing
behind. -/
theorem exchanges_sum {A B : List (Token R)} {e e' : Expr R} (hs : Surrounds A B)
    (h : IsChain U .sum (A ++ q.number) e)
    (h' : IsOperand U .sum (.complex q.imaginary :: B) e') :
    Exchanges q (fun z => IsChain U .sum (A ++ .complex z :: B))
      (.binary (if q.minus then .sub else .add) e e') := by
  -- In front: an expression that starts behind a token ends behind a closing bracket.
  have hA : A = [] := by
    rcases List.eq_nil_or_concat A with rfl | ⟨A, t, rfl⟩
    · rfl
    · have hopens := hs.opens
      rw [List.concat_eq_append, List.getLast?_concat] at hopens
      rw [List.concat_eq_append, List.append_assoc] at h
      obtain ⟨b, hb, hclose⟩ := h.opensClosed A t q.number rfl hopens
      rw [closesGroup_of_mem_number hb] at hclose
      cases hclose
  -- Behind: nothing that ends a summand goes on with a product.
  have hB : B = [] := by
    cases B with
    | nil => rfl
    | cons t B =>
      cases h' with
      | tighter hl h' =>
        obtain rfl := Option.some.inj hl
        have hends := h'.endsSummand_eq (.complex q.imaginary) rfl rfl
        rw [show t.endsSummand = true from hs.ends] at hends
        cases hends
  subst hA hB
  have he : e = .number q.real := h.isAssignment.unique (isSigned_number q).isAssignment
  have he' : e' = .complex q.imaginary :=
    (IsChain.operand h').isAssignment.unique (IsChain.operand (isOperand_complex _)).isAssignment
  subst he he'
  exact ⟨[], rfl, fun z => .operand (isOperand_complex z)⟩

/-- There is no sign of a sum in a literal. -/
theorem BareLiteral.not_mem_operator {w : List (Token R)} {e n : Expr R}
    (h : BareLiteral w e n) (op : Operator) : Token.operator op ∉ w := by
  cases h <;> simp

/-- A literal has at most one token before a complex literal, which is then none. -/
theorem not_bareLiteral_of_complex {A B : List (Token R)} (hA : A ≠ []) {z : ComplexNumber R}
    {e n : Expr R} : ¬ BareLiteral (A ++ .complex z :: B) e n := by
  intro h
  generalize hw : A ++ .complex z :: B = w at h
  rcases A with _ | ⟨a, _ | ⟨b, A⟩⟩
  · exact hA rfl
  · cases h <;> cases hw
  · cases h <;> cases A <;> cases hw

omit [Scalar R] in
/-- The first token alone tells whether a word starts with a sign. -/
theorem startsWithSign_append {A : List (Token R)} (hA : A ≠ []) (w w' : List (Token R)) :
    startsWithSign (A ++ w) = startsWithSign (A ++ w') := by
  cases A with
  | nil => exact absurd rfl hA
  | cons t A => rfl

-- Each rule separates its words by a token that stands before the three parts of the literal
-- or behind them, so that they are within one of the words. Only the rule for the connectives
-- of sums can separate them, at their own sign.
mutual
theorem IsAssignment.exchanges {w : List (Token R)} {e : Expr R} :
    IsAssignment U w e → ∀ {A B : List (Token R)}, Surrounds A B →
      w = A ++ (q.tokens ++ B) →
      Exchanges q (fun z => IsAssignment U (A ++ .complex z :: B)) e
  | .chain h, A, B, hs, hw => (h.exchanges hs hw).imp fun _ _ => .chain
  | .assign h h' he, A, B, hs, hw => by
    have ho := (assigned_iff.1 he).1
    rcases Rectangular.separated_split (fun _ _ => Rectangular.not_inside_operator _
      (by rintro rfl; cases ho) (by rintro rfl; cases ho) (by rintro rfl; cases ho)) hw with
      ⟨A', rfl, hv⟩ | ⟨B', rfl, hu⟩
    · refine (h'.exchanges hs.of_before hv).inChild 1 fun z c' _ hc => ?_
      rw [List.append_assoc]
      exact ⟨(he.withValue c').1, .assign h hc (he.withValue c').2⟩
    · refine (h.exchanges hs.of_after hu).inChild 0 fun z c' ha hc => ?_
      rw [← List.cons_append, ← List.append_assoc]
      exact ⟨(he.withTarget ha).1, .assign hc h' (he.withTarget ha).2⟩
theorem IsChain.exchanges {l : Level} {w : List (Token R)} {e : Expr R} :
    IsChain U l w e → ∀ {A B : List (Token R)}, Surrounds A B →
      w = A ++ (q.tokens ++ B) →
      Exchanges q (fun z => IsChain U l (A ++ .complex z :: B)) e
  | .operand h, A, B, hs, hw => (h.exchanges hs hw).imp fun _ _ => .operand
  | .connective hk h h', A, B, hs, hw => by
    rename_i op k w w' e e'
    cases partSplit_of_eq hw with
    | before hA hv =>
      subst hA
      refine (h'.exchanges hs.of_before hv).inChild 1 fun z c' _ hc => ?_
      rw [List.append_assoc]
      cases k <;> exact ⟨rfl, .connective hk h hc⟩
    | inside hm hu hv =>
      rcases Rectangular.inside_operator hm with ⟨rfl, -⟩ | ⟨rfl, rfl, rfl⟩
      · rw [connective?_negate] at hk
        cases hk
      · obtain ⟨rfl, rfl⟩ := connective?_sign hk
        rw [hu] at h
        rw [hv] at h'
        exact exchanges_sum hs h h'
    | after hB hu =>
      subst hB
      refine (h.exchanges hs.of_after hu).inChild 0 fun z c' _ hc => ?_
      rw [← List.cons_append, ← List.append_assoc]
      cases k <;> exact ⟨rfl, .connective hk hc h'⟩
  | .juxtaposition hb ha hj h h', A, B, hs, hw => by
    rename_i before after w w' e e'
    obtain ⟨v, hv'⟩ := List.head?_eq_some_iff.1 ha
    have hw₁ : w ++ after :: v = A ++ (q.tokens ++ B) := by rw [← hv', hw]
    cases partSplit_of_eq hw₁ with
    | @before A' hA hv =>
      subst hA
      have hw' : w' = (after :: A') ++ (q.tokens ++ B) := by
        rw [hv', hv]
        rfl
      refine (h'.exchanges hs.of_append hw').inChild 1 fun z c' _ hc => ⟨rfl, ?_⟩
      rw [List.append_assoc]
      exact .juxtaposition hb rfl hj h hc
    | inside hm hu _ =>
      rw [hu] at hb
      rw [Rectangular.inside_juxtaposed hm hs.opens hb] at hj
      cases hj
    | @after B' hB hu =>
      subst hB
      refine (h.exchanges hs.of_after hu).inChild 0 fun z c' _ hc => ⟨rfl, ?_⟩
      cases B' with
      | nil =>
        -- Right behind the literal a summand ends, and nothing is multiplied with it.
        have hends : after.endsSummand = true := hs.ends
        rw [endsSummand_of_juxtaposed hj] at hends
        cases hends
      | cons b B' =>
        rw [hu, ← List.append_assoc, List.getLast?_append_cons] at hb
        rw [← List.cons_append, ← List.append_assoc, ← hv']
        refine .juxtaposition ?_ ha hj hc h'
        rw [List.getLast?_append_cons, List.getLast?_cons_cons]
        exact hb
theorem IsOperand.exchanges {l : Level} {w : List (Token R)} {e : Expr R} :
    IsOperand U l w e → ∀ {A B : List (Token R)}, Surrounds A B →
      w = A ++ (q.tokens ++ B) →
      Exchanges q (fun z => IsOperand U l (A ++ .complex z :: B)) e
  | .tighter hl h, _, _, hs, hw => (h.exchanges hs hw).imp fun _ _ => .tighter hl
  | .signed h, _, _, hs, hw => (h.exchanges hs hw).imp fun _ _ => .signed
theorem IsSigned.exchanges {w : List (Token R)} {e : Expr R} :
    IsSigned U w e → ∀ {A B : List (Token R)}, Surrounds A B →
      w = A ++ (q.tokens ++ B) →
      Exchanges q (fun z => IsSigned U (A ++ .complex z :: B)) e
  | .negateLiteral h, _, _, _, hw => by
    rcases List.mem_cons.1 (Rectangular.sign_mem hw) with hsign | hmem
    · exact absurd (Token.operator.inj hsign) q.sign_ne_negate
    · exact absurd hmem (h.not_mem_operator _)
  | .negate h hn, A, B, hs, hw => by
    cases partSplit_of_eq (u := []) hw with
    | before hA hv =>
      subst hA
      have hne := hs.ne_nil_of_before (u := []) rfl
      refine (h.exchanges (hs.of_before (u := [])) hv).inChild 0 fun z c' _ hc => ⟨rfl, ?_⟩
      exact .negate hc fun _ _ => not_bareLiteral_of_complex hne
    | inside hm hu hv =>
      -- The real literal with its sign is a signed operand, which does not go on.
      rw [(List.append_eq_nil_iff.1 hu.symm).2] at hm
      rw [Rectangular.tokens_eq_negate hm] at hv
      have hends := h.endsSummand_eq (.number q.re) hv
      rw [q.endsSummand_sign] at hends
      cases hends
    | after _ hu => cases Rectangular.sign_mem hu
  | .not h, A, B, hs, hw => by
    obtain ⟨A', rfl, hv⟩ := Rectangular.cons_split
      (fun _ _ => Rectangular.not_inside_operator .not nofun nofun nofun) hw
    exact (h.exchanges (hs.of_before (u := [])) hv).inChild 0 fun z c' _ hc => ⟨rfl, .not hc⟩
  | .power h, A, B, hs, hw => (h.exchanges hs hw).imp fun _ _ => .power
theorem IsPower.exchanges {w : List (Token R)} {e : Expr R} :
    IsPower U w e → ∀ {A B : List (Token R)}, Surrounds A B →
      w = A ++ (q.tokens ++ B) →
      Exchanges q (fun z => IsPower U (A ++ .complex z :: B)) e
  | .trailing h, A, B, hs, hw => (h.exchanges hs hw).imp fun _ _ => .trailing
  | .power h h', A, B, hs, hw => by
    rcases Rectangular.separated_split
      (fun _ _ => Rectangular.not_inside_operator .power nofun nofun nofun) hw with
      ⟨A', rfl, hv⟩ | ⟨B', rfl, hu⟩
    · refine (h'.exchanges hs.of_before hv).inChild 1 fun z c' _ hc => ?_
      rw [List.append_assoc]
      exact ⟨rfl, .power h hc⟩
    · refine (h.exchanges hs.of_after hu).inChild 0 fun z c' _ hc => ?_
      rw [← List.cons_append, ← List.append_assoc]
      exact ⟨rfl, .power hc h'⟩
  | .signed h hsign h', A, B, hs, hw => by
    rcases Rectangular.separated_split
      (fun _ _ => Rectangular.not_inside_operator .power nofun nofun nofun) hw with
      ⟨A', rfl, hv⟩ | ⟨B', rfl, hu⟩
    · have hne := hs.ne_nil_of_before rfl
      refine (h'.exchanges hs.of_before hv).inChild 1 fun z c' _ hc => ?_
      rw [hv, startsWithSign_append hne _ (.complex z :: B)] at hsign
      rw [List.append_assoc]
      exact ⟨rfl, .signed h hsign hc⟩
    · refine (h.exchanges hs.of_after hu).inChild 0 fun z c' _ hc => ?_
      rw [← List.cons_append, ← List.append_assoc]
      exact ⟨rfl, .signed hc hsign h'⟩
theorem IsTrailing.exchanges {w : List (Token R)} {e : Expr R} :
    IsTrailing U w e → ∀ {A B : List (Token R)}, Surrounds A B →
      w = A ++ (q.tokens ++ B) →
      Exchanges q (fun z => IsTrailing U (A ++ .complex z :: B)) e
  | .primary h, A, B, hs, hw => (h.exchanges hs hw).imp fun _ _ => .primary
  | .trailing h he, A, B, hs, hw => by
    obtain ⟨B', rfl, hu⟩ := Rectangular.concat_split (fun _ _ =>
      Rectangular.not_inside_operator _ (by rintro rfl; cases he) (by rintro rfl; cases he)
        (by rintro rfl; cases he)) hw
    refine (h.exchanges hs.of_after hu).inChild 0 fun z c' ha hc => ?_
    rw [← List.cons_append, ← List.append_assoc]
    exact ⟨(he.withOperand ha).1, .trailing hc (he.withOperand ha).2⟩
theorem IsPrimary.exchanges {w : List (Token R)} {e : Expr R} :
    IsPrimary U w e → ∀ {A B : List (Token R)}, Surrounds A B →
      w = A ++ (q.tokens ++ B) →
      Exchanges q (fun z => IsPrimary U (A ++ .complex z :: B)) e
  | .literal h, _, _, _, hw => absurd (Rectangular.sign_mem hw) (h.not_mem_operator _)
  | .truth _, _, _, _, hw | .name _, _, _, _, hw => by
    cases List.mem_singleton.1 (Rectangular.sign_mem hw)
  | .call hb h he, A, B, hs, hw => by
    obtain ⟨A₁, rfl, hw₁⟩ :=
      Rectangular.cons_split (fun _ _ => Rectangular.not_inside_call _ _) hw
    obtain ⟨A₂, rfl, hw₂⟩ :=
      Rectangular.cons_split (fun _ _ => Rectangular.not_inside_delimiter _) hw₁
    obtain ⟨B', rfl, hu⟩ :=
      Rectangular.concat_split (fun _ _ => Rectangular.not_inside_delimiter _) hw₂
    obtain ⟨i, c, hc, hex⟩ :=
      h.exchanges (hs.of_before (u := [_])).of_after hu
    refine hex.inChild i fun z c' ha hbody => ⟨(he.withArgument hc ha).1, ?_⟩
    have hcall := IsPrimary.call hb hbody (he.withArgument hc ha).2
    rw [List.length_set, List.append_assoc] at hcall
    exact hcall
  | .group h, A, B, hs, hw => by
    obtain ⟨A₁, rfl, hw₁⟩ :=
      Rectangular.cons_split (fun _ _ => Rectangular.not_inside_delimiter _) hw
    obtain ⟨B', rfl, hu⟩ :=
      Rectangular.concat_split (fun _ _ => Rectangular.not_inside_delimiter _) hw₁
    refine (h.exchanges (hs.of_before (u := [])).of_after hu).imp fun z e' hg => ?_
    have hgroup := IsPrimary.group hg
    rw [List.append_assoc] at hgroup
    exact hgroup
  | .list h he, A, B, hs, hw => by
    obtain ⟨A₁, rfl, hw₁⟩ :=
      Rectangular.cons_split (fun _ _ => Rectangular.not_inside_delimiter _) hw
    obtain ⟨B', rfl, hu⟩ :=
      Rectangular.concat_split (fun _ _ => Rectangular.not_inside_delimiter _) hw₁
    obtain ⟨i, c, hc, hex⟩ := h.exchanges (hs.of_before (u := [])).of_after hu
    refine hex.inChild i fun z c' ha hbody => ⟨(he.withMember hc ha).1, ?_⟩
    have hlist := IsPrimary.list hbody (he.withMember hc ha).2
    rw [List.append_assoc] at hlist
    exact hlist
theorem IsBody.exchanges {w : List (Token R)} {es : List (Expr R)} :
    IsBody U w es → ∀ {A B : List (Token R)}, Surrounds A B →
      w = A ++ (q.tokens ++ B) →
      ExchangesMember q (fun z => IsBody U (A ++ .complex z :: B)) es
  | .empty, _, _, _, hw => by cases Rectangular.sign_mem hw
  | .members h, A, B, hs, hw => by
    obtain ⟨i, c, hc, hex⟩ := h.exchanges hs hw
    exact ⟨i, c, hc, hex.imp fun _ _ => .members⟩
theorem IsMembers.exchanges {w : List (Token R)} {es : List (Expr R)} :
    IsMembers U w es → ∀ {A B : List (Token R)}, Surrounds A B →
      w = A ++ (q.tokens ++ B) →
      ExchangesMember q (fun z => IsMembers U (A ++ .complex z :: B)) es
  | .one h, A, B, hs, hw => ⟨0, _, rfl, (h.exchanges hs hw).imp fun _ _ => .one⟩
  | .cons h h', A, B, hs, hw => by
    rcases Rectangular.separated_split
      (fun _ _ => Rectangular.not_inside_delimiter .comma) hw with
      ⟨A', rfl, hv⟩ | ⟨B', rfl, hu⟩
    · obtain ⟨i, c, hc, hex⟩ := h'.exchanges hs.of_before hv
      refine ⟨i + 1, c, hc, hex.imp fun z c' hm => ?_⟩
      dsimp only
      rw [List.append_assoc]
      exact .cons h hm
    · refine ⟨0, _, rfl, (h.exchanges hs.of_after hu).imp fun z c' hm => ?_⟩
      dsimp only
      rw [← List.cons_append, ← List.append_assoc]
      exact .cons hm h'
end

end Grammar

/-! ## Merging -/

variable [Scalar R]

omit [Scalar R] in
/-- What has been read of a draft that ends in a real literal and a sign. -/
theorem view_eq {d : Draft R} {A : List (Token R)} {q : Rectangular R}
    (hd : d.behind.reverse = A ++ (q.number ++ [.operator q.sign])) :
    d.view =
      ((if q.negated then View.push ⟨A.reverse, d.view.opened⟩ (Token.operator .negate)
        else ⟨A.reverse, d.view.opened⟩).push (.number q.re)).push
          (.operator (if q.minus then .minus else .plus)) := by
  have hwords : d.view.words = (A ++ (q.number ++ [Token.operator q.sign])).reverse :=
    List.reverse_eq_iff.1 hd
  have hview : d.view = ⟨d.view.words, d.view.opened⟩ := rfl
  rw [hview, hwords, Rectangular.number]
  cases q.negated <;> simp [View.push, Rectangular.sign]

/-- Where an expression starts behind the tokens in front, the real literal and the sign at
the end of a draft are merged with the imaginary literal that follows. -/
theorem behind_pushImaginary {d : Draft R} {A : List (Token R)} {q : Rectangular R}
    (hA : A.getLast?.all Token.opensExpression = true)
    (hd : d.behind.reverse = A ++ (q.number ++ [.operator q.sign])) (offset : Nat) :
    (d.pushImaginary q.im offset true).behind.reverse = A ++ [.complex q.literal] := by
  have hstarts : View.startsExpression ⟨A.reverse, d.view.opened⟩ = true := by
    rw [View.startsExpression, List.head?_reverse]
    exact hA
  obtain ⟨m, hm, hreal, hnegative, hbefore⟩ := Draft.mergeable?_of_view hstarts (view_eq hd)
  have hpush : d.pushImaginary q.im offset true =
      m.before.push (.complex q.literal) m.offset := by
    simp only [Draft.pushImaginary, hm, hreal, hnegative, Rectangular.literal, Rectangular.real]
  have hbehind : m.before.behind = A.reverse := congrArg View.words hbefore
  rw [hpush, Draft.behind, Draft.push, List.map_cons, List.reverse_cons]
  rw [show m.before.tokens.map (·.token) = A.reverse from hbehind, List.reverse_reverse]

/-- Merging regroups nothing. Where a formula is made of tokens in front of an expression, a
literal in rectangular form and tokens behind a summand, the three tokens of the literal are
merged into one, the formula has their sum at some position, and with the merged literal in
that position it is the formula of the merged tokens. The position is the one of these tokens:
another literal in their place would be in the same position. -/
theorem parse_merged {U : FunctionTable R} {A B : List (Token R)} {q : Rectangular R}
    {u : Expr R} (hs : Surrounds A B) (h : parse U (A ++ (q.tokens ++ B)) = .ok u) :
    (∀ (d : Draft R) (offset : Nat),
      d.behind.reverse = A ++ (q.number ++ [.operator q.sign]) →
      (d.pushImaginary q.im offset true).behind.reverse = A ++ [.complex q.literal]) ∧
    ∃ p, u.subexprAt? p = some q.sum ∧
      parse U (A ++ .complex q.literal :: B) = .ok (u.replaceAt p (.complex q.literal)) ∧
      ∀ z, parse U (A ++ .complex z :: B) = .ok (u.replaceAt p (.complex z)) := by
  constructor
  · intro d offset hd
    exact behind_pushImaginary hs.opens hd offset
  · obtain ⟨p, hp, hz⟩ := (Grammar.isAssignment_of_parse h).exchanges hs rfl
    exact ⟨p, hp, (hz q.literal).parse, fun z => (hz z).parse⟩

/-- In `x := -3 - 2i < y` the literal on the left of the comparison is merged. -/
theorem parse_merged_comparison :
    let U : FunctionTable Whole := FunctionTable.empty
    let u : Expr Whole := .define (.var "x")
      (.binary .less (.sub (.number ⟨-3⟩) (.complex ⟨⟨0⟩, ⟨2⟩⟩)) (.var "y"))
    parse U [.name "x", .operator .assign, .operator .negate, .number ⟨3⟩, .operator .minus,
      .complex ⟨⟨0⟩, ⟨2⟩⟩, .operator .less, .name "y"] = .ok u ∧
    ∃ p, u.subexprAt? p = some (.sub (.number ⟨-3⟩) (.complex ⟨⟨0⟩, ⟨2⟩⟩)) ∧
      parse U [.name "x", .operator .assign, .complex ⟨⟨-3⟩, ⟨-2⟩⟩, .operator .less, .name "y"] =
        .ok (u.replaceAt p (.complex ⟨⟨-3⟩, ⟨-2⟩⟩)) := by
  intro U u
  let q : Rectangular Whole := ⟨true, ⟨3⟩, true, ⟨2⟩⟩
  have hname (x : String) : Grammar.IsSigned U [.name x] (.var x) :=
    .power (.trailing (.primary (.name x)))
  have hnumber : Grammar.IsChain U .sum q.number (.number q.real) :=
    .operand ((Grammar.isSigned_number q).isOperand _)
  have hsum : Grammar.IsChain U .sum q.tokens q.sum :=
    .connective (k := .operation .sub) rfl hnumber (Grammar.isOperand_complex q.imaginary)
  have hsums : Grammar.IsChain U .comparison q.tokens q.sum :=
    .operand (.tighter rfl (.operand (.tighter rfl (.operand (.tighter rfl hsum)))))
  have hless : Grammar.IsChain U .comparison (q.tokens ++ [.operator .less, .name "y"])
      (.binary .less q.sum (.var "y")) :=
    .connective (k := .operation .less) rfl hsums ((hname "y").isOperand _)
  have hx : Grammar.IsAssignment U ([.name "x"] ++ .operator .assign ::
      (q.tokens ++ [.operator .less, .name "y"])) u :=
    .assign (.operand ((hname "x").isOperand _)) hless.isAssignment (.define rfl)
  have hu : parse U ([.name "x", .operator .assign] ++
      (q.tokens ++ [.operator .less, .name "y"])) = .ok u := hx.parse
  obtain ⟨-, p, hp, hmerged, -⟩ := parse_merged ⟨rfl, rfl⟩ hu
  exact ⟨hu, p, hp, hmerged⟩

end SymbolicAlgebra
