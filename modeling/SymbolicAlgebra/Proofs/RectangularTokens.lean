import SymbolicAlgebra.Proofs.GrammarComplete
import SymbolicAlgebra.Proofs.GrammarSound

set_option autoImplicit false

/-!
# The tokens of a complex literal and what surrounds them

A real literal, a plus or minus sign and an imaginary literal are a complex literal in
rectangular form (`Rectangular`). Where they stand in a formula is decided by two facts about words
of the grammar. An operand never ends behind a token that opens an expression, unless a bracket has
been closed since (`Grammar.IsChain.opensClosed`). And within a product, nothing that ends a
summand follows on a literal (`Grammar.IsChain.endsSummand_eq`).

A token that stands in a word of three parts stands in one of them (`partSplit_of_eq`), which for
the tokens of the literal gives a few cases (`Rectangular.inside_cases`). A word stands for one
expression only (`Grammar.IsAssignment.unique`).
-/

namespace SymbolicAlgebra

variable {R : Type}

/-! ## Tokens that end a summand -/

/-- The texts with which an operator is written, apart from words. -/
def Operator.spellings : Operator → List String
  | .assign => [":=", "="]
  | .negate => ["-"]
  | op => [op.symbol]

/-- Whether the token ends a summand: a closing bracket, a comma, or an operator with a text
that starts with one of the characters given. -/
def Token.endsSummand : Token R → Bool
  | .delimiter d => !d.isOpen
  | .operator op => op.spellings.any fun s => s.toList.head?.any "+-=<>&|".toList.contains
  | _ => false

/-- The tokens around a literal in rectangular form: in front of it an expression starts, and
behind it a summand ends. -/
structure Surrounds (before after : List (Token R)) : Prop where
  /-- An expression starts behind the tokens in front. -/
  opens : before.getLast?.all Token.opensExpression = true
  /-- A summand ends before the tokens behind. -/
  ends : after.head?.all Token.endsSummand = true

namespace Surrounds

variable {A B u v : List (Token R)} {t : Token R}

/-- Fewer tokens in front, but some. -/
theorem of_append (h : Surrounds (u ++ t :: A) B) : Surrounds (t :: A) B := by
  refine ⟨?_, h.ends⟩
  have hopens := h.opens
  rwa [List.getLast?_append_cons] at hopens

/-- Fewer tokens in front. -/
theorem of_before (h : Surrounds (u ++ t :: A) B) : Surrounds A B := by
  refine ⟨?_, h.ends⟩
  have hopens := h.of_append.opens
  cases A with
  | nil => rfl
  | cons a A => rwa [List.getLast?_cons_cons] at hopens

/-- Behind a token behind which no expression starts there is another one. -/
theorem ne_nil_of_before (h : Surrounds (u ++ t :: A) B) (ht : t.opensExpression = false) :
    A ≠ [] := by
  rintro rfl
  have hopens := h.opens
  rw [List.getLast?_append_cons] at hopens
  exact absurd (ht.symm.trans hopens) nofun

/-- Fewer tokens behind. -/
theorem of_after (h : Surrounds A (B ++ t :: v)) : Surrounds A B := by
  refine ⟨h.opens, ?_⟩
  have hends := h.ends
  cases B with
  | nil => rfl
  | cons b B => exact hends

end Surrounds

/-! ## Literals in rectangular form -/

/-- A real literal with a minus sign or without, a plus or minus sign, and an imaginary
literal. -/
structure Rectangular (R : Type) where
  /-- Whether there is a minus sign before the real literal. -/
  negated : Bool
  /-- The real literal. -/
  re : R
  /-- Whether the sign between the two literals is a minus sign. -/
  minus : Bool
  /-- The imaginary part of the imaginary literal. -/
  im : R

namespace Rectangular

/-- The tokens of the real literal with its sign. -/
def number (q : Rectangular R) : List (Token R) :=
  if q.negated then [.operator .negate, .number q.re] else [.number q.re]

/-- The sign between the two literals. -/
def sign (q : Rectangular R) : Operator := if q.minus then .minus else .plus

variable [Scalar R]

/-- The imaginary literal. -/
def imaginary (q : Rectangular R) : ComplexNumber R := ⟨0, q.im⟩

/-- All tokens. -/
def tokens (q : Rectangular R) : List (Token R) :=
  q.number ++ [.operator q.sign, .complex q.imaginary]

/-- The real part with its sign. -/
def real (q : Rectangular R) : R := if q.negated then -q.re else q.re

/-- The literal that the tokens are merged into. -/
def literal (q : Rectangular R) : ComplexNumber R := ⟨q.real, if q.minus then -q.im else q.im⟩

/-- The sum or difference that the tokens form. -/
def sum (q : Rectangular R) : Expr R :=
  .binary (if q.minus then .sub else .add) (.number q.real) (.complex q.imaginary)

end Rectangular

/-- No group ends with a token behind which an expression starts. -/
theorem Token.closesGroup_of_opensExpression {t : Token R} (h : t.opensExpression = true) :
    t.closesGroup = false := by
  cases t with
  | delimiter d => cases d <;> first | rfl | cases h
  | _ => rfl

/-! ## A token in a word of three parts -/

/-- Where a token stands in a word of three parts. -/
inductive PartSplit (u : List (Token R)) (t : Token R) (v A w B : List (Token R)) : Prop where
  /-- In the first part. -/
  | before {A' : List (Token R)} (hA : A = u ++ t :: A') (hv : v = A' ++ (w ++ B)) :
    PartSplit u t v A w B
  /-- In the second part. -/
  | inside {m m' : List (Token R)} (hw : w = m ++ t :: m') (hu : u = A ++ m)
    (hv : v = m' ++ B) : PartSplit u t v A w B
  /-- In the third part. -/
  | after {B' : List (Token R)} (hB : B = B' ++ t :: v) (hu : u = A ++ (w ++ B')) :
    PartSplit u t v A w B

/-- A token of a word of three parts stands in one of them. -/
theorem partSplit_of_eq {u v A w B : List (Token R)} {t : Token R}
    (h : u ++ t :: v = A ++ (w ++ B)) : PartSplit u t v A w B := by
  rcases List.append_eq_append_iff.1 h with ⟨x, rfl, hx⟩ | ⟨x, rfl, hx⟩
  · cases x with
    | nil =>
      cases w with
      | nil => exact .after (show B = [] ++ t :: v from hx.symm) (by simp)
      | cons a w =>
        obtain ⟨rfl, rfl⟩ := List.cons.inj hx
        exact .inside (m := []) rfl (by simp) rfl
    | cons a x =>
      obtain ⟨rfl, rfl⟩ := List.cons.inj hx
      exact .before rfl rfl
  · rcases List.append_eq_append_iff.1 hx with ⟨y, rfl, hy⟩ | ⟨y, rfl, hy⟩
    · exact .after hy (by simp)
    · cases y with
      | nil => exact .after (show B = [] ++ t :: v from hy.symm) (by simp)
      | cons a y =>
        obtain ⟨rfl, rfl⟩ := List.cons.inj hy
        exact .inside rfl rfl rfl

namespace Rectangular

variable [Scalar R] {q : Rectangular R} {m m' : List (Token R)} {t : Token R}

/-- The tokens one by one, with what stands before and behind each. -/
theorem inside_cases (h : q.tokens = m ++ t :: m') :
    (t = .operator .negate ∧ m = []) ∨
    (t = .number q.re ∧ (m = [] ∨ m = [.operator .negate])) ∨
    (t = .operator q.sign ∧ m = q.number ∧ m' = [.complex q.imaginary]) ∨
    (t = .complex q.imaginary ∧ m = q.number ++ [.operator q.sign]) := by
  unfold tokens number at *
  cases hn : q.negated <;>
    rcases m with _ | ⟨_, _ | ⟨_, _ | ⟨_, _ | ⟨_, m⟩⟩⟩⟩ <;>
    simp_all

/-- An operator among the tokens is the minus sign in front or the sign between the two
literals. -/
theorem inside_operator {op : Operator} (h : q.tokens = m ++ .operator op :: m') :
    (op = .negate ∧ m = []) ∨
      (op = q.sign ∧ m = q.number ∧ m' = [.complex q.imaginary]) := by
  rcases inside_cases h with ⟨ht, hm⟩ | ⟨ht, -⟩ | ⟨ht, hm⟩ | ⟨ht, -⟩
  · exact .inl ⟨Token.operator.inj ht, hm⟩
  · cases ht
  · exact .inr ⟨Token.operator.inj ht, hm⟩
  · cases ht

/-- There is no bracket and no comma among the tokens. -/
theorem not_inside_delimiter (d : Delimiter) : q.tokens ≠ m ++ .delimiter d :: m' := by
  intro h
  rcases inside_cases h with ⟨ht, -⟩ | ⟨ht, -⟩ | ⟨ht, -⟩ | ⟨ht, -⟩ <;> cases ht

/-- There is no call among the tokens. -/
theorem not_inside_call (f : String) (n : Nat) : q.tokens ≠ m ++ .call f n :: m' := by
  intro h
  rcases inside_cases h with ⟨ht, -⟩ | ⟨ht, -⟩ | ⟨ht, -⟩ | ⟨ht, -⟩ <;> cases ht

/-- There is no operator among the tokens apart from signs. -/
theorem not_inside_operator (op : Operator) (hneg : op ≠ .negate) (hplus : op ≠ .plus)
    (hminus : op ≠ .minus) : q.tokens ≠ m ++ .operator op :: m' := by
  intro h
  rcases inside_operator h with ⟨hop, -⟩ | ⟨hop, -⟩
  · exact hneg hop
  · unfold sign at hop
    split at hop
    · exact hminus hop
    · exact hplus hop

/-- A word of three parts with the tokens in the middle has the sign. -/
theorem sign_mem {w A B : List (Token R)} (hw : w = A ++ (q.tokens ++ B)) :
    Token.operator q.sign ∈ w := by
  rw [hw]
  simp [tokens]

omit [Scalar R] in
/-- The sign is no minus sign in front of an operand. -/
theorem sign_ne_negate (q : Rectangular R) : q.sign ≠ .negate := by
  unfold sign
  split <;> nofun

omit [Scalar R] in
/-- A summand ends before the sign. -/
theorem endsSummand_sign (q : Rectangular R) :
    (Token.operator q.sign : Token R).endsSummand = true := by
  unfold sign
  split <;> rfl

/-- Behind a minus sign in front the other tokens follow. -/
theorem tokens_eq_negate (h : q.tokens = .operator .negate :: m') :
    m' = [.number q.re, .operator q.sign, .complex q.imaginary] := by
  unfold tokens number at h
  split at h
  · exact (List.cons.inj h).2.symm
  · cases h

/-- A token in front that is none of the tokens stands before them. -/
theorem cons_split {v A B : List (Token R)} (ht : ∀ m m', q.tokens ≠ m ++ t :: m')
    (h : t :: v = A ++ (q.tokens ++ B)) : ∃ A', A = t :: A' ∧ v = A' ++ (q.tokens ++ B) := by
  cases partSplit_of_eq (u := []) h with
  | before hA hv => exact ⟨_, hA, hv⟩
  | inside hw _ _ => exact absurd hw (ht _ _)
  | after _ hu => cases sign_mem hu

/-- A token between two words that is none of the tokens stands before or behind them. -/
theorem separated_split {u v A B : List (Token R)} (ht : ∀ m m', q.tokens ≠ m ++ t :: m')
    (h : u ++ t :: v = A ++ (q.tokens ++ B)) :
    (∃ A', A = u ++ t :: A' ∧ v = A' ++ (q.tokens ++ B)) ∨
      ∃ B', B = B' ++ t :: v ∧ u = A ++ (q.tokens ++ B') := by
  cases partSplit_of_eq h with
  | before hA hv => exact .inl ⟨_, hA, hv⟩
  | inside hw _ _ => exact absurd hw (ht _ _)
  | after hB hu => exact .inr ⟨_, hB, hu⟩

/-- A last token that is none of the tokens stands behind them. -/
theorem concat_split {u A B : List (Token R)} (ht : ∀ m m', q.tokens ≠ m ++ t :: m')
    (h : u ++ [t] = A ++ (q.tokens ++ B)) :
    ∃ B', B = B' ++ [t] ∧ u = A ++ (q.tokens ++ B') := by
  rcases separated_split ht h with ⟨A', -, hv⟩ | hB
  · cases sign_mem hv
  · exact hB

/-- No two of the tokens are multiplied with each other, and neither is the first one with
a token behind which an expression starts. -/
theorem inside_juxtaposed {A : List (Token R)} {before after : Token R}
    (h : q.tokens = m ++ after :: m') (hA : A.getLast?.all Token.opensExpression = true)
    (hb : (A ++ m).getLast? = some before) : juxtaposed before after = false := by
  rcases inside_cases h with ⟨rfl, -⟩ | ⟨rfl, rfl | rfl⟩ | ⟨rfl, -⟩ | ⟨rfl, rfl⟩
  · rfl
  · rw [List.append_nil] at hb
    rw [hb] at hA
    exact Token.closesGroup_of_opensExpression hA
  · rw [List.getLast?_append_cons] at hb
    rw [← Option.some.inj hb]
    rfl
  · rfl
  · rw [← List.append_assoc, List.getLast?_append_cons] at hb
    rw [← Option.some.inj hb]
    rfl

end Rectangular

namespace Grammar

variable [Scalar R] {U : FunctionTable R}

/-! ## Words without open ends -/

/-- Behind every token that opens an expression a bracket is closed. -/
def OpensClosed (w : List (Token R)) : Prop :=
  ∀ u t v, w = u ++ t :: v → t.opensExpression = true → ∃ b ∈ v, Token.closesGroup b = true

omit [Scalar R] in
theorem OpensClosed.append {w w' : List (Token R)} (h : OpensClosed w) (h' : OpensClosed w') :
    OpensClosed (w ++ w') := by
  intro u t v hw ht
  rcases List.append_eq_append_iff.1 hw with ⟨x, rfl, hx⟩ | ⟨x, rfl, hx⟩
  · exact h' x t v hx ht
  · cases x with
    | nil => exact h' [] t v hx.symm ht
    | cons a x =>
      obtain ⟨rfl, rfl⟩ := List.cons.inj hx
      obtain ⟨b, hb, hclose⟩ := h u _ x rfl ht
      exact ⟨b, List.mem_append_left _ hb, hclose⟩

omit [Scalar R] in
theorem opensClosed_cons {t : Token R} (ht : t.opensExpression = false) {w : List (Token R)}
    (h : OpensClosed w) : OpensClosed (t :: w) := by
  intro u t' v hw ht'
  rw [List.cons_eq_append_iff] at hw
  rcases hw with ⟨rfl, hw⟩ | ⟨u', rfl, hw⟩
  · obtain ⟨rfl, -⟩ := List.cons.inj hw
    rw [ht] at ht'
    cases ht'
  · exact h u' t' v hw ht'

omit [Scalar R] in
theorem opensClosed_nil : OpensClosed ([] : List (Token R)) := by
  intro u t v hw
  cases u <;> cases hw

omit [Scalar R] in
/-- Everything before a closing bracket is closed by it. -/
theorem opensClosed_enclosed {b : Delimiter} (hb : b.isClose = true) (w : List (Token R)) :
    OpensClosed (w ++ [.delimiter b]) := by
  intro u t v hw ht
  cases v with
  | nil =>
    -- The last token is the bracket, behind which no expression starts.
    obtain ⟨-, hlast⟩ := List.append_inj' hw rfl
    obtain ⟨rfl, -⟩ := List.cons.inj hlast
    rw [Token.opensExpression, hb] at ht
    cases ht
  | cons a v =>
    have hlast := congrArg List.getLast? hw
    rw [List.getLast?_concat, List.getLast?_append_cons, List.getLast?_cons_cons] at hlast
    exact ⟨.delimiter b, List.mem_of_getLast? hlast.symm, hb⟩

theorem BareLiteral.opensClosed {w : List (Token R)} {e n : Expr R} (h : BareLiteral w e n) :
    OpensClosed w := by
  cases h with
  | number v | complex z => exact opensClosed_cons rfl opensClosed_nil
  | quantity v u => exact opensClosed_cons rfl (opensClosed_cons rfl opensClosed_nil)

theorem IsPrimary.opensClosed {w : List (Token R)} {e : Expr R} (h : IsPrimary U w e) :
    OpensClosed w := by
  cases h with
  | literal h => exact h.opensClosed
  | truth b | name x => exact opensClosed_cons rfl opensClosed_nil
  | call hb h he =>
    rw [← List.cons_append, ← List.cons_append]
    exact opensClosed_enclosed (Delimiter.isOpen_isClose hb).2 _
  | group h | list h he =>
    rw [← List.cons_append]
    exact opensClosed_enclosed rfl _

omit [Scalar R] in
/-- Two words with an operator between them that assigns nothing. -/
theorem OpensClosed.operator {op : Operator} (hop : op.isAssignment = false)
    {w w' : List (Token R)} (h : OpensClosed w) (h' : OpensClosed w') :
    OpensClosed (w ++ .operator op :: w') :=
  h.append (opensClosed_cons (t := .operator op) hop h')

omit [Scalar R] in
/-- A trailing operator assigns nothing. -/
theorem Trailed.isAssignment_eq {op : Operator} {e e' : Expr R} (h : Trailed e op e') :
    op.isAssignment = false := by
  cases h <;> rfl

/-- A connective assigns nothing. -/
theorem isAssignment_of_connective? {l : Level} {op : Operator} {k : Connective}
    (h : l.connective? op = some k) : op.isAssignment = false := by
  cases op <;> first | rfl | (cases l <;> cases h)

mutual
theorem IsTrailing.opensClosed {w : List (Token R)} {e : Expr R} :
    IsTrailing U w e → OpensClosed w
  | .primary h => h.opensClosed
  | .trailing h he => h.opensClosed.operator he.isAssignment_eq opensClosed_nil
theorem IsPower.opensClosed {w : List (Token R)} {e : Expr R} :
    IsPower U w e → OpensClosed w
  | .trailing h => h.opensClosed
  | .power h h' => h.opensClosed.operator rfl h'.opensClosed
  | .signed h _ h' => h.opensClosed.operator rfl h'.opensClosed
theorem IsSigned.opensClosed {w : List (Token R)} {e : Expr R} :
    IsSigned U w e → OpensClosed w
  | .negateLiteral h => opensClosed_cons rfl h.opensClosed
  | .negate h _ => opensClosed_cons rfl h.opensClosed
  | .not h => opensClosed_cons rfl h.opensClosed
  | .power h => h.opensClosed
theorem IsOperand.opensClosed {l : Level} {w : List (Token R)} {e : Expr R} :
    IsOperand U l w e → OpensClosed w
  | .tighter _ h => h.opensClosed
  | .signed h => h.opensClosed
/-- Behind every token of an operand that opens an expression a bracket is closed. -/
theorem IsChain.opensClosed {l : Level} {w : List (Token R)} {e : Expr R} :
    IsChain U l w e → OpensClosed w
  | .operand h => h.opensClosed
  | .connective hk h h' =>
    h.opensClosed.operator (isAssignment_of_connective? hk) h'.opensClosed
  | .juxtaposition _ _ _ h h' => h.opensClosed.append h'.opensClosed
end

/-! ## What follows on a literal -/

theorem IsTrailing.ne_nil {w : List (Token R)} {e : Expr R} (h : IsTrailing U w e) : w ≠ [] :=
  ne_nil_of_startsPhrase (startsPhrase_of_startsOperand (h.startsOperand []))

theorem IsChain.ne_nil {l : Level} {w : List (Token R)} {e : Expr R} (h : IsChain U l w e) :
    w ≠ [] :=
  ne_nil_of_startsPhrase (h.startsPhrase [])

/-- A word stands for one expression only. -/
theorem IsAssignment.unique {w : List (Token R)} {e e' : Expr R} (h : IsAssignment U w e)
    (h' : IsAssignment U w e') : e = e' :=
  Except.ok.inj (h.parse.symm.trans h'.parse)

omit [Scalar R] in
/-- A token behind a word that is not empty is the second one, or comes later. -/
theorem second_of_append {w w' v : List (Token R)} {s x t : Token R} (hw : w ≠ [])
    (h : w ++ s :: w' = x :: t :: v) :
    (w = [x] ∧ s = t) ∨ ∃ v', w = x :: t :: v' := by
  cases w with
  | nil => exact absurd rfl hw
  | cons a w =>
    obtain ⟨rfl, hrest⟩ := List.cons.inj h
    cases w with
    | nil => exact .inl ⟨rfl, (List.cons.inj hrest).1⟩
    | cons b w =>
      obtain ⟨rfl, -⟩ := List.cons.inj hrest
      exact .inr ⟨w, rfl⟩

omit [Scalar R] in
/-- No summand ends before a sign of a product. -/
theorem endsSummand_of_connective? {op : Operator} {k : Connective}
    (h : Level.product.connective? op = some k) :
    (Token.operator op : Token R).endsSummand = false := by
  cases op <;> first | rfl | cases h

omit [Scalar R] in
/-- No summand ends before a token that it is multiplied with. -/
theorem endsSummand_of_juxtaposed {before after : Token R}
    (h : juxtaposed before after = true) : after.endsSummand = false := by
  cases after with
  | delimiter d => cases d <;> first | rfl | cases h
  | operator op => cases h
  | _ => rfl

section FollowsLiteral

variable {x : Token R} {c n : Expr R}

theorem IsPrimary.endsSummand_eq {w v : List (Token R)} {e : Expr R} {t : Token R}
    (hx : BareLiteral [x] c n) (h : IsPrimary U w e) (hw : w = x :: t :: v) :
    t.endsSummand = false := by
  cases h with
  | literal h =>
    subst hw
    cases h with
    | quantity v u => rfl
  | truth b | name y => cases hw
  | call hb h he | group h | list h he =>
    obtain ⟨rfl, -⟩ := List.cons.inj hw
    cases hx

theorem IsTrailing.endsSummand_eq (hx : BareLiteral [x] c n) {w : List (Token R)}
    {e : Expr R} : IsTrailing U w e → ∀ {v : List (Token R)} {t : Token R}, w = x :: t :: v →
      t.endsSummand = false
  | .primary h, v, t, hw => h.endsSummand_eq hx hw
  | .trailing h he, v, t, hw => by
    rcases second_of_append h.ne_nil hw with ⟨hw₁, rfl⟩ | ⟨v', hv⟩
    · -- Only a factorial may stand behind a literal, because a literal is no variable.
      rw [hw₁] at h
      have hc := (IsSigned.power (.trailing h)).isAssignment.unique
        (IsSigned.power (.trailing (.primary (.literal hx)))).isAssignment
      rw [hc] at he
      cases he with
      | factorial => rfl
      | increment hv => cases hx <;> cases hv
      | decrement hv => cases hx <;> cases hv
    · exact h.endsSummand_eq hx hv

theorem IsPower.endsSummand_eq (hx : BareLiteral [x] c n) {w : List (Token R)} {e : Expr R} :
    IsPower U w e → ∀ {v : List (Token R)} {t : Token R}, w = x :: t :: v →
      t.endsSummand = false
  | .trailing h, v, t, hw => h.endsSummand_eq hx hw
  | .power h _, v, t, hw | .signed h _ _, v, t, hw => by
    rcases second_of_append h.ne_nil hw with ⟨-, rfl⟩ | ⟨v', hv⟩
    · rfl
    · exact h.endsSummand_eq hx hv

theorem IsSigned.endsSummand_eq (hx : BareLiteral [x] c n) {w v : List (Token R)}
    {e : Expr R} {t : Token R} (h : IsSigned U w e) (hw : w = x :: t :: v) :
    t.endsSummand = false := by
  cases h with
  | power h => exact h.endsSummand_eq hx hw
  | negateLiteral _ | negate _ _ | not _ =>
    obtain ⟨rfl, -⟩ := List.cons.inj hw
    cases hx

/-- Nothing that ends a summand follows on a literal within a product. -/
theorem IsChain.endsSummand_eq (hx : BareLiteral [x] c n) {l : Level} {w : List (Token R)}
    {e : Expr R} : IsChain U l w e → l = .product →
      ∀ {v : List (Token R)} {t : Token R}, w = x :: t :: v → t.endsSummand = false
  | .operand (.tighter hl h), hproduct, v, t, hw => by
    rw [hproduct] at hl
    cases hl
  | .operand (.signed h), _, v, t, hw => h.endsSummand_eq hx hw
  | .connective hk h _, hproduct, v, t, hw => by
    rw [hproduct] at hk
    rcases second_of_append h.ne_nil hw with ⟨-, rfl⟩ | ⟨v', hv⟩
    · exact endsSummand_of_connective? hk
    · exact h.endsSummand_eq hx hproduct hv
  | .juxtaposition _ ha hj h _, hproduct, v, t, hw => by
    obtain ⟨w', rfl⟩ := List.head?_eq_some_iff.1 ha
    rcases second_of_append h.ne_nil hw with ⟨-, rfl⟩ | ⟨v', hv⟩
    · exact endsSummand_of_juxtaposed hj
    · exact h.endsSummand_eq hx hproduct hv

end FollowsLiteral

end Grammar

end SymbolicAlgebra
