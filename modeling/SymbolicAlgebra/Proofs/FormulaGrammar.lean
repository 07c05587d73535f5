import SymbolicAlgebra.Grammar.Parse

set_option autoImplicit false

/-!
# The grammar of formulas

The grammar as a relation between words of tokens and the expressions that they stand for,
without a reader and without an order in which tokens are looked at. From loose to tight:

- an assignment is a chain, or a chain, an assignment operator and an assignment;
- a chain of a level is an operand, or a chain of the level, a connective and an operand; at
  the level of products the two may also stand side by side;
- a signed operand is a sign before a signed operand, or a power;
- a power is an operand with trailing operators, possibly with an exponent: a signed operand
  where that starts with a sign, and a power otherwise;
- a primary is a literal, a name, a call, a group or a list.

Each line is a relation of its own (`Grammar.IsAssignment`, `Grammar.IsChain` and so on). What a
rule asks of the expressions that it puts together stands beside it, in `Grammar.BareLiteral`,
`Grammar.Trailed`, `Grammar.Assigned`, `Grammar.Collected` and `Grammar.Called`.
-/

namespace SymbolicAlgebra

/-! ## Operators and brackets -/

namespace Operator

/-- Whether the operator stands between two operands. -/
def isInfix : Operator → Bool
  | .negate | .not | .increment | .decrement | .factorial => false
  | _ => true

theorem isInfix_of_connective? {l : Level} {op : Operator} {k : Connective}
    (h : l.connective? op = some k) : op.isInfix = true := by
  cases op <;> first | rfl | (cases l <;> cases h)

theorem isInfix_of_isAssignment {op : Operator} (h : op.isAssignment = true) :
    op.isInfix = true := by
  cases op <;> first | rfl | cases h

end Operator

/-- The two brackets of a pair open and close a group. -/
theorem Delimiter.isOpen_isClose {b b' : Delimiter} (h : b.closing? = some b') :
    b.isOpen = true ∧ b'.isClose = true := by
  cases b <;> cases h <;> exact ⟨rfl, rfl⟩

namespace Grammar

variable {R : Type}

/-! ## Conditions of the rules -/

/-- What a trailing operator makes of an operand. Only a variable can be counted up or
down. -/
inductive Trailed (e : Expr R) : Operator → Expr R → Prop where
  | factorial : Trailed e .factorial (.unary .factorial e)
  | increment (h : e.isVar = true) : Trailed e .increment (.increment e)
  | decrement (h : e.isVar = true) : Trailed e .decrement (.decrement e)

/-- What an assignment operator makes of a target and a value. A variable or a function head
can be defined, and only a variable can be updated. -/
inductive Assigned (target value : Expr R) : Operator → Expr R → Prop where
  | define (h : Builtin.isDefinable target = true) :
      Assigned target value .assign (.define target value)
  | add (h : target.isVar = true) :
      Assigned target value .addAssign (.update .add target value)
  | sub (h : target.isVar = true) :
      Assigned target value .subAssign (.update .sub target value)
  | mul (h : target.isVar = true) :
      Assigned target value .mulAssign (.update .mul target value)
  | div (h : target.isVar = true) :
      Assigned target value .divAssign (.update .div target value)

/-- What a list in braces stands for: a matrix if there are members and all of them are
vectors, which must then have one length, and a vector otherwise. -/
inductive Collected (es : List (Expr R)) : Expr R → Prop where
  | matrix (h : Expr.readsAsMatrix es = true) (hr : Expr.RowsFit es) :
      Collected es (.matrix es)
  | vector (h : Expr.readsAsMatrix es = false) : Collected es (.vector es)

variable [Scalar R]

/-- The tokens of a literal, the literal, and the literal with the opposite sign. -/
inductive BareLiteral : List (Token R) → Expr R → Expr R → Prop where
  /-- A real literal. -/
  | number (v : R) : BareLiteral [.number v] (.number v) (.number (-v))
  /-- A complex literal. -/
  | complex (z : ComplexNumber R) : BareLiteral [.complex z] (.complex z) (.complex z.neg)
  /-- A number with its unit. -/
  | quantity (v : R) (u : MeasureUnit) :
      BareLiteral [.number v, .unit u] (.quantity ⟨v, u⟩) (.quantity ⟨-v, u⟩)

/-- What a call stands for. A built-in function that accepts the number of arguments comes
first, then a function of the table with this number of parameters; apart from these, a
name that is unknown to both is kept as it is. -/
inductive Called (U : FunctionTable R) (f : String) (es : List (Expr R)) : Expr R → Prop where
  | builtin {b : Builtin} {e : Expr R} (hb : Builtin.ofName? f = some b)
      (ha : b.accepts es.length = true) (he : b.build f es = .ok e) : Called U f es e
  | known (hb : ∀ b, Builtin.ofName? f = some b → b.accepts es.length = false)
      (hu : (U.find? f es.length).isSome = true) : Called U f es (.call f es)
  | unknown (hb : Builtin.ofName? f = none) (hu : U.containsName f = false) :
      Called U f es (.call f es)

omit [Scalar R] in
/-- Whether the word starts with a minus sign or a negation. -/
def startsWithSign (w : List (Token R)) : Bool :=
  w.head?.any fun
    | .operator .negate | .operator .not => true
    | _ => false

/-! ## The grammar -/

mutual
/-- The word is an assignment and stands for the expression. -/
inductive IsAssignment (U : FunctionTable R) : List (Token R) → Expr R → Prop where
  | chain {w : List (Token R)} {e : Expr R} (h : IsChain U .disjunction w e) :
      IsAssignment U w e
  | assign {op : Operator} {w w' : List (Token R)} {e e' e'' : Expr R}
      (h : IsChain U .disjunction w e) (h' : IsAssignment U w' e')
      (he : Assigned e e' op e'') : IsAssignment U (w ++ .operator op :: w') e''
/-- The word is a chain of the level and stands for the expression. -/
inductive IsChain (U : FunctionTable R) : Level → List (Token R) → Expr R → Prop where
  | operand {l : Level} {w : List (Token R)} {e : Expr R} (h : IsOperand U l w e) :
      IsChain U l w e
  | connective {l : Level} {op : Operator} {k : Connective} {w w' : List (Token R)}
      {e e' : Expr R} (hk : l.connective? op = some k) (h : IsChain U l w e)
      (h' : IsOperand U l w' e') : IsChain U l (w ++ .operator op :: w') (k.combine e e')
  | juxtaposition {before after : Token R} {w w' : List (Token R)} {e e' : Expr R}
      (hb : w.getLast? = some before) (ha : w'.head? = some after)
      (hj : juxtaposed before after = true) (h : IsChain U .product w e)
      (h' : IsOperand U .product w' e') : IsChain U .product (w ++ w') (.mul e e')
/-- The word is an operand of the level and stands for the expression. -/
inductive IsOperand (U : FunctionTable R) : Level → List (Token R) → Expr R → Prop where
  | tighter {l l' : Level} {w : List (Token R)} {e : Expr R} (hl : l.tighter? = some l')
      (h : IsChain U l' w e) : IsOperand U l w e
  | signed {w : List (Token R)} {e : Expr R} (h : IsSigned U w e) : IsOperand U .product w e
/-- The word is a signed operand and stands for the expression. -/
inductive IsSigned (U : FunctionTable R) : List (Token R) → Expr R → Prop where
  | negateLiteral {w : List (Token R)} {e n : Expr R} (h : BareLiteral w e n) :
      IsSigned U (.operator .negate :: w) n
  | negate {w : List (Token R)} {e : Expr R} (h : IsSigned U w e)
      (hw : ∀ e n, ¬ BareLiteral w e n) : IsSigned U (.operator .negate :: w) (.neg e)
  | not {w : List (Token R)} {e : Expr R} (h : IsSigned U w e) :
      IsSigned U (.operator .not :: w) (.unary .not e)
  | power {w : List (Token R)} {e : Expr R} (h : IsPower U w e) : IsSigned U w e
/-- The word is a power and stands for the expression. -/
inductive IsPower (U : FunctionTable R) : List (Token R) → Expr R → Prop where
  | trailing {w : List (Token R)} {e : Expr R} (h : IsTrailing U w e) : IsPower U w e
  | power {w w' : List (Token R)} {e e' : Expr R} (h : IsTrailing U w e)
      (h' : IsPower U w' e') : IsPower U (w ++ .operator .power :: w') (.pow e e')
  | signed {w w' : List (Token R)} {e e' : Expr R} (h : IsTrailing U w e)
      (hs : startsWithSign w' = true) (h' : IsSigned U w' e') :
      IsPower U (w ++ .operator .power :: w') (.pow e e')
/-- The word is a primary with trailing operators and stands for the expression. -/
inductive IsTrailing (U : FunctionTable R) : List (Token R) → Expr R → Prop where
  | primary {w : List (Token R)} {e : Expr R} (h : IsPrimary U w e) : IsTrailing U w e
  | trailing {op : Operator} {w : List (Token R)} {e e' : Expr R} (h : IsTrailing U w e)
      (he : Trailed e op e') : IsTrailing U (w ++ [.operator op]) e'
/-- The word is a primary and stands for the expression. -/
inductive IsPrimary (U : FunctionTable R) : List (Token R) → Expr R → Prop where
  | literal {w : List (Token R)} {e n : Expr R} (h : BareLiteral w e n) : IsPrimary U w e
  | truth (b : Bool) : IsPrimary U [.truth b] (.truth b)
  | name (x : String) : IsPrimary U [.name x] (.var x)
  | call {f : String} {b b' : Delimiter} {w : List (Token R)} {es : List (Expr R)}
      {e : Expr R} (hb : b.closing? = some b') (h : IsBody U w es) (he : Called U f es e) :
      IsPrimary U (.call f es.length :: .delimiter b :: (w ++ [.delimiter b'])) e
  | group {w : List (Token R)} {e : Expr R} (h : IsAssignment U w e) :
      IsPrimary U (.delimiter .openParen :: (w ++ [.delimiter .closeParen])) e
  | list {w : List (Token R)} {es : List (Expr R)} {e : Expr R} (h : IsBody U w es)
      (he : Collected es e) :
      IsPrimary U (.delimiter .openBrace :: (w ++ [.delimiter .closeBrace])) e
/-- The word may stand between two brackets and lists the expressions. -/
inductive IsBody (U : FunctionTable R) : List (Token R) → List (Expr R) → Prop where
  | empty : IsBody U [] []
  | members {w : List (Token R)} {es : List (Expr R)} (h : IsMembers U w es) : IsBody U w es
/-- The word lists the expressions, of which there is at least one, with commas between
them. -/
inductive IsMembers (U : FunctionTable R) : List (Token R) → List (Expr R) → Prop where
  | one {w : List (Token R)} {e : Expr R} (h : IsAssignment U w e) : IsMembers U w [e]
  | cons {w w' : List (Token R)} {e : Expr R} {es : List (Expr R)} (h : IsAssignment U w e)
      (h' : IsMembers U w' es) : IsMembers U (w ++ .delimiter .comma :: w') (e :: es)
end

/-! ## Words of tighter levels -/

section Levels

variable {U : FunctionTable R}

/-- A word of a level is an assignment. -/
theorem IsChain.isAssignment {w : List (Token R)} {e : Expr R} :
    ∀ {l : Level}, IsChain U l w e → IsAssignment U w e := by
  have hdisjunction : IsChain U .disjunction w e → IsAssignment U w e := .chain
  have hconjunction : IsChain U .conjunction w e → IsAssignment U w e := fun h =>
    hdisjunction (.operand (.tighter rfl h))
  have hcomparison : IsChain U .comparison w e → IsAssignment U w e := fun h =>
    hconjunction (.operand (.tighter rfl h))
  have hor : IsChain U .bitOr w e → IsAssignment U w e := fun h =>
    hcomparison (.operand (.tighter rfl h))
  have hand : IsChain U .bitAnd w e → IsAssignment U w e := fun h =>
    hor (.operand (.tighter rfl h))
  have hsum : IsChain U .sum w e → IsAssignment U w e := fun h =>
    hand (.operand (.tighter rfl h))
  have hproduct : IsChain U .product w e → IsAssignment U w e := fun h =>
    hsum (.operand (.tighter rfl h))
  intro l h
  cases l with
  | disjunction => exact hdisjunction h
  | conjunction => exact hconjunction h
  | comparison => exact hcomparison h
  | bitOr => exact hor h
  | bitAnd => exact hand h
  | sum => exact hsum h
  | product => exact hproduct h

/-- A signed operand is an operand of every level. -/
theorem IsSigned.isOperand {w : List (Token R)} {e : Expr R} (h : IsSigned U w e) :
    ∀ l : Level, IsOperand U l w e
  | .product => .signed h
  | .sum => .tighter rfl (.operand (h.isOperand .product))
  | .bitAnd => .tighter rfl (.operand (h.isOperand .sum))
  | .bitOr => .tighter rfl (.operand (h.isOperand .bitAnd))
  | .comparison => .tighter rfl (.operand (h.isOperand .bitOr))
  | .conjunction => .tighter rfl (.operand (h.isOperand .comparison))
  | .disjunction => .tighter rfl (.operand (h.isOperand .conjunction))
termination_by l => l.rank
decreasing_by all_goals decide

/-- A signed operand is an assignment. -/
theorem IsSigned.isAssignment {w : List (Token R)} {e : Expr R} (h : IsSigned U w e) :
    IsAssignment U w e :=
  .chain (.operand (h.isOperand .disjunction))

end Levels

/-! ## The conditions and the functions of the parser -/

section Conditions

variable {U : FunctionTable R} {e e' e'' : Expr R} {op : Operator}

/-- The condition of a trailing operator is what the parser asks for. -/
theorem trailed?_eq_some_ok_iff : trailed? e op = some (.ok e') ↔ Trailed e op e' := by
  constructor
  · intro h
    cases op <;> simp only [trailed?, updated, reduceCtorEq, Option.some.injEq] at h
    case factorial =>
      rw [← Except.ok.inj h]
      exact .factorial
    case increment =>
      split at h
      · rename_i hv
        rw [← Except.ok.inj h]
        exact .increment hv
      · cases h
    case decrement =>
      split at h
      · rename_i hv
        rw [← Except.ok.inj h]
        exact .decrement hv
      · cases h
  · intro h
    cases h with
    | factorial => rfl
    | increment hv => rw [trailed?, updated, if_pos hv]
    | decrement hv => rw [trailed?, updated, if_pos hv]

/-- The condition of an assignment is what the parser asks for at an assignment operator. -/
theorem assigned_iff :
    Assigned e e' op e'' ↔ op.isAssignment = true ∧ assignTo op e e' = .ok e'' := by
  constructor
  · intro h
    cases h with
    | define h => exact ⟨rfl, if_pos h⟩
    | add h | sub h | mul h | div h => exact ⟨rfl, if_pos h⟩
  · rintro ⟨ho, h⟩
    cases op <;> cases ho <;> simp only [assignTo, Builtin.defineTo] at h <;> split at h <;>
      rename_i hv <;> cases h
    · exact .define hv
    · exact .add hv
    · exact .sub hv
    · exact .mul hv
    · exact .div hv

omit [Scalar R] in
/-- The condition of a list is what the parser asks for. -/
theorem collected_iff {es : List (Expr R)} : Collected es e ↔ collection es = .ok e := by
  constructor
  · intro h
    cases h with
    | matrix h hr => rw [collection, if_pos h, Expr.matrixOf_eq_ok_iff.2 ⟨hr, rfl⟩]; rfl
    | vector h => rw [collection, h]; rfl
  · intro h
    unfold collection at h
    split at h
    · rename_i hm
      cases hr : Expr.matrixOf es with
      | error x => rw [hr] at h; cases h
      | ok m =>
        rw [hr] at h
        obtain ⟨hfit, rfl⟩ := Expr.matrixOf_eq_ok_iff.1 hr
        rw [← Except.ok.inj h]
        exact .matrix hm hfit
    · rename_i hm
      rw [← Except.ok.inj h]
      exact .vector (Bool.eq_false_iff.2 hm)

/-- The condition of a call is what the parser asks for. -/
theorem called_iff {f : String} {es : List (Expr R)} :
    Called U f es e ↔ callOf U f es = .ok e := by
  constructor
  · intro h
    unfold callOf
    cases h with
    | builtin hb ha he => simp only [hb, ha, if_pos, he]
    | known hb hu =>
      cases hf : Builtin.ofName? f with
      | none => simp only [hu, if_pos]
      | some b => simp only [hb b hf, hu, Bool.false_eq_true, if_false, if_pos]
    | unknown hb hu =>
      simp only [hb, hu, Bool.false_eq_true, if_false]
      split <;> rfl
  · intro h
    unfold callOf at h
    split at h
    · rename_i b hb
      split at h
      · rename_i ha
        exact .builtin hb ha h
      · rename_i ha
        split at h
        · rename_i hu
          rw [← Except.ok.inj h]
          refine .known (fun b' hb' => ?_) hu
          rw [hb] at hb'
          rw [← Option.some.inj hb']
          exact Bool.eq_false_iff.2 ha
        · cases h
    · rename_i hb
      split at h
      · rename_i hu
        rw [← Except.ok.inj h]
        refine .known (fun b' hb' => ?_) hu
        rw [hb] at hb'
        cases hb'
      · split at h
        · cases h
        · rename_i hu
          rw [← Except.ok.inj h]
          exact .unknown hb (Bool.eq_false_iff.2 hu)

end Conditions

end Grammar

end SymbolicAlgebra
