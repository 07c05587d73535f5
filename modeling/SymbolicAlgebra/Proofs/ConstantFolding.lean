import SymbolicAlgebra.Proofs.DecimalText
import SymbolicAlgebra.Proofs.SimplifyRun

set_option autoImplicit false

/-!
# Folding of constants

A formula without variables can be evaluated from the leaves to the root: a sign is taken
into its literal, and an operation on two literals is carried out (`Expr.evaluated`).
Simplification knows many more rules, and some of them, such as `x * 0`, `x - x` or `0 / x`, would
give another value where a literal is zero, infinite or no number. They never come to it: folding
stands first in every table, so on literals nothing else is tried (`Rule.reduce?_literals`).

Hence the simplified form of a formula composed of literals (`Expr.Composed`) is the literal that
the plain evaluator computes, or both fail with a division by zero (`simplified_eq_evaluated`).
-/

namespace SymbolicAlgebra

namespace Expr

variable {R : Type} [Scalar R]

/-! ## Plain evaluation -/

/-- The opposite of a literal. -/
def opposite : Expr R → Expr R
  | .number v => .number (-v)
  | .complex z => .complex z.neg
  | e => .neg e

/-- The value of a formula by plain evaluation, the left operand first. An operation that
has no value on its operands is kept. -/
def evaluated : Expr R → Except SimplifyError (Expr R)
  | .unary .negate e => do
    let v ← e.evaluated
    return v.opposite
  | .binary op l r => do
    let v ← l.evaluated
    let w ← r.evaluated
    let folded ← Fold.literals? op v w
    return folded.getD (.binary op v w)
  | e => .ok e

/-- A node over two operands with values is folded, if it can be. -/
theorem evaluated_binary_eq {op : BinaryOp} {l r v w : Expr R} (hl : l.evaluated = .ok v)
    (hr : r.evaluated = .ok w) :
    (Expr.binary op l r).evaluated =
      (Fold.literals? op v w).map fun folded => folded.getD (.binary op v w) := by
  rw [evaluated, hl, hr]
  change Except.bind (Fold.literals? op v w) _ = _
  cases Fold.literals? op v w with
  | error x => rfl
  | ok folded => rfl

/-! ## Formulas composed of literals -/

omit [Scalar R] in
/-- The real literals. -/
inductive RealLiteral : Expr R → Prop where
  /-- A real literal. -/
  | number (v : R) : RealLiteral (.number v)

omit [Scalar R] in
/-- The real and the complex literals. -/
inductive ScalarLiteral : Expr R → Prop where
  /-- A real literal. -/
  | number (v : R) : ScalarLiteral (.number v)
  /-- A complex literal. -/
  | complex (z : ComplexNumber R) : ScalarLiteral (.complex z)

omit [Scalar R] in
/-- The formulas composed of certain literals by signs and by certain operations. -/
inductive Composed (literal : Expr R → Prop) (ops : List BinaryOp) : Expr R → Prop where
  /-- A literal. -/
  | literal {e : Expr R} (he : literal e) : Composed literal ops e
  /-- A sign before a formula. -/
  | negate {e : Expr R} (he : Composed literal ops e) : Composed literal ops (.neg e)
  /-- An operation on two formulas. -/
  | binary {op : BinaryOp} {l r : Expr R} (hop : op ∈ ops) (hl : Composed literal ops l)
    (hr : Composed literal ops r) : Composed literal ops (.binary op l r)

/-- The operations on real literals that give a real literal. -/
def realOps : List BinaryOp := [.add, .sub, .mul, .div, .pow, .root, .log, .mod, .round]

/-- The operations on complex literals that give a literal. -/
def complexOps : List BinaryOp := [.add, .sub, .mul, .div, .pow]

/-- What literals and operations on them have to satisfy for a formula to have a literal
for its value: the literals are closed under signs and operations, except that there is no
division by zero. -/
structure Folds (literal : Expr R → Prop) (ops : List BinaryOp) : Prop where
  /-- A literal is simplified. -/
  simplified : ∀ v, literal v → v.simplified = .ok v
  /-- A literal is its own value. -/
  evaluated : ∀ v, literal v → v.evaluated = .ok v
  /-- A sign becomes part of a literal. -/
  opposite : ∀ v, literal v → literal v.opposite ∧ Rule.negateLiteral? v = some v.opposite
  /-- An operation on two literals is carried out, or fails. -/
  binary : ∀ op ∈ ops, ∀ v w, literal v → literal w →
    (∃ e, literal e ∧ Fold.literals? op v w = .ok (some e)) ∨
      Fold.literals? op v w = .error .divideByZero

/-- Simplification and plain evaluation agree: they give the same literal or both divide by
zero. -/
inductive Agree (literal : Expr R → Prop) (t : Expr R) : Prop where
  /-- Both give a literal. -/
  | value (v : Expr R) (hv : literal v) (simplified : t.simplified = .ok v)
    (evaluated : t.evaluated = .ok v)
  /-- Both fail. -/
  | failure (simplified : t.simplified = .error .divideByZero)
    (evaluated : t.evaluated = .error .divideByZero)

variable {literal : Expr R → Prop} {ops : List BinaryOp}

/-- A sign before a formula keeps the agreement. -/
theorem Agree.negate (hf : Folds literal ops) {e : Expr R} (h : Agree literal e) :
    Agree literal (.neg e) := by
  cases h with
  | value v hv hs he =>
    obtain ⟨hopp, hneg⟩ := hf.opposite v hv
    have hr : Rule.reduce? (.neg v) = .ok (some v.opposite) := by
      rw [Rule.reduce?, Rule.unary?, hneg]
      rfl
    refine .value v.opposite hopp ?_ ?_
    · rw [simplified_unary_eq hs, simplifyNext, hr]
      exact hf.simplified _ hopp
    · rw [evaluated, he]
      rfl
  | failure hs he =>
    refine .failure ?_ ?_
    · rw [simplified_unary, hs]
      rfl
    · rw [evaluated, he]
      rfl

/-- An operation on two formulas keeps the agreement. Where the left one fails, the right
one is not looked at. -/
theorem Agree.binary (hf : Folds literal ops) {op : BinaryOp} (hop : op ∈ ops) {l r : Expr R}
    (hl : Agree literal l) (hr : Agree literal r) : Agree literal (.binary op l r) := by
  cases hl with
  | failure hls hle =>
    refine .failure ?_ ?_
    · rw [simplified_binary, hls]
      rfl
    · rw [evaluated, hle]
      rfl
  | value v hv hls hle =>
    cases hr with
    | failure hrs hre =>
      refine .failure ?_ ?_
      · rw [simplified_binary, hls, hrs]
        rfl
      · rw [evaluated, hle, hre]
        rfl
    | value w hw hrs hre =>
      -- both operands are literals now, so the table of the operation starts with folding
      rcases hf.binary op hop v w hv hw with ⟨e, he, hfold⟩ | hfold
      · have hred : Rule.reduce? (.binary op v w) = .ok (some e) := by
          rw [Rule.reduce?_literals (by rw [hfold]; nofun), hfold]
        refine .value e he ?_ ?_
        · rw [simplified_binary_eq hls hrs, simplifyNext, hred]
          exact hf.simplified e he
        · rw [evaluated_binary_eq hle hre, hfold]
          rfl
      · have hred : Rule.reduce? (.binary op v w) = .error .divideByZero := by
          rw [Rule.reduce?_literals (by rw [hfold]; nofun), hfold]
        refine .failure ?_ ?_
        · rw [simplified_binary_eq hls hrs, simplifyNext, hred]
        · rw [evaluated_binary_eq hle hre, hfold]
          rfl

/-- Simplification and plain evaluation agree on every formula composed of literals that
fold. -/
theorem Composed.agree (hf : Folds literal ops) {t : Expr R} (h : Composed literal ops t) :
    Agree literal t := by
  induction h with
  | literal he => exact .value _ he (hf.simplified _ he) (hf.evaluated _ he)
  | negate _ ih => exact ih.negate hf
  | binary hop _ _ ihl ihr => exact ihl.binary hf hop ihr

/-! ## The two families of literals -/

theorem eq_divideByZero_of_divide {a b : R} {y : SimplifyError}
    (h : Fold.divide a b = .error y) : y = .divideByZero := by
  unfold Fold.divide at h
  split at h
  · cases h
  · split at h
    · cases h
    · cases h
      rfl

theorem eq_divideByZero_of_root {a b : R} {y : SimplifyError}
    (h : Fold.root a b = .error y) : y = .divideByZero := by
  unfold Fold.root at h
  split at h
  · cases h
    rfl
  · split at h <;> cases h

theorem eq_divideByZero_of_modulo {a b : R} {y : SimplifyError}
    (h : Fold.modulo a b = .error y) : y = .divideByZero := by
  unfold Fold.modulo at h
  split at h
  · cases h
    rfl
  · cases h

omit [Scalar R] in
/-- A computation of a scalar that fails for a division by zero only gives a real literal
or fails so. -/
theorem map_number_eq {x : Except SimplifyError R}
    (hx : ∀ y, x = .error y → y = .divideByZero) :
    (∃ v, (x.map fun v => some (Expr.number v)) = .ok (some (.number v))) ∨
      (x.map fun v => some (Expr.number v)) = .error .divideByZero := by
  cases x with
  | error y =>
    rw [hx y rfl]
    exact .inr rfl
  | ok v => exact .inl ⟨v, rfl⟩

/-- Arithmetic on real literals gives a real literal or divides by zero. -/
theorem real?_eq {op : BinaryOp} (hop : op ∈ realOps) (a b : R) :
    (∃ v, Fold.real? op a b = .ok (some (.number v))) ∨
      Fold.real? op a b = .error .divideByZero := by
  simp only [realOps, List.mem_cons, List.not_mem_nil, or_false] at hop
  rcases hop with rfl | rfl | rfl | rfl | rfl | rfl | rfl | rfl | rfl
  -- only a quotient, a root and a remainder can fail
  case inr.inr.inr.inl => exact map_number_eq fun _ => eq_divideByZero_of_divide
  case inr.inr.inr.inr.inr.inl => exact map_number_eq fun _ => eq_divideByZero_of_root
  case inr.inr.inr.inr.inr.inr.inr.inl =>
    exact map_number_eq fun _ => eq_divideByZero_of_modulo
  all_goals exact .inl ⟨_, rfl⟩

/-- Arithmetic on complex literals gives a literal or divides by zero. The quotient of two
zeros is a real literal. -/
theorem complex?_eq {op : BinaryOp} (hop : op ∈ complexOps) (z w : ComplexNumber R) :
    (∃ e, ScalarLiteral e ∧ Fold.complex? op z w = .ok (some e)) ∨
      Fold.complex? op z w = .error .divideByZero := by
  simp only [complexOps, List.mem_cons, List.not_mem_nil, or_false] at hop
  rcases hop with rfl | rfl | rfl | rfl | rfl
  case inr.inr.inr.inl =>
    rw [Fold.complex?, Fold.divideComplex]
    split
    · split
      · exact .inl ⟨_, .number _, rfl⟩
      · exact .inr rfl
    · exact .inl ⟨_, .complex _, rfl⟩
  all_goals exact .inl ⟨_, .complex _, rfl⟩

/-- Real literals fold under the operations on them. -/
theorem folds_realLiteral : Folds (R := R) RealLiteral realOps where
  simplified := by
    rintro _ ⟨v⟩
    exact simplified_number v
  evaluated := by
    rintro _ ⟨v⟩
    rfl
  opposite := by
    rintro _ ⟨v⟩
    exact ⟨.number _, rfl⟩
  binary := by
    rintro op hop _ _ ⟨a⟩ ⟨b⟩
    rcases real?_eq hop a b with ⟨v, hv⟩ | hfail
    · exact .inl ⟨_, .number v, hv⟩
    · exact .inr hfail

/-- Real and complex literals fold under the operations on complex ones. -/
theorem folds_scalarLiteral : Folds (R := R) ScalarLiteral complexOps where
  simplified := by
    rintro _ (v | z)
    · exact simplified_number v
    · exact simplified_complex z
  evaluated := by
    rintro _ (v | z)
    · rfl
    · rfl
  opposite := by
    rintro _ (v | z)
    · exact ⟨.number _, rfl⟩
    · exact ⟨.complex _, rfl⟩
  binary := by
    rintro op hop _ _ (a | z) (b | w)
    · have hreal : op ∈ realOps := List.mem_of_mem_take (i := 5) hop
      rcases real?_eq hreal a b with ⟨v, hv⟩ | hfail
      · exact .inl ⟨_, .number v, hv⟩
      · exact .inr hfail
    -- a real literal beside a complex one counts as complex
    · exact complex?_eq hop (.ofReal a) w
    · exact complex?_eq hop z (.ofReal b)
    · exact complex?_eq hop z w

/-! ## The result -/

/-- Simplification folds every formula composed of literals, and it does so as plain
evaluation does. A formula of real literals becomes the real literal, one of real and
complex literals the real or complex literal that the evaluator computes; or both fail, and
only with a division by zero. -/
theorem simplified_eq_evaluated (t : Expr R) :
    (Composed RealLiteral realOps t → t.simplified = t.evaluated ∧
      ((∃ v, t.evaluated = .ok (.number v)) ∨ t.evaluated = .error .divideByZero)) ∧
    (Composed ScalarLiteral complexOps t → t.simplified = t.evaluated ∧
      ((∃ v, t.evaluated = .ok (.number v)) ∨ (∃ z, t.evaluated = .ok (.complex z)) ∨
        t.evaluated = .error .divideByZero)) := by
  constructor
  · intro h
    cases h.agree folds_realLiteral with
    | value v hv hs he =>
      obtain ⟨v⟩ := hv
      exact ⟨hs.trans he.symm, .inl ⟨v, he⟩⟩
    | failure hs he => exact ⟨hs.trans he.symm, .inr he⟩
  · intro h
    cases h.agree folds_scalarLiteral with
    | value v hv hs he =>
      refine ⟨hs.trans he.symm, ?_⟩
      obtain v | z := hv
      · exact .inl ⟨v, he⟩
      · exact .inr (.inl ⟨z, he⟩)
    | failure hs he => exact ⟨hs.trans he.symm, .inr (.inr he)⟩

/-- A product with zero is no reason to overlook a division by zero in the other factor,
and the quotient of a complex literal and a zero that has to be computed fails as well. -/
theorem simplified_eq_evaluated_divideByZero :
    (Expr.mul (.number ⟨0⟩) (.div (.number ⟨1⟩) (.number ⟨0⟩)) : Expr Whole).simplified =
      .error .divideByZero ∧
    (Expr.div (.complex ⟨⟨1⟩, ⟨2⟩⟩) (.sub (.number ⟨3⟩) (.number ⟨3⟩)) : Expr Whole).simplified =
      .error .divideByZero := by
  constructor
  · refine ((simplified_eq_evaluated _).1 ?_).1.trans rfl
    refine .binary (by decide) (.literal (.number _)) ?_
    exact .binary (by decide) (.literal (.number _)) (.literal (.number _))
  · refine ((simplified_eq_evaluated _).2 ?_).1.trans rfl
    refine .binary (by decide) (.literal (.complex _)) ?_
    exact .binary (by decide) (.literal (.number _)) (.literal (.number _))

end Expr

end SymbolicAlgebra
