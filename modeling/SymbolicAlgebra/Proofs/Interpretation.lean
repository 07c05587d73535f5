import Mathlib.RingTheory.Derivation.Basic
import Mathlib.Data.List.Forall2
import SymbolicAlgebra.Proofs.ExactScalar
import SymbolicAlgebra.Simplify.Fold

set_option autoImplicit false

/-!
# Values in a field with derivations

The elements of a field with commuting derivations behave as functions of the variables do:
the derivation of a variable is one by itself and zero by the others, the literals are
constants, and the functions of one operand satisfy the identities that a table of
derivatives gives for them (`slope?`). Such a field is an `Interpretation C K`, and every
expression that can be differentiated by such rules has a value in it (`Interpretation.value?`).

A division by zero is either undefined or zero in these values. What is defined in the first
reading has the same value in the second (`value?_zero_of_undefined`).
-/

namespace SymbolicAlgebra

/-! ## The table of derivatives -/

section Slope

variable {K : Type} [Field K]

/-- The derivative of a function of one operand at `a`, from the functions themselves. -/
def slope? (apply : UnaryOp → K → Option K) (op : UnaryOp) (a : K) : Option K :=
  match op with
  | .sin => apply .cos a
  | .cos => (apply .sin a).map fun s => -s
  | .tan => (apply .cos a).map fun c => 1 / c ^ 2
  | .cot => (apply .sin a).map fun s => -1 / s ^ 2
  | .sec => do return (← apply .sec a) * (← apply .tan a)
  | .csc => do return -((← apply .csc a) * (← apply .cot a))
  | .arcsin => (apply .sqrt (1 - a ^ 2)).map fun s => 1 / s
  | .arccos => (apply .sqrt (1 - a ^ 2)).map fun s => -1 / s
  | .arctan => some (1 / (1 + a ^ 2))
  | .arccot => some (-1 / (1 + a ^ 2))
  | .arcsec => do return 1 / ((← apply .abs a) * (← apply .sqrt (a ^ 2 - 1)))
  | .arccsc => do return -1 / ((← apply .abs a) * (← apply .sqrt (a ^ 2 - 1)))
  | .sinh => apply .cosh a
  | .cosh => apply .sinh a
  | .tanh => (apply .cosh a).map fun c => 1 / c ^ 2
  | .coth => (apply .sinh a).map fun s => -1 / s ^ 2
  | .sech => do return -((← apply .sech a) * (← apply .tanh a))
  | .csch => do return -((← apply .csch a) * (← apply .coth a))
  | .arsinh => (apply .sqrt (a ^ 2 + 1)).map fun s => 1 / s
  | .arcosh => (apply .sqrt (a ^ 2 - 1)).map fun s => 1 / s
  | .artanh | .arcoth => some (1 / (1 - a ^ 2))
  | .arsech => (apply .sqrt (1 - a ^ 2)).map fun s => -1 / (a * s)
  | .arcsch => do return -1 / ((← apply .abs a) * (← apply .sqrt (1 + a ^ 2)))
  | .exp => apply .exp a
  | .ln => some (1 / a)
  | .lg => (apply .ln 10).map fun l => 1 / (a * l)
  | .lb => (apply .ln 2).map fun l => 1 / (a * l)
  | .sqrt => (apply .sqrt a).map fun s => 1 / (2 * s)
  | .abs => (apply .abs a).map fun m => a / m
  | .reciprocal => some (-1 / a ^ 2)
  | _ => none

end Slope

/-! ## Interpretations -/

/-- A field `K` over the literals `C` in which variables, functions and derivatives have a
meaning. A function may be undefined at some elements; where it is defined, its table entry
is, and the chain rule holds for every derivation. -/
structure Interpretation (C K : Type) [ExactScalar C] [Field K] [Algebra C K] where
  /-- The value of a variable. -/
  var : String → K
  /-- The value of a function of one operand, where it is defined. -/
  apply : UnaryOp → K → Option K
  /-- The derivation by a variable; every literal is constant under it. -/
  D : String → Derivation C K K
  /-- The variables are independent. -/
  D_var : ∀ x y, D x (var y) = if y = x then 1 else 0
  /-- The derivations commute. -/
  D_comm : ∀ x y a, D x (D y a) = D y (D x a)
  /-- The functions satisfy the identities of the table of derivatives. -/
  D_apply : ∀ op a b, apply op a = some b →
    ∃ s, slope? apply op a = some s ∧ ∀ x, D x b = s * D x a

/-- What a division by zero is read as. -/
inductive ZeroDivision where
  /-- It has no value. -/
  | undefined
  /-- It is zero, as is usual in formal developments of field theory. -/
  | zero
deriving DecidableEq

section Readings

variable {K : Type} [Field K]

open Classical in
/-- The quotient of two elements. -/
noncomputable def quotient? (z : ZeroDivision) (a b : K) : Option K :=
  if b = 0 ∧ z = .undefined then none else some (a / b)

open Classical in
/-- The power with an integer exponent. -/
noncomputable def power? (z : ZeroDivision) (a : K) (n : ℤ) : Option K :=
  if (a = 0 ∧ n < 0) ∧ z = .undefined then none else some (a ^ n)

/-- The value of an operation on two operands, where the exponent of a power is given as an
integer. -/
noncomputable def operation? (z : ZeroDivision) (op : BinaryOp) (exponent? : Option ℤ)
    (a b : K) : Option K :=
  match op with
  | .add => some (a + b)
  | .sub => some (a - b)
  | .mul => some (a * b)
  | .div => quotient? z a b
  | .pow => exponent?.bind (power? z a)
  | _ => none

@[simp] theorem quotient?_zero (a b : K) : quotient? .zero a b = some (a / b) := by
  simp [quotient?]

@[simp] theorem power?_zero (a : K) (n : ℤ) : power? .zero a n = some (a ^ n) := by
  simp [power?]

/-- What is defined without division by zero keeps its value when that is allowed. -/
theorem quotient?_zero_of_undefined {a b c : K} (h : quotient? .undefined a b = some c) :
    quotient? .zero a b = some c := by
  rw [quotient?] at h
  split at h
  · cases h
  · rw [quotient?_zero]
    exact h

theorem power?_zero_of_undefined {a c : K} {n : ℤ} (h : power? .undefined a n = some c) :
    power? .zero a n = some c := by
  rw [power?] at h
  split at h
  · cases h
  · rw [power?_zero]
    exact h

theorem operation?_zero_of_undefined {op : BinaryOp} {exponent? : Option ℤ} {a b c : K}
    (h : operation? .undefined op exponent? a b = some c) :
    operation? .zero op exponent? a b = some c := by
  cases op
  case add => exact h
  case sub => exact h
  case mul => exact h
  case div => exact quotient?_zero_of_undefined h
  case pow =>
    obtain ⟨n, hn, hc⟩ := Option.bind_eq_some_iff.1 h
    exact Option.bind_eq_some_iff.2 ⟨n, hn, power?_zero_of_undefined hc⟩
  all_goals cases h

end Readings

/-! ## Integer literals -/

section Exponent

variable {C : Type} [ExactScalar C]

open Classical in
/-- The integer that a literal denotes. -/
noncomputable def integerLiteral? (c : C) : Option ℤ :=
  if h : ∃ n : ℤ, (n : C) = c then some h.choose else none

/-- What a literal denotes is the literal. -/
theorem cast_of_integerLiteral? {c : C} {n : ℤ} (h : integerLiteral? c = some n) :
    (n : C) = c := by
  rw [integerLiteral?] at h
  split at h
  · rename_i hc
    rw [← Option.some.inj h]
    exact hc.choose_spec
  · cases h

/-- Every integer is denoted by its literal. -/
theorem integerLiteral?_cast [CharZero C] (n : ℤ) : integerLiteral? (n : C) = some n := by
  have h : ∃ m : ℤ, (m : C) = n := ⟨n, rfl⟩
  rw [integerLiteral?, dif_pos h]
  exact congrArg some (Int.cast_injective h.choose_spec)

/-- The exponent that an expression gives, if it is an integer literal. -/
noncomputable def Expr.exponent? (e : Expr C) : Option ℤ := e.asNumber?.bind integerLiteral?

end Exponent

/-! ## Values -/

namespace Interpretation

variable {C K : Type} [ExactScalar C] [Field K] [Algebra C K]

mutual
/-- The value of an expression in the field. Powers need an integer literal for an exponent,
and the only function of a list is the sum. -/
noncomputable def value? (I : Interpretation C K) (z : ZeroDivision) : Expr C → Option K
  | .number c => some (algebraMap C K c)
  | .var x => some (I.var x)
  | .unary .negate e => (value? I z e).map fun a => -a
  | .unary op e => (value? I z e).bind (I.apply op)
  | .binary op l r =>
    match value? I z l, value? I z r with
    | some a, some b => operation? z op r.exponent? a b
    | _, _ => none
  | .rational n d =>
    match value? I z n, value? I z d with
    | some a, some b => quotient? z a b
    | _, _ => none
  | .aggregate .sum args => total? I z args
  | .simplify e => value? I z e
  | .derivative e x => (value? I z e).map (I.D x)
  | _ => none
/-- The sum of the values of a list of expressions. -/
noncomputable def total? (I : Interpretation C K) (z : ZeroDivision) : List (Expr C) → Option K
  | [] => some 0
  | e :: es =>
    match value? I z e, total? I z es with
    | some a, some b => some (a + b)
    | _, _ => none
end

variable {I : Interpretation C K} {z : ZeroDivision}

/-! ### Values of the nodes -/

@[simp] theorem value?_number (c : C) :
    I.value? z (.number c) = some (algebraMap C K c) := rfl

/-- The value of a numeral is the numeral of the field. -/
@[simp] theorem value?_numeral (n : Nat) :
    I.value? z (.number (@OfNat.ofNat C n (Scalar.instNumeral n))) = some (n : K) := by
  rw [value?_number, ExactScalar.numeral_eq_cast, map_natCast]

@[simp] theorem value?_var (x : String) : I.value? z (.var x) = some (I.var x) := rfl

@[simp] theorem value?_simplify (e : Expr C) : I.value? z (.simplify e) = I.value? z e := rfl

@[simp] theorem value?_neg (e : Expr C) :
    I.value? z (.neg e) = (I.value? z e).map fun a => -a := rfl

/-- The value of a function other than the opposite. -/
theorem value?_unary {op : UnaryOp} (h : op ≠ .negate) (e : Expr C) :
    I.value? z (.unary op e) = (I.value? z e).bind (I.apply op) := by
  cases op
  case negate => exact absurd rfl h
  all_goals rfl

/-- An operation has a value exactly where its operands have values on which it is
defined. -/
theorem value?_binary_eq_some_iff {op : BinaryOp} {l r : Expr C} {c : K} :
    I.value? z (.binary op l r) = some c ↔
      ∃ a b, I.value? z l = some a ∧ I.value? z r = some b ∧
        operation? z op r.exponent? a b = some c := by
  rw [value?]
  cases I.value? z l <;> cases I.value? z r <;> simp

/-- The value of an operation, from the values of the operands. -/
theorem value?_binary {l r : Expr C} {a b : K} (op : BinaryOp) (hl : I.value? z l = some a)
    (hr : I.value? z r = some b) :
    I.value? z (.binary op l r) = operation? z op r.exponent? a b := by
  refine Option.ext fun c => ?_
  rw [value?_binary_eq_some_iff]
  simp [hl, hr]

/-- The value of a fraction, from the values of numerator and denominator. -/
theorem value?_rational_eq_some_iff {n d : Expr C} {c : K} :
    I.value? z (.rational n d) = some c ↔
      ∃ a b, I.value? z n = some a ∧ I.value? z d = some b ∧ quotient? z a b = some c := by
  rw [value?]
  cases I.value? z n <;> cases I.value? z d <;> simp

@[simp] theorem value?_derivative (e : Expr C) (x : String) :
    I.value? z (.derivative e x) = (I.value? z e).map (I.D x) := rfl

@[simp] theorem value?_sum (args : List (Expr C)) :
    I.value? z (.aggregate .sum args) = I.total? z args := rfl

@[simp] theorem total?_nil : I.total? z [] = some 0 := rfl

/-- A list has a sum exactly where its members have values. -/
theorem total?_eq_some_iff {es : List (Expr C)} {c : K} :
    I.total? z es = some c ↔
      ∃ bs, List.Forall₂ (fun e b => I.value? z e = some b) es bs ∧ bs.sum = c := by
  induction es generalizing c with
  | nil => simp [total?_nil]
  | cons e es ih =>
    rw [total?]
    constructor
    · intro h
      split at h
      · rename_i a b ha hb
        obtain ⟨bs, hbs, rfl⟩ := ih.1 hb
        refine ⟨a :: bs, .cons ha hbs, ?_⟩
        rw [List.sum_cons]
        exact Option.some.inj h
      · cases h
    · rintro ⟨bs, hbs, rfl⟩
      cases hbs with
      | cons ha hbs =>
        rw [ha, ih.2 ⟨_, hbs, rfl⟩, List.sum_cons]

/-- Induction on expressions that have a value, one case for each kind of node that may have
one. -/
theorem value?_rec {motive : Expr C → K → Prop}
    (number : ∀ c, motive (.number c) (algebraMap C K c))
    (var : ∀ x, motive (.var x) (I.var x))
    (negate : ∀ e a, I.value? z e = some a → motive e a → motive (.neg e) (-a))
    (function : ∀ op e a b, op ≠ .negate → I.value? z e = some a → motive e a →
      I.apply op a = some b → motive (.unary op e) b)
    (binary : ∀ op l r a b c, I.value? z l = some a → motive l a → I.value? z r = some b →
      motive r b → operation? z op r.exponent? a b = some c → motive (.binary op l r) c)
    (rational : ∀ n d a b c, I.value? z n = some a → motive n a → I.value? z d = some b →
      motive d b → quotient? z a b = some c → motive (.rational n d) c)
    (sum : ∀ es bs, List.Forall₂ (fun e b => I.value? z e = some b ∧ motive e b) es bs →
      motive (.aggregate .sum es) bs.sum)
    (simplify : ∀ e a, I.value? z e = some a → motive e a → motive (.simplify e) a)
    (derivative : ∀ e x a, I.value? z e = some a → motive e a →
      motive (.derivative e x) (I.D x a))
    {e : Expr C} {a : K} (h : I.value? z e = some a) : motive e a := by
  induction e using Expr.induction generalizing a with
  | step e ih =>
    cases e
    case number c =>
      rw [value?_number] at h
      rw [← Option.some.inj h]
      exact number c
    case var x =>
      rw [value?_var] at h
      rw [← Option.some.inj h]
      exact var x
    case unary op e =>
      by_cases hop : op = .negate
      · subst hop
        rw [value?_neg] at h
        obtain ⟨b, hb, rfl⟩ := Option.map_eq_some_iff.1 h
        exact negate e b hb (ih e List.mem_cons_self hb)
      · rw [value?_unary hop] at h
        obtain ⟨b, hb, hab⟩ := Option.bind_eq_some_iff.1 h
        exact function op e b a hop hb (ih e List.mem_cons_self hb) hab
    case binary op l r =>
      obtain ⟨b, c, hb, hc, hbc⟩ := value?_binary_eq_some_iff.1 h
      have hr : r ∈ [l, r] := List.mem_cons_of_mem l List.mem_cons_self
      exact binary op l r b c a hb (ih l List.mem_cons_self hb) hc (ih r hr hc) hbc
    case rational n d =>
      obtain ⟨b, c, hb, hc, hbc⟩ := value?_rational_eq_some_iff.1 h
      have hd : d ∈ [n, d] := List.mem_cons_of_mem n List.mem_cons_self
      exact rational n d b c a hb (ih n List.mem_cons_self hb) hc (ih d hd hc) hbc
    case aggregate op es =>
      cases op
      case sum =>
        rw [value?_sum] at h
        obtain ⟨bs, hbs, rfl⟩ := total?_eq_some_iff.1 h
        refine sum es bs ?_
        refine List.Forall₂.imp ?_ (List.forall₂_and_left (p := (· ∈ es)) _ _ |>.2
          ⟨fun e he => he, hbs⟩)
        rintro e b ⟨he, hb⟩
        exact ⟨hb, ih e he hb⟩
      all_goals
        simp only [value?, reduceCtorEq] at h
    case simplify e =>
      rw [value?_simplify] at h
      exact simplify e a h (ih e List.mem_cons_self h)
    case derivative e x =>
      rw [value?_derivative] at h
      obtain ⟨b, hb, rfl⟩ := Option.map_eq_some_iff.1 h
      exact derivative e x b hb (ih e List.mem_cons_self hb)
    all_goals
      simp only [value?, reduceCtorEq] at h

/-! ### Allowing division by zero -/

/-- An expression that is defined without division by zero has the same value where
division by zero is allowed. -/
theorem value?_zero_of_undefined {e : Expr C} {a : K} (h : I.value? .undefined e = some a) :
    I.value? .zero e = some a := by
  refine value?_rec (motive := fun e a => I.value? .zero e = some a)
    ?number ?var ?negate ?function ?binary ?rational ?sum ?simplify ?derivative h
  case number =>
    intro c
    rw [value?_number]
  case var =>
    intro x
    rw [value?_var]
  case negate =>
    intro e a _ ih
    rw [value?_neg, ih]
    rfl
  case function =>
    intro op e a b hop _ ih hb
    rw [value?_unary hop, ih]
    exact hb
  case binary =>
    intro op l r a b c _ ihl _ ihr hc
    rw [value?_binary op ihl ihr]
    exact operation?_zero_of_undefined hc
  case rational =>
    intro n d a b c _ ihn _ ihd hc
    exact value?_rational_eq_some_iff.2 ⟨a, b, ihn, ihd, quotient?_zero_of_undefined hc⟩
  case sum =>
    intro es bs hbs
    rw [value?_sum]
    exact total?_eq_some_iff.2 ⟨bs, hbs.imp fun _ _ h => h.2, rfl⟩
  case simplify =>
    intro e a _ ih
    rw [value?_simplify]
    exact ih
  case derivative =>
    intro e x a _ ih
    rw [value?_derivative, ih]
    rfl

/-! ### Independence of variables that do not occur -/

/-- A value does not depend on a variable that does not occur. -/
theorem D_eq_zero_of_containsVar_eq_false {x : String} {e : Expr C} {a : K}
    (h : I.value? .zero e = some a) (hx : e.containsVar x = false) : I.D x a = 0 := by
  refine value?_rec (motive := fun e a => e.containsVar x = false → I.D x a = 0)
    ?number ?var ?negate ?function ?binary ?rational ?sum ?simplify ?derivative h hx
  case number =>
    intro c _
    exact (I.D x).map_algebraMap c
  case var =>
    intro y hy
    rw [I.D_var, if_neg]
    rw [Expr.containsVar] at hy
    exact beq_eq_false_iff_ne.1 hy
  case negate =>
    intro e a _ ih he
    rw [Expr.containsVar] at he
    rw [Derivation.map_neg, ih he, neg_zero]
  case function =>
    intro op e a b _ _ ih hb he
    rw [Expr.containsVar] at he
    obtain ⟨s, _, hs⟩ := I.D_apply op a b hb
    rw [hs, ih he, mul_zero]
  case binary =>
    intro op l r a b c _ ihl hr ihr hc he
    rw [Expr.containsVar, Bool.or_eq_false_iff] at he
    have ha := ihl he.1
    have hb := ihr he.2
    cases op
    case add =>
      rw [← Option.some.inj hc, map_add, ha, hb, add_zero]
    case sub =>
      rw [← Option.some.inj hc, map_sub, ha, hb, sub_zero]
    case mul =>
      rw [← Option.some.inj hc, Derivation.leibniz, ha, hb, smul_zero, smul_zero, add_zero]
    case div =>
      rw [operation?, quotient?_zero] at hc
      rw [← Option.some.inj hc, Derivation.leibniz_div, ha, hb]
      simp
    case pow =>
      obtain ⟨n, _, hn⟩ := Option.bind_eq_some_iff.1 hc
      rw [power?_zero] at hn
      rw [← Option.some.inj hn, Derivation.leibniz_zpow, ha]
      simp
    all_goals cases hc
  case rational =>
    intro n d a b c _ ihn _ ihd hc he
    rw [Expr.containsVar, Bool.or_eq_false_iff] at he
    rw [quotient?_zero] at hc
    rw [← Option.some.inj hc, Derivation.leibniz_div, ihn he.1, ihd he.2]
    simp
  case sum =>
    intro es bs hbs he
    rw [Expr.containsVar] at he
    induction hbs with
    | nil => exact map_zero _
    | cons hb _ ih =>
      rw [Expr.containsVarList, Bool.or_eq_false_iff] at he
      rw [List.sum_cons, map_add, hb.2 he.1, ih he.2, add_zero]
  case simplify =>
    intro e a _ ih he
    rw [Expr.containsVar] at he
    exact ih he
  case derivative =>
    intro e y a _ ih he
    rw [Expr.containsVar] at he
    rw [I.D_comm, ih he, map_zero]

end Interpretation

end SymbolicAlgebra
