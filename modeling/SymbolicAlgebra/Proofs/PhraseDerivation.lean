import SymbolicAlgebra.Proofs.ConcreteSyntax
import SymbolicAlgebra.Proofs.GrammarSound

set_option autoImplicit false

/-!
# The expressions of printed formulas

The concrete syntax of printed formulas is a part of the grammar: the tokens that it assigns to
a text are derived for the expression that it assigns to it (`Phrase.isAssignment`, from
`Atom.isPrimary`, `Operand.isSigned` and the same for the other forms). So they are parsed as this
expression, because the parser reads what the grammar derives (`Phrase.parse`).
-/

namespace SymbolicAlgebra

open Grammar

variable {R : Type} [Scalar R] {U : FunctionTable R}

/-- A number, with a minus sign before it or without, is a signed operand. -/
theorem isSigned_withSign (negative : Bool) (v : R) :
    IsSigned U (signTokens negative ++ [.number v]) (.number (withSign negative v)) := by
  cases negative with
  | true => exact .negateLiteral (.number v)
  | false => exact .power (.trailing (.primary (.literal (.number v))))

/-- The tokens of a unit behind a word are a variable, possibly with a power. -/
theorem isPower_factor (u : MeasureUnit) : IsPower U u.factorTokens u.factor := by
  unfold MeasureUnit.factorTokens MeasureUnit.factor
  cases u.exponent? with
  | none => exact .trailing (.primary (.name _))
  | some n => exact .power (.primary (.name _)) (.trailing (.primary (.literal (.number _))))

/-- The tokens of a unit behind a word start with a name. -/
theorem head?_factorTokens (u : MeasureUnit) :
    (u.factorTokens : List (Token R)).head? = some (.name u.stemName) := by
  unfold MeasureUnit.factorTokens
  split <;> rfl

/-- A number and the name of a unit behind it are multiplied. -/
theorem isAssignment_product (negative : Bool) (v : R) (u : MeasureUnit) :
    IsAssignment U (signTokens negative ++ .number v :: u.factorTokens)
      (.mul (.number (withSign negative v)) u.factor) := by
  have hnumber : IsChain U .product (signTokens negative ++ [.number v])
      (.number (withSign negative v)) :=
    .operand ((isSigned_withSign negative v).isOperand .product)
  have hfactor : IsOperand U .product u.factorTokens u.factor :=
    .signed (.power (isPower_factor u))
  have hproduct := IsChain.juxtaposition (by rw [List.getLast?_concat]) (head?_factorTokens u)
    rfl hnumber hfactor
  rw [List.append_assoc] at hproduct
  exact hproduct.isAssignment

mutual
/-- The tokens of an operand without a sign are a primary. -/
theorem Atom.isPrimary {s : List Char} {w : List (Token R)} {e : Expr R} :
    Atom U s w e → IsPrimary U w e
  | .real (v := v) _ => .literal (.number v)
  | .quantity _ u => .literal (.quantity _ u)
  | .temperature _ _ => .literal (.quantity _ _)
  | .truth b => .truth b
  | .name _ => .name _
  | .group h => .group h.isAssignment
  | .call _ hb h he => .call hb h.isBody (called_iff.2 he)
  | .list h he => .list h.isBody (collected_iff.2 he)
/-- The tokens of an operand are a signed operand. -/
theorem Operand.isSigned {s : List Char} {w : List (Token R)} {e : Expr R} :
    Operand U s w e → IsSigned U w e
  | .atom h => .power (.trailing (.primary h.isPrimary))
  | .opposite h => IsSigned.negated (.power (.trailing (.primary h.isPrimary)))
/-- The tokens of a power are a power. -/
theorem Power.isPower {s : List Char} {w : List (Token R)} {e : Expr R} :
    Power U s w e → IsPower U w e
  | .trailing h he =>
    .trailing (.trailing (.primary h.isPrimary) (trailed?_eq_some_ok_iff.1 he))
  | .exponent h (.atom h') =>
    .power (.primary h.isPrimary) (.trailing (.primary h'.isPrimary))
  | .exponent h (.opposite h') =>
    .signed (.primary h.isPrimary) rfl
      (IsSigned.negated (.power (.trailing (.primary h'.isPrimary))))
/-- The tokens of a whole expression are an assignment. -/
theorem Phrase.isAssignment {s : List Char} {w : List (Token R)} {e : Expr R} :
    Phrase U s w e → IsAssignment U w e
  | .operand h => h.isSigned.isAssignment
  | .rectangular _ _ _ _ =>
    IsSigned.isAssignment (.power (.trailing (.primary (.literal (.complex _)))))
  | .not h => IsSigned.isAssignment (.not h.isSigned)
  | .power h => IsSigned.isAssignment (.power h.isPower)
  | .opposite h => (IsSigned.negated (.power h.isPower)).isAssignment
  | .joined (l := l) hk h h' =>
    IsChain.isAssignment (.connective hk (.operand (h.isSigned.isOperand l))
      (h'.isSigned.isOperand l))
  | .sum minus h h' => by
    have hk : Level.sum.connective? (if minus then .minus else .plus) =
        some (.operation (if minus then .sub else .add)) := by
      cases minus <;> rfl
    have ho : IsSigned U _ _ := .power (.trailing (.primary h'.isPrimary))
    exact IsChain.isAssignment
      (.connective hk (.operand (h.isSigned.isOperand .sum)) (ho.isOperand .sum))
  | .product negative _ _ => isAssignment_product negative _ _
  | .assign ho h h' he => by
    have ht : IsSigned U _ _ := .power (.trailing (.primary h.isPrimary))
    exact .assign (.operand (ht.isOperand .disjunction)) h'.isSigned.isAssignment
      (assigned_iff.2 ⟨ho, he⟩)
/-- The tokens of a list are its members. -/
theorem Items.isMembers {s : List Char} {w : List (Token R)} {es : List (Expr R)} :
    Items U s w es → IsMembers U w es
  | .one h => .one h.isAssignment
  | .cons h h' => .cons h.isAssignment h'.isMembers
/-- The tokens between two brackets may stand between them. -/
theorem Body.isBody {s : List Char} {w : List (Token R)} {es : List (Expr R)} :
    Body U s w es → IsBody U w es
  | .empty => .empty
  | .items h => .members h.isMembers
end

/-- The tokens of a whole expression form it. -/
theorem Phrase.parse {s : List Char} {w : List (Token R)} {e : Expr R} (h : Phrase U s w e) :
    parse U w = .ok e :=
  h.isAssignment.parse

end SymbolicAlgebra
