import SymbolicAlgebra.Expr

set_option autoImplicit false

/-!
# The shape of matrices and rebuilding nodes

The rows of a matrix are usually vector literals, and those must all have the length of
the first one (`Expr.RowsFit`). Rows of another form are kept as they are; whether they are
vectors is a question of types. A matrix is built only from rows that fit
(`matrixOf_eq_ok_iff`), and otherwise the first row of another length is reported (`ShapeError`).

So putting other subexpressions into a node may fail, at a matrix (`Expr.rebuild`), and with it
every transformation that maps the direct subexpressions and rebuilds the node
(`Expr.mapChildren`). The success of such steps one after the other is read off from
`Expr.bind_eq_ok_iff`, `Expr.map_eq_ok_iff` and `Expr.mapError_eq_ok_iff`.
-/

namespace SymbolicAlgebra

/-- A row of a matrix whose length is not the one of the first vector row. -/
structure ShapeError where
  /-- The index of the row, from zero. -/
  row : Nat
  /-- The length of the first vector row. -/
  expected : Nat
  /-- The length of the row. -/
  found : Nat
deriving DecidableEq

/-- The wording of a shape error. -/
def ShapeError.message (e : ShapeError) : String :=
  s!"matrix row {e.row} has {e.found} element(s), expected {e.expected}"

namespace Expr

/-! ## Steps that may fail -/

/-- A sequence of two steps succeeds exactly where both steps do. -/
theorem bind_eq_ok_iff {ε α β : Type} {x : Except ε α} {f : α → Except ε β} {b : β} :
    x >>= f = .ok b ↔ ∃ a, x = .ok a ∧ f a = .ok b := by
  cases x with
  | error e =>
    constructor
    · intro h
      cases h
    · rintro ⟨a, ha, _⟩
      cases ha
  | ok a =>
    constructor
    · intro h
      exact ⟨a, rfl, h⟩
    · rintro ⟨a', ha, hf⟩
      rw [Except.ok.inj ha]
      exact hf

/-- Changing the value of a step changes no success. -/
theorem map_eq_ok_iff {ε α β : Type} {x : Except ε α} {f : α → β} {b : β} :
    x.map f = .ok b ↔ ∃ a, x = .ok a ∧ f a = b := by
  cases x with
  | error e =>
    constructor
    · intro h
      cases h
    · rintro ⟨a, ha, _⟩
      cases ha
  | ok a =>
    constructor
    · intro h
      exact ⟨a, rfl, Except.ok.inj h⟩
    · rintro ⟨a', ha, hf⟩
      rw [Except.ok.inj ha, ← hf]
      rfl

/-- Naming the failures of a step differently changes no success. -/
theorem mapError_eq_ok_iff {ε ε' α : Type} {x : Except ε α} {f : ε → ε'} {a : α} :
    x.mapError f = .ok a ↔ x = .ok a := by
  cases x with
  | error e =>
    constructor
    · intro h
      cases h
    · intro h
      cases h
  | ok b =>
    constructor
    · intro h
      rw [Except.ok.inj h]
    · rintro h
      rw [Except.ok.inj h]
      rfl

variable {R : Type}

/-! ## The shape rule -/

/-- The first vector row whose length differs from the expected one. Without an expected
length the first vector row sets it. -/
def firstMisfit : (expected : Option Nat) → (row : Nat) → List (Expr R) → Option ShapeError
  | _, _, [] => none
  | expected, row, r :: rest =>
    match r.asVector?, expected with
    | none, _ => firstMisfit expected (row + 1) rest
    | some es, none => firstMisfit (some es.length) (row + 1) rest
    | some es, some n =>
      if n = es.length then firstMisfit (some n) (row + 1) rest
      else some ⟨row, n, es.length⟩

/-- The matrix with the rows given. -/
def matrixOf (rows : List (Expr R)) : Except ShapeError (Expr R) :=
  match firstMisfit none 0 rows with
  | some e => .error e
  | none => .ok (.matrix rows)

/-- All vector rows have one length. -/
def RowsFit (rows : List (Expr R)) : Prop :=
  ∃ n, ∀ es, Expr.vector es ∈ rows → es.length = n

/-- With an expected length, no row is a misfit exactly where all vector rows have it. -/
theorem firstMisfit_some_eq_none_iff {n row : Nat} {rows : List (Expr R)} :
    firstMisfit (some n) row rows = none ↔ ∀ es, Expr.vector es ∈ rows → es.length = n := by
  induction rows generalizing row with
  | nil => simp [firstMisfit]
  | cons r rest ih =>
    cases r <;> simp only [firstMisfit, asVector?, List.mem_cons, reduceCtorEq, false_or, ih]
    case vector es =>
      by_cases h : n = es.length
      · subst h
        simp only [↓reduceIte, ih, Expr.vector.injEq, forall_eq_or_imp, true_and]
      · simp only [h, ↓reduceIte, reduceCtorEq, Expr.vector.injEq, forall_eq_or_imp,
          false_iff, not_and]
        exact fun h' => absurd h'.symm h

/-- Without an expected length, no row is a misfit exactly where the rows fit. -/
theorem firstMisfit_none_eq_none_iff {row : Nat} {rows : List (Expr R)} :
    firstMisfit none row rows = none ↔ RowsFit rows := by
  induction rows generalizing row with
  | nil => simp [firstMisfit, RowsFit]
  | cons r rest ih =>
    cases r <;> simp only [firstMisfit, asVector?, RowsFit, List.mem_cons, reduceCtorEq,
      false_or, ih]
    case vector es =>
      simp only [firstMisfit_some_eq_none_iff, Expr.vector.injEq, forall_eq_or_imp]
      constructor
      · intro h
        exact ⟨es.length, rfl, h⟩
      · rintro ⟨n, rfl, h⟩
        exact h

/-- A matrix is built exactly from rows that fit. -/
theorem matrixOf_eq_ok_iff {rows : List (Expr R)} {e : Expr R} :
    matrixOf rows = .ok e ↔ RowsFit rows ∧ e = .matrix rows := by
  unfold matrixOf
  split
  · rename_i x h
    simp only [reduceCtorEq, false_iff, not_and]
    intro h'
    have hn : firstMisfit none 0 rows = none := firstMisfit_none_eq_none_iff.2 h'
    rw [h] at hn
    exact absurd hn (by simp)
  · rename_i h
    rw [firstMisfit_none_eq_none_iff] at h
    simp [h, eq_comm]

/-! ## Rebuilding -/

/-- Whether the expression is a matrix literal. -/
def isMatrix : Expr R → Bool
  | .matrix _ => true
  | _ => false

/-- The node with other direct subexpressions; a matrix must keep its shape. -/
def rebuild {ε : Type} (ofShape : ShapeError → ε) (e : Expr R) (cs : List (Expr R)) :
    Except ε (Expr R) :=
  if e.isMatrix then (matrixOf cs).mapError ofShape else .ok (e.withChildren cs)

/-- Maps the direct subexpressions from left to right and rebuilds the node. The first
failure wins, and the shape of a matrix is looked at last. -/
def mapChildren {ε : Type} (ofShape : ShapeError → ε) (f : Expr R → Except ε (Expr R))
    (e : Expr R) : Except ε (Expr R) :=
  e.children.mapM f >>= e.rebuild ofShape

/-- A successful rebuilding puts the subexpressions in place. -/
theorem eq_withChildren_of_rebuild {ε : Type} {ofShape : ShapeError → ε} {e e' : Expr R}
    {cs : List (Expr R)} (h : e.rebuild ofShape cs = .ok e') : e' = e.withChildren cs := by
  unfold rebuild at h
  split at h
  · rename_i hm
    cases hr : matrixOf cs with
    | error x => rw [hr] at h; cases h
    | ok m =>
      cases e <;> simp only [isMatrix, Bool.false_eq_true] at hm
      have := (matrixOf_eq_ok_iff.1 hr).2
      rw [hr] at h
      simp [withChildren, ← Except.ok.inj h, this]
  · exact (Except.ok.inj h).symm

end Expr

end SymbolicAlgebra
