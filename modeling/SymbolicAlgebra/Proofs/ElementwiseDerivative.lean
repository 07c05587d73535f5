import SymbolicAlgebra.Proofs.DerivativeRun
import SymbolicAlgebra.Scalar.SignedFloat
import SymbolicAlgebra.Typing.Infer

set_option autoImplicit false

/-!
# Derivatives of vectors and matrices

A vector that contains the variable is differentiated element by element, and a matrix that
contains the variable row by row. A row is an operand like any other here: if it does not
contain the variable, its derivative is the number zero, and not a row of zeros
(`Expr.derivativeBy_row_iff`). So the derivative of a matrix is a matrix of the same size only if
the variable stands in every row; the other rows become numbers. The shape of a matrix puts no
condition on these (`Expr.rowsFit_of_rowDerivatives`), but such a matrix has no type
(`Expr.resultType_of_zero_mem`).

`Expr.derivativeBy_elementwise` gives the derivatives of vectors and matrices, and the matrices
that are differentiated entry by entry; `Expr.not_derivativeBy_elementwise` is a row that becomes a
number.
-/

namespace SymbolicAlgebra.Expr

variable {R : Type} [Scalar R] {x : String}

/-! ## Rows -/

/-- The second list holds the derivatives of the members of the first one, in order. -/
def Derivatives (x : String) (es ds : List (Expr R)) : Prop :=
  List.Forall₂ (fun e d => e.derivativeBy x = .ok d) es ds

/-- What a row of a matrix is differentiated to: the row of the derivatives where the variable
stands in it, and zero otherwise. -/
inductive RowDerivative (x : String) (r : List (Expr R)) : Expr R → Prop where
  | dependent {ds : List (Expr R)} (hx : (vector r).containsVar x = true)
      (h : Derivatives x r ds) : RowDerivative x r (.vector ds)
  | constant (hx : (vector r).containsVar x = false) : RowDerivative x r .zero

/-- A vector that contains the variable is differentiated element by element. -/
theorem derivativeBy_vector_iff {es : List (Expr R)} {d : Expr R}
    (hx : (vector es).containsVar x = true) :
    (vector es).derivativeBy x = .ok d ↔ ∃ ds, d = .vector ds ∧ Derivatives x es ds := by
  rw [derivativeBy_vector hx, map_eq_ok_iff]
  constructor
  · rintro ⟨ds, hds, rfl⟩
    exact ⟨ds, rfl, mapM_eq_ok_iff.1 hds⟩
  · rintro ⟨ds, rfl, hds⟩
    exact ⟨ds, mapM_eq_ok_iff.2 hds, rfl⟩

/-- The derivative of a row. -/
theorem derivativeBy_row_iff {r : List (Expr R)} {d : Expr R} :
    (vector r).derivativeBy x = .ok d ↔ RowDerivative x r d := by
  cases hx : (vector r).containsVar x with
  | true =>
    rw [derivativeBy_vector_iff hx]
    constructor
    · rintro ⟨ds, rfl, hds⟩
      exact .dependent hx hds
    · intro h
      cases h with
      | dependent _ hds => exact ⟨_, rfl, hds⟩
      | constant hc => rw [hx] at hc; cases hc
  | false =>
    rw [derivativeBy_of_containsVar_eq_false rfl hx]
    constructor
    · intro h
      rw [← Except.ok.inj h]
      exact .constant hx
    · intro h
      cases h with
      | dependent hd _ => rw [hx] at hd; cases hd
      | constant _ => rfl

/-! ## Matrices -/

/-- The rows of a derivative fit: those that are still vectors have the length that they
had, and the others do not count. -/
theorem rowsFit_of_rowDerivatives {rows : List (List (Expr R))} {ds : List (Expr R)} {n : Nat}
    (hn : ∀ r ∈ rows, r.length = n) (h : List.Forall₂ (RowDerivative x) rows ds) :
    RowsFit ds := by
  refine ⟨n, fun es hes => ?_⟩
  obtain ⟨r, hr, hd⟩ := exists_mem_of_forall₂ (p := fun d r => RowDerivative x r d) h.flip hes
  cases hd with
  | dependent _ hds => exact hds.length_eq ▸ hn r hr

/-- The derivatives of the rows of a matrix. -/
theorem forall₂_rowDerivative_iff {rows : List (List (Expr R))} {ds : List (Expr R)} :
    (rows.map Expr.vector).mapM (derivativeBy x) = .ok ds ↔
      List.Forall₂ (RowDerivative x) rows ds := by
  rw [mapM_eq_ok_iff, List.forall₂_map_left_iff]
  simp only [derivativeBy_row_iff]

/-- A matrix of rows of one length that contains the variable is differentiated row by row,
and its shape is never what this fails on. -/
theorem derivativeBy_matrix_iff {rows : List (List (Expr R))} {d : Expr R} {n : Nat}
    (hn : ∀ r ∈ rows, r.length = n)
    (hx : (matrix (rows.map Expr.vector)).containsVar x = true) :
    (matrix (rows.map Expr.vector)).derivativeBy x = .ok d ↔
      ∃ ds, d = .matrix ds ∧ List.Forall₂ (RowDerivative x) rows ds := by
  rw [derivativeBy_matrix hx, bind_eq_ok_iff]
  simp only [mapError_eq_ok_iff, matrixOf_eq_ok_iff, forall₂_rowDerivative_iff]
  constructor
  · rintro ⟨ds, hds, -, rfl⟩
    exact ⟨ds, rfl, hds⟩
  · rintro ⟨ds, rfl, hds⟩
    exact ⟨ds, hds, rowsFit_of_rowDerivatives hn hds, rfl⟩

/-- The expression is the matrix of the derivatives of the entries: it has as many rows, each
row is a vector of the same length, and each entry is the derivative of the entry at its
place. -/
def IsEntrywise (x : String) (rows : List (List (Expr R))) (d : Expr R) : Prop :=
  ∃ dss : List (List (Expr R)), d = .matrix (dss.map Expr.vector) ∧
    List.Forall₂ (Derivatives x) rows dss

/-- The rows that a matrix is differentiated to are the rows of the derivatives of its
entries exactly where the variable stands in every row. -/
theorem isEntrywise_iff {rows : List (List (Expr R))} {ds : List (Expr R)}
    (h : List.Forall₂ (RowDerivative x) rows ds) :
    IsEntrywise x rows (.matrix ds) ↔ ∀ r ∈ rows, (vector r).containsVar x = true := by
  constructor
  · rintro ⟨dss, hdss, -⟩ r hr
    obtain ⟨d, hd, hrow⟩ := exists_mem_of_forall₂ h hr
    cases hrow with
    | dependent hx _ => exact hx
    | constant _ =>
      -- Zero would have to be one of the vectors.
      rw [matrix.inj hdss] at hd
      obtain ⟨es, -, hes⟩ := List.mem_map.1 hd
      cases hes
  · intro hx
    induction h with
    | nil => exact ⟨[], rfl, .nil⟩
    | cons hrow _ ih =>
      obtain ⟨hr, hrows⟩ := List.forall_mem_cons.1 hx
      obtain ⟨dss, hdss, hentries⟩ := ih hrows
      cases hrow with
      | @dependent es _ hds =>
        refine ⟨es :: dss, ?_, .cons hds hentries⟩
        rw [List.map_cons, matrix.inj hdss]
      | constant hc => rw [hr] at hc; cases hc

/-- A check of members that accepts no numbers fails where a number is among them. -/
theorem exists_checkMembers_error {node : String} {accepts : ResultType → Bool}
    (hnumber : accepts .number = false) {os : List Typing.Outcome} (h : .ok .number ∈ os)
    (i : Nat) : ∃ m, Typing.checkMembers node accepts i os = .error m := by
  induction os generalizing i with
  | nil => cases h
  | cons o os ih =>
    cases o with
    | error m => exact ⟨m, rfl⟩
    | ok t =>
      by_cases ht : accepts t = true
      · -- The first member is accepted, so it is not the number.
        have hmem : .ok .number ∈ os := by
          refine (List.mem_cons.1 h).resolve_left fun heq => ?_
          rw [← Except.ok.inj heq, hnumber] at ht
          cases ht
        obtain ⟨m, hm⟩ := ih hmem (i + 1)
        refine ⟨m, ?_⟩
        change (if accepts t then _ else _) = _
        rw [if_pos ht]
        exact hm
      · refine ⟨.member node i t, ?_⟩
        change (if accepts t then _ else _) = _
        rw [if_neg ht]

/-- A matrix with zero among its rows has no type, whatever the parameters are. -/
theorem resultType_of_zero_mem {ds : List (Expr R)} (h : .zero ∈ ds) (P : Parameters R) :
    ∃ m, (matrix ds).resultType P = .error m := by
  have hmem : .ok .number ∈ resultTypes P ds := by
    rw [resultTypes_eq_map]
    exact List.mem_map.2 ⟨.zero, h, rfl⟩
  obtain ⟨m, hm⟩ :
      ∃ m, Typing.checkMembers "matrix" Typing.isRowType 1 (resultTypes P ds) = .error m :=
    exists_checkMembers_error rfl hmem 1
  refine ⟨m, ?_⟩
  rw [resultType, hm]
  rfl

/-- A row without the variable is differentiated to zero. -/
theorem zero_mem_of_constant {rows : List (List (Expr R))} {ds : List (Expr R)}
    (h : List.Forall₂ (RowDerivative x) rows ds) {r : List (Expr R)} (hr : r ∈ rows)
    (hx : (vector r).containsVar x ≠ true) : .zero ∈ ds := by
  obtain ⟨d, hd, hrow⟩ := exists_mem_of_forall₂ h hr
  cases hrow with
  | dependent hdep _ => exact absurd hdep hx
  | constant _ => exact hd

/-! ## Vectors and matrices -/

/-- The derivatives of vectors and matrices that contain the variable. A vector is
differentiated to the vector of the derivatives of its elements. A matrix whose rows are
vectors of one length is differentiated row by row, where a row without the variable becomes
zero; so the derivative is the matrix of the derivatives of the entries exactly if the variable
stands in every row, and otherwise it is a matrix that has no type. -/
theorem derivativeBy_elementwise (x : String) :
    (∀ (es : List (Expr R)) (d : Expr R), (vector es).containsVar x = true →
      ((vector es).derivativeBy x = .ok d ↔ ∃ ds, d = .vector ds ∧ Derivatives x es ds)) ∧
    ∀ (rows : List (List (Expr R))) (n : Nat) (d : Expr R), (∀ r ∈ rows, r.length = n) →
      (matrix (rows.map Expr.vector)).containsVar x = true →
      ((matrix (rows.map Expr.vector)).derivativeBy x = .ok d ↔
        ∃ ds, d = .matrix ds ∧ List.Forall₂ (RowDerivative x) rows ds) ∧
      ((matrix (rows.map Expr.vector)).derivativeBy x = .ok d →
        (IsEntrywise x rows d ↔ ∀ r ∈ rows, (vector r).containsVar x = true) ∧
        (¬ IsEntrywise x rows d → ∀ P, ∃ m, d.resultType P = .error m)) := by
  constructor
  · intro es d hx
    exact derivativeBy_vector_iff hx
  · intro rows n d hn hx
    refine ⟨derivativeBy_matrix_iff hn hx, fun hd => ?_⟩
    obtain ⟨ds, rfl, hrows⟩ := (derivativeBy_matrix_iff hn hx).1 hd
    refine ⟨isEntrywise_iff hrows, fun hne P => ?_⟩
    rw [isEntrywise_iff hrows] at hne
    simp only [not_forall, exists_prop] at hne
    obtain ⟨r, hr, hconstant⟩ := hne
    exact resultType_of_zero_mem (zero_mem_of_constant hrows hr hconstant) P

/-- In the matrix with the rows `x, 1` and `3, x` the variable stands in every row, and the
derivative has the rows `1, 0` and `0, 1`. -/
theorem derivativeBy_elementwise_square :
    let rows : List (List (Expr SignedFloat)) := [[.var "x", .one], [.number 3, .var "x"]]
    let d : Expr SignedFloat := .matrix [.vector [.one, .zero], .vector [.zero, .one]]
    (∀ r ∈ rows, r.length = 2) ∧ (matrix (rows.map Expr.vector)).containsVar "x" = true ∧
      (matrix (rows.map Expr.vector)).derivativeBy "x" = .ok d ∧ IsEntrywise "x" rows d := by
  intro rows d
  have hn : ∀ r ∈ rows, r.length = 2 := by simp [rows]
  have hx : (matrix (rows.map Expr.vector)).containsVar "x" = true := rfl
  have hvar : (Expr.var "x" : Expr SignedFloat).derivativeBy "x" = .ok .one := derivativeBy_var "x"
  have hnumber : ∀ v : SignedFloat, (Expr.number v).derivativeBy "x" = .ok .zero := fun _ =>
    derivativeBy_of_containsVar_eq_false rfl rfl
  have hrows : List.Forall₂ (RowDerivative "x") rows
      [.vector [.one, .zero], .vector [.zero, .one]] :=
    .cons (.dependent rfl (.cons hvar (.cons (hnumber 1) .nil)))
      (.cons (.dependent rfl (.cons (hnumber 3) (.cons hvar .nil))) .nil)
  obtain ⟨hiff, hentries⟩ := (derivativeBy_elementwise "x").2 rows 2 d hn hx
  have hd := hiff.2 ⟨_, rfl, hrows⟩
  exact ⟨hn, hx, hd, (hentries hd).1.2 (by simp [rows, containsVar, containsVarList])⟩

/-- In the matrix with the rows `x, 1` and `2, 3` the second row does not contain the variable.
The derivative is a matrix whose second row is the number zero, so that it has no type, although
the matrix has one. -/
theorem not_derivativeBy_elementwise :
    let rows : List (List (Expr SignedFloat)) := [[.var "x", .one], [.number 2, .number 3]]
    let d : Expr SignedFloat := .matrix [.vector [.one, .zero], .zero]
    (∀ r ∈ rows, r.length = 2) ∧ (matrix (rows.map Expr.vector)).containsVar "x" = true ∧
      (matrix (rows.map Expr.vector)).derivativeBy "x" = .ok d ∧ ¬ IsEntrywise "x" rows d ∧
      (matrix (rows.map Expr.vector)).resultType Table.empty = .ok .matrix ∧
      ∃ m, d.resultType Table.empty = .error m := by
  intro rows d
  have hn : ∀ r ∈ rows, r.length = 2 := by simp [rows]
  have hx : (matrix (rows.map Expr.vector)).containsVar "x" = true := rfl
  have hrows : List.Forall₂ (RowDerivative "x") rows [.vector [.one, .zero], .zero] :=
    .cons (.dependent rfl (.cons (derivativeBy_var "x")
      (.cons (derivativeBy_of_containsVar_eq_false rfl rfl) .nil))) (.cons (.constant rfl) .nil)
  refine ⟨hn, hx, (derivativeBy_matrix_iff hn hx).2 ⟨_, rfl, hrows⟩, fun h => ?_, rfl,
    resultType_of_zero_mem (by simp) _⟩
  have hall := (isEntrywise_iff hrows).1 h [.number 2, .number 3] (by simp [rows])
  cases hall

end SymbolicAlgebra.Expr
