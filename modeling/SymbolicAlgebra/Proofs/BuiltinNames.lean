import SymbolicAlgebra.Grammar.Builtin
import SymbolicAlgebra.Proofs.NameTokens

set_option autoImplicit false

/-!
# The names of the built-in functions

The printer writes an operation with the name that the table of built-in functions has for
it. Every name of the table is a word that stands for nothing else
(`Builtin.isFunctionName_of_ofName?`), and the table gives the operation back
(`Builtin.exists_unary`, `Builtin.exists_binary` and `Builtin.ofName?_aggregate`). Both are facts
about a finite table and are decided entry by entry.
-/

namespace SymbolicAlgebra.Builtin

/-- The names of built-in functions are names of functions. -/
theorem isFunctionName_of_ofName? {f : String} {b : Builtin} (h : ofName? f = some b) :
    isFunctionName f = true := by
  have hall : ∀ p ∈ names, isFunctionName p.1 = true := by decide +kernel
  unfold ofName? at h
  obtain ⟨ps, qs, hnames, -⟩ := List.lookup_eq_some_iff.1 h
  have hmem : (f, b) ∈ names := by
    rw [hnames]
    exact List.mem_append_right ps (List.mem_cons_self ..)
  exact hall (f, b) hmem

/-! ## Operations -/

/-- A function of one operand is named by itself; rounding shares its name with the
operation on two operands. -/
theorem ofName?_unary {op : UnaryOp} (h : op.isFunction = true) :
    ofName? op.name = some (if op = .round then .round else .unary op) := by
  cases op <;> first
    | (simp [ofName?, names, List.lookup_cons, UnaryOp.name]; done)
    | cases h

theorem ofName?_aggregate (op : Aggregate) : ofName? op.name = some (.aggregate op) := by
  cases op <;> simp [ofName?, names, List.lookup_cons, Aggregate.name]

variable {R : Type} [Scalar R]

/-- The call of a function of one operand stands for the operation. -/
theorem exists_unary {op : UnaryOp} (h : op.isFunction = true) :
    ∃ b, ofName? op.name = some b ∧ b.accepts 1 = true ∧
      ∀ e : Expr R, b.build op.name [e] = .ok (.unary op e) := by
  refine ⟨_, ofName?_unary h, ?_⟩
  split
  · rename_i hop
    subst hop
    exact ⟨rfl, fun _ => rfl⟩
  · exact ⟨rfl, fun _ => rfl⟩

/-- The call of a function of two operands stands for the operation. -/
theorem exists_binary {op : BinaryOp} (h : op.isBetween = false) :
    ∃ b, ofName? op.symbol = some b ∧ b.accepts 2 = true ∧
      ∀ l r : Expr R, b.build op.symbol [l, r] = .ok (.binary op l r) := by
  have hname : ∀ b, names.lookup op.symbol = some b → ofName? op.symbol = some b :=
    fun _ hb => hb
  cases op with
  | root =>
    exact ⟨.binary .root, hname _ (by simp [names, List.lookup_cons, BinaryOp.symbol]), rfl,
      fun _ _ => rfl⟩
  | log =>
    exact ⟨.log, hname _ (by simp [names, List.lookup_cons, BinaryOp.symbol]), rfl, fun _ _ => rfl⟩
  | round =>
    exact ⟨.round, hname _ (by simp [names, List.lookup_cons, BinaryOp.symbol]), rfl, fun _ _ => rfl⟩
  | dotProduct =>
    exact ⟨.binary .dotProduct, hname _ (by simp [names, List.lookup_cons, BinaryOp.symbol]), rfl,
      fun _ _ => rfl⟩
  | crossProduct =>
    exact ⟨.binary .crossProduct, hname _ (by simp [names, List.lookup_cons, BinaryOp.symbol]), rfl,
      fun _ _ => rfl⟩
  | _ => cases h

/-! ## Collections and constructs -/

theorem ofName?_vector : ofName? "vector" = some .vector := by
  simp [ofName?, names, List.lookup_cons]

theorem ofName?_matrix : ofName? "matrix" = some .matrix := by
  simp [ofName?, names, List.lookup_cons]

theorem ofName?_undef : ofName? "undef" = some .undefine := by
  simp [ofName?, names, List.lookup_cons]

theorem ofName?_if : ofName? "if" = some .condition := by
  simp [ofName?, names, List.lookup_cons]

theorem ofName?_for : ofName? "for" = some .forLoop := by
  simp [ofName?, names, List.lookup_cons]

theorem ofName?_while : ofName? "while" = some .whileLoop := by
  simp [ofName?, names, List.lookup_cons]

theorem ofName?_simplify : ofName? "simplify" = some .simplify := by
  simp [ofName?, names, List.lookup_cons]

theorem ofName?_derivative : ofName? "derivative" = some .derivative := by
  simp [ofName?, names, List.lookup_cons]

end SymbolicAlgebra.Builtin
