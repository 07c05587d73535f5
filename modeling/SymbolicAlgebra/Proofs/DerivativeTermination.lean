import SymbolicAlgebra.Proofs.DerivativeRun
import SymbolicAlgebra.Proofs.ExactScalar

set_option autoImplicit false

/-!
# Differentiation ends

The recursion of differentiation is spread over four tasks: the derivative of an expression,
of a function of one operand, of an operation on two operands, and of a power. It does not
only descend to subexpressions. A root of variable degree becomes a power with the exponent
`1 / v` (`derivativeBy_root`), a logarithm to a variable base becomes the quotient of two
logarithms (`derivativeBy_log`), and a nested derivative is differentiated after it has been
computed, which may have made it much larger.

The recursion is described here as it calls itself, without a reason why it should end: a call
asks for the answers of other calls (`callees`), and an attempt answers a call if no more than a
certain number of calls are nested (`attempt`). Every call asks only for calls that are smaller in
this order: less nested derivatives first, then less effort, in which roots and logarithms count
for more than what they are replaced by, then the later task (`Call.measure`,
`descends_of_mem_callees`). So every call is answered, with the derivative
(`differentiation_terminates`).
-/

namespace SymbolicAlgebra

/-! ## Effort -/

namespace Expr

variable {R : Type}

/-- The effort of an operation, apart from its operands. A root may be replaced by a power and
a quotient, and a logarithm by a quotient and two logarithms of one operand. -/
def ownEffort : BinaryOp → Nat
  | .root | .log => 4
  | _ => 1

mutual
/-- The number of nodes, where a root and a logarithm count for more than one. -/
def effort : Expr R → Nat
  | .number _ | .truth _ | .complex _ | .quantity _ | .var _ => 1
  | .rational n d => 1 + (effort n + effort d)
  | .unary _ e | .undefine e | .increment e | .decrement e | .simplify e
  | .derivative e _ => 1 + effort e
  | .binary op l r => ownEffort op + (effort l + effort r)
  | .aggregate _ args | .call _ args => 1 + effortList args
  | .vector es => 1 + effortList es
  | .matrix rows => 1 + effortList rows
  | .define t v | .update _ t v => 1 + (effort t + effort v)
  | .ifThen c t => 1 + (effort c + effort t)
  | .ifThenElse c t e => 1 + (effort c + (effort t + effort e))
  | .forLoop i c s b => 1 + (effort i + (effort c + (effort s + effort b)))
  | .whileLoop c b => 1 + (effort c + effort b)
/-- The effort of a list of expressions. -/
def effortList : List (Expr R) → Nat
  | [] => 0
  | e :: es => effort e + effortList es
end

/-- A direct subexpression takes less effort. -/
theorem effort_lt_of_mem_children {c e : Expr R} (h : c ∈ e.children) : c.effort < e.effort := by
  have hlist : ∀ es : List (Expr R), c ∈ es → c.effort ≤ effortList es := by
    intro es hc
    induction es with
    | nil => cases hc
    | cons a es ih =>
      rw [effortList]
      rcases List.mem_cons.1 hc with rfl | hc
      · exact Nat.le_add_right _ _
      · exact Nat.le_add_left_of_le (ih hc)
  have hown : ∀ op, 1 ≤ ownEffort op := by
    intro op
    cases op <;> decide
  have hle := hlist _ h
  cases e <;> simp only [children, effortList, effort] at hle ⊢
  case binary op l r =>
    have := hown op
    omega
  all_goals omega

end Expr

/-! ## What roots and logarithms are replaced by -/

namespace Expr

variable {R : Type} [Scalar R] {x : String} {u v : Expr R}

/-- The operand `1 / v` is taken as the operand `v` is. -/
theorem operandBy_reciprocal (x : String) (v : Expr R) :
    (Expr.div .one v).operandBy x false =
      (v.operandBy x false).map Derivative.reciprocalOperand := by
  have hx : (Expr.div .one v).containsVar x = v.containsVar x := by simp [containsVar]
  cases hv : v.containsVar x with
  | false =>
    rw [operandBy_constant hv, operandBy_constant (hx.trans hv)]
    rfl
  | true =>
    rw [operandBy_dependent (hx.trans hv), derivativeBy_binary rfl (hx.trans hv)]
    change Except.map _ (v.operandBy x false >>= _) = _
    rw [operandBy_dependent hv]
    cases v.derivativeBy x <;> rfl

/-- The operand `ln v` is taken as the operand `v` is. -/
theorem operandBy_ln (x : String) (v : Expr R) :
    (Expr.unary .ln v).operandBy x false = (v.operandBy x false).map Derivative.lnOperand := by
  have hx : (Expr.unary .ln v).containsVar x = v.containsVar x := rfl
  cases hv : v.containsVar x with
  | false =>
    rw [operandBy_constant hv, operandBy_constant (hx.trans hv)]
    rfl
  | true =>
    rw [operandBy_dependent hv, operandBy_dependent (hx.trans hv),
      derivativeBy_unary rfl (hx.trans hv)]
    cases v.derivativeBy x <;> rfl

/-- The derivative of a root of variable degree is the one of the power with the reciprocal
exponent. -/
theorem derivativeBy_root (hv : v.containsVar x = true) :
    (Expr.binary .root u v).derivativeBy x = (Expr.pow u (.div .one v)).derivativeBy x := by
  rw [derivativeBy_binary rfl (by simp [containsVar, hv]),
    derivativeBy_binary rfl (by simp [containsVar, hv])]
  change (v.operandBy x false >>= fun b => u.operandBy x false >>= fun a =>
      pure (Derivative.rootRule a b)) =
    ((Expr.div .one v).operandBy x false >>= fun b => u.operandBy x false >>= fun a =>
      pure (Derivative.powerRule a b))
  rw [operandBy_reciprocal, operandBy_dependent hv]
  cases v.derivativeBy x <;> rfl

/-- The derivative of a logarithm to a variable base is the one of a quotient of two
logarithms. -/
theorem derivativeBy_log (hu : u.containsVar x = true) :
    (Expr.binary .log u v).derivativeBy x =
      (Expr.div (.unary .ln v) (.unary .ln u)).derivativeBy x := by
  rw [derivativeBy_binary rfl (by simp [containsVar, hu]),
    derivativeBy_binary rfl (by simp [containsVar, hu])]
  change (v.operandBy x false >>= fun b => u.operandBy x false >>= fun a =>
      pure (Derivative.logRule a b)) =
    ((Expr.unary .ln v).operandBy x false >>= fun b => (Expr.unary .ln u).operandBy x false >>=
      fun a => pure (Derivative.quotientRule b a))
  rw [operandBy_ln, operandBy_ln, operandBy_dependent hu]
  cases v.operandBy x false with
  | error y => rfl
  | ok b => cases u.derivativeBy x <;> rfl

end Expr

namespace Derivative

variable {R : Type}

/-! ## Calls -/

/-- A task of the recursion. -/
inductive Task (R : Type) where
  /-- The derivative of an expression. -/
  | expression (e : Expr R)
  /-- The derivative of a function of one operand. -/
  | function (op : UnaryOp) (u : Expr R)
  /-- The derivative of an operation on two operands. -/
  | operation (op : BinaryOp) (u v : Expr R)
  /-- The derivative of a power. -/
  | power (u v : Expr R)

/-- The expression whose derivative the task computes. -/
def Task.node : Task R → Expr R
  | .expression e => e
  | .function op u => .unary op u
  | .operation op u v => .binary op u v
  | .power u v => .pow u v

/-- The place of a task among those on the same expression; a task asks only for later ones,
which have a lower place. -/
def Task.place : Task R → Nat
  | .expression _ => 2
  | .operation _ _ _ => 1
  | .function _ _ | .power _ _ => 0

/-- A call of the recursion: the variable by which the derivative is taken, and the task. -/
structure Call (R : Type) where
  /-- The variable. -/
  name : String
  /-- The task. -/
  task : Task R

/-- What a call is measured by: nested derivatives, effort, and the place of the task. -/
def Call.measure (c : Call R) : Nat × Nat × Nat :=
  (c.task.node.nesting, c.task.node.effort, c.task.place)

/-- The calls for those expressions of a list that depend on the variable. -/
def dependentCalls (x : String) (es : List (Expr R)) : List (Call R) :=
  (es.filter fun e => e.containsVar x).map fun e => ⟨x, .expression e⟩

variable [Scalar R]

/-- The calls for the derivative of an expression. A nested derivative asks for the inner
derivative, and then for the derivative of the answer. -/
def expressionCalls (x : String) (e : Expr R) : List (Call R) :=
  if hasDerivative e = false then []
  else if e.containsVar x = false then []
  else
    match e with
    | .unary op u => if op = .negate then [⟨x, .expression u⟩] else [⟨x, .function op u⟩]
    | .binary op u v => [⟨x, .operation op u v⟩]
    | .rational u v => [⟨x, .operation .div u v⟩]
    | .aggregate .sum es => es.map fun e => ⟨x, .expression e⟩
    | .vector es => es.map fun e => ⟨x, .expression e⟩
    | .matrix rows => rows.map fun e => ⟨x, .expression e⟩
    | .derivative u y =>
      ⟨y, .expression u⟩ ::
        match u.derivativeBy y with
        | .ok du => [⟨x, .expression du⟩]
        | .error _ => []
    | .simplify u => [⟨x, .expression u⟩]
    | _ => []

/-- The calls for the derivative of an operation. A root of variable degree asks for a power
in its place, and a logarithm to a variable base for a quotient. -/
def operationCalls (x : String) (op : BinaryOp) (u v : Expr R) : List (Call R) :=
  match op with
  | .add | .sub | .mul | .div => dependentCalls x [u, v]
  | .pow => [⟨x, .power u v⟩]
  | .root =>
    if v.containsVar x then [⟨x, .power u (.div .one v)⟩] else dependentCalls x [u]
  | .log =>
    if u.containsVar x then [⟨x, .operation .div (.unary .ln v) (.unary .ln u)⟩]
    else dependentCalls x [v]
  | .dotProduct | .crossProduct => [⟨x, .expression u⟩, ⟨x, .expression v⟩]
  | _ => []

/-- The calls whose answers a call may ask for. -/
def callees (c : Call R) : List (Call R) :=
  match c.task with
  | .expression e => expressionCalls c.name e
  | .function _ u => [⟨c.name, .expression u⟩]
  | .operation op u v => operationCalls c.name op u v
  | .power u v => dependentCalls c.name [v, u]

/-! ## The recursion -/

/-- What a call is answered with, if it is answered at all. -/
abbrev Pending (α : Type) : Type := ExceptT DiffError Option α

/-- The answer that there is. -/
def answered {α : Type} (r : Except DiffError α) : Pending α := some r

/-- An operand with its derivative, which is asked for where the operand depends on the
variable. -/
def askOperand (answer : Call R → Pending (Expr R)) (x : String) (u : Expr R) :
    Pending (Operand R) :=
  if u.containsVar x then do return ⟨u, some (← answer ⟨x, .expression u⟩)⟩
  else return ⟨u, none⟩

/-- The derivative of an expression, from the answers of the calls that it asks for. -/
def expressionStep (answer : Call R → Pending (Expr R)) (x : String) (e : Expr R) :
    Pending (Expr R) :=
  if hasDerivative e = false then throw (.notDifferentiable e.text)
  else if e.containsVar x = false then return .zero
  else
    match e with
    | .var _ => return .one
    | .unary op u =>
      if op = .negate then do return .neg (← answer ⟨x, .expression u⟩)
      else answer ⟨x, .function op u⟩
    | .binary op u v => answer ⟨x, .operation op u v⟩
    | .rational u v => answer ⟨x, .operation .div u v⟩
    | .aggregate .sum es => do
      return .aggregate .sum (← es.mapM fun e => answer ⟨x, .expression e⟩)
    | .vector es => do return .vector (← es.mapM fun e => answer ⟨x, .expression e⟩)
    | .matrix rows => do
      let ds ← rows.mapM fun e => answer ⟨x, .expression e⟩
      answered ((Expr.matrixOf ds).mapError .shape)
    | .derivative u y => do
      let du ← answer ⟨y, .expression u⟩
      answer ⟨x, .expression du⟩
    | .simplify u => answer ⟨x, .expression u⟩
    | e => throw (.notDifferentiable e.text)

/-- The derivative of a function, from the derivative of its operand. -/
def functionStep (answer : Call R → Pending (Expr R)) (x : String) (op : UnaryOp)
    (u : Expr R) : Pending (Expr R) := do
  let du ← answer ⟨x, .expression u⟩
  match chainRule? op u du with
  | some d => return d
  | none => throw (.notDifferentiable (Expr.unary op u).text)

/-- The derivative of an operation, from the answers of the calls that it asks for. -/
def operationStep (answer : Call R → Pending (Expr R)) (x : String) (op : BinaryOp)
    (u v : Expr R) : Pending (Expr R) :=
  match op with
  | .add | .sub | .mul | .div => do
    let a ← askOperand answer x u
    let b ← askOperand answer x v
    return binaryRule op a b
  | .pow => answer ⟨x, .power u v⟩
  | .root =>
    if v.containsVar x then answer ⟨x, .power u (.div .one v)⟩
    else do return rootRule (← askOperand answer x u) ⟨v, none⟩
  | .log =>
    if u.containsVar x then answer ⟨x, .operation .div (.unary .ln v) (.unary .ln u)⟩
    else do return logRule ⟨u, none⟩ (← askOperand answer x v)
  | .dotProduct | .crossProduct => do
    let du ← answer ⟨x, .expression u⟩
    let dv ← answer ⟨x, .expression v⟩
    return vectorRule op ⟨u, some du⟩ ⟨v, some dv⟩
  | _ => throw (.notDifferentiable (Expr.binary op u v).text)

/-- The derivative of a power, from the derivatives of the exponent and the base. -/
def powerStep (answer : Call R → Pending (Expr R)) (x : String) (u v : Expr R) :
    Pending (Expr R) := do
  let b ← askOperand answer x v
  let a ← askOperand answer x u
  return powerRule a b

/-- The answer of a call, from the answers of the calls that it asks for. -/
def step (answer : Call R → Pending (Expr R)) (c : Call R) : Pending (Expr R) :=
  match c.task with
  | .expression e => expressionStep answer c.name e
  | .function op u => functionStep answer c.name op u
  | .operation op u v => operationStep answer c.name op u v
  | .power u v => powerStep answer c.name u v

/-- The recursion, cut off where more than a number of calls are nested. -/
def attempt : Nat → Call R → Option (Except DiffError (Expr R))
  | 0, _ => none
  | n + 1, c => step (attempt n) c

/-! ## What a call asks for -/

/-- What a call needs where its task is not an expression: the node may have a derivative and
contains the variable. -/
def Call.Proper (c : Call R) : Prop :=
  match c.task with
  | .expression _ => True
  | t => hasDerivative t.node = true ∧ t.node.containsVar c.name = true

/-- What a call asks for: the derivative of a direct subexpression, another task by the same
variable, or the derivative of an inner derivative. -/
inductive Asks (c : Call R) : Call R → Prop where
  /-- The derivative of a direct subexpression, by whatever variable. -/
  | child {a : Expr R} {y : String} (ha : a ∈ c.task.node.children) : Asks c ⟨y, .expression a⟩
  /-- A task that is smaller, on a node that contains the variable if that of the call does. -/
  | task {t : Task R} (hlt : Expr.Descends (Call.measure ⟨c.name, t⟩) c.measure)
      (hproper : c.Proper → Call.Proper ⟨c.name, t⟩) : Asks c ⟨c.name, t⟩
  /-- The derivative of an inner derivative, once that has been computed. -/
  | again {u du : Expr R} {y : String} (ht : c.task = .expression (.derivative u y))
      (hdu : u.derivativeBy y = .ok du) : Asks c ⟨c.name, .expression du⟩

section Asks

variable {x : String} {c c' : Call R}

/-- A later task on a node of no more nesting and effort. -/
theorem Asks.later {t : Task R} (hn : t.node.nesting ≤ c.task.node.nesting)
    (he : t.node.effort ≤ c.task.node.effort) (hp : t.place < c.task.place)
    (hproper : c.Proper → Call.Proper ⟨c.name, t⟩) : Asks c ⟨c.name, t⟩ :=
  .task (Expr.descends_of_le hn he (.inr hp)) hproper

/-- A task on a node that takes less effort. -/
theorem Asks.replaced {t : Task R} (hn : t.node.nesting ≤ c.task.node.nesting)
    (he : t.node.effort < c.task.node.effort)
    (hproper : c.Proper → Call.Proper ⟨c.name, t⟩) : Asks c ⟨c.name, t⟩ :=
  .task (Expr.descends_of_le hn (Nat.le_of_lt he) (.inl he)) hproper

/-- The operands that depend on the variable are direct subexpressions. -/
theorem asks_of_mem_dependentCalls {es : List (Expr R)} (hc : c' ∈ dependentCalls x es)
    (hes : ∀ e ∈ es, e ∈ c.task.node.children) : Asks c c' := by
  obtain ⟨e, he, rfl⟩ := List.mem_map.1 hc
  exact .child (hes e (List.mem_filter.1 he).1)

/-- What the derivative of an expression asks for. -/
theorem asks_of_mem_expressionCalls {e : Expr R} (hc : c' ∈ expressionCalls x e) :
    Asks ⟨x, .expression e⟩ c' := by
  unfold expressionCalls at hc
  split at hc
  · cases hc
  rename_i hd
  split at hc
  · cases hc
  rename_i hx
  have hproper : hasDerivative e = true ∧ e.containsVar x = true :=
    ⟨Bool.of_not_eq_false hd, Bool.of_not_eq_false hx⟩
  split at hc
  case h_1 =>
    split at hc <;> rw [List.mem_singleton.1 hc]
    · exact .child List.mem_cons_self
    · exact .later (Nat.le_refl _) (Nat.le_refl _) (by simp [Task.place]) fun _ => hproper
  case h_2 | h_3 =>
    rw [List.mem_singleton.1 hc]
    exact .later (Nat.le_refl _) (Nat.le_refl _) (by simp [Task.place]) fun _ => hproper
  case h_4 | h_5 | h_6 =>
    obtain ⟨a, ha, rfl⟩ := List.mem_map.1 hc
    exact .child ha
  case h_7 u y =>
    rcases List.mem_cons.1 hc with rfl | hc
    · exact .child List.mem_cons_self
    · split at hc
      · rename_i du hdu
        rw [List.mem_singleton.1 hc]
        exact .again rfl hdu
      · cases hc
  case h_8 =>
    rw [List.mem_singleton.1 hc]
    exact .child List.mem_cons_self
  case h_9 => cases hc

/-- What the derivative of an operation asks for. -/
theorem asks_of_mem_operationCalls {op : BinaryOp} {u v : Expr R}
    (hc : c' ∈ operationCalls x op u v) : Asks ⟨x, .operation op u v⟩ c' := by
  have hu : u ∈ (Expr.binary op u v).children := by simp [Expr.children]
  have hv : v ∈ (Expr.binary op u v).children := by simp [Expr.children]
  cases op <;> simp only [operationCalls] at hc
  case pow =>
    rw [List.mem_singleton.1 hc]
    exact .later (Nat.le_refl _) (Nat.le_refl _) (by simp [Task.place]) id
  case root =>
    split at hc
    · rename_i hx
      rw [List.mem_singleton.1 hc]
      -- The quotient `1 / v` adds two nodes, and the power does not count for a root any more.
      refine .replaced ?_ ?_ fun _ => ⟨rfl, by simp [Task.node, Expr.containsVar, hx]⟩ <;>
        simp only [Task.node, Expr.nesting, Expr.effort, Expr.ownEffort] <;> omega
    · exact asks_of_mem_dependentCalls hc (List.forall_mem_singleton.2 hu)
  case log =>
    split at hc
    · rename_i hx
      rw [List.mem_singleton.1 hc]
      -- The two logarithms of one operand add two nodes.
      refine .replaced ?_ ?_ fun _ => ⟨rfl, by simp [Task.node, Expr.containsVar, hx]⟩ <;>
        simp only [Task.node, Expr.nesting, Expr.effort, Expr.ownEffort] <;> omega
    · exact asks_of_mem_dependentCalls hc (List.forall_mem_singleton.2 hv)
  case dotProduct | crossProduct =>
    rcases List.mem_cons.1 hc with rfl | hc
    · exact .child hu
    · rw [List.mem_singleton.1 hc]
      exact .child hv
  case add | sub | mul | div => exact asks_of_mem_dependentCalls hc fun _ he => he
  all_goals cases hc

/-- What a call asks for. -/
theorem asks_of_mem_callees (hc : c' ∈ callees c) : Asks c c' := by
  obtain ⟨x, t⟩ := c
  cases t with
  | expression e => exact asks_of_mem_expressionCalls hc
  | function op u =>
    rw [List.mem_singleton.1 hc]
    exact .child List.mem_cons_self
  | operation op u v => exact asks_of_mem_operationCalls hc
  | power u v => exact asks_of_mem_dependentCalls hc (by simp [Task.node, Expr.children])

end Asks

/-! ## Every call asks for smaller calls -/

omit [Scalar R] in
/-- A call for a direct subexpression of the node is smaller, whatever its variable. -/
theorem descends_of_mem_children {a : Expr R} {x : String} {c : Call R}
    (ha : a ∈ c.task.node.children) :
    Expr.Descends (Call.measure ⟨x, .expression a⟩) c.measure :=
  Expr.descends_of_le (Expr.nesting_le_of_mem_children ha)
    (Nat.le_of_lt (Expr.effort_lt_of_mem_children ha))
    (.inl (Expr.effort_lt_of_mem_children ha))

/-- Every call asks only for smaller calls. -/
theorem descends_of_mem_callees {c c' : Call R} (hc : c ∈ callees c') :
    Expr.Descends c.measure c'.measure := by
  obtain ⟨x, t⟩ := c'
  cases asks_of_mem_callees hc with
  | child ha => exact descends_of_mem_children ha
  | task hlt _ => exact hlt
  | again ht hdu =>
    -- The inner derivative may take any effort, but it is nested less.
    obtain rfl : t = _ := ht
    exact .left _ _ (Nat.lt_succ_of_le (Expr.nesting_derivativeBy_le hdu))

/-- The calls that a proper call asks for are proper. -/
theorem proper_of_mem_callees {c c' : Call R} (h : c'.Proper) (hc : c ∈ callees c') :
    c.Proper := by
  cases asks_of_mem_callees hc with
  | child _ => trivial
  | task _ hproper => exact hproper h
  | again _ _ => trivial

/-- No chain of calls, each asked for by the one before, is endless. -/
theorem wellFounded_callees : WellFounded fun c c' : Call R => c ∈ callees c' :=
  Subrelation.wf descends_of_mem_callees
    (InvImage.wf Call.measure (WellFounded.prod_lex Nat.lt_wfRel.wf
      (WellFounded.prod_lex Nat.lt_wfRel.wf Nat.lt_wfRel.wf)))

/-! ## Every call is answered -/

/-- The answer that a call should have: the derivative of the expression of its task. -/
def Call.derivative (c : Call R) : Except DiffError (Expr R) := c.task.node.derivativeBy c.name

section Answers

variable {answer : Call R → Pending (Expr R)} {x : String}

omit [Scalar R] in
/-- A step behind an answer. -/
theorem answered_bind {α β : Type} (r : Except DiffError α) (f : α → Except DiffError β) :
    (answered r >>= fun a => answered (f a)) = answered (r >>= f) := by
  cases r <;> rfl

/-- Expressions are answered member by member. -/
theorem mapM_answered {es : List (Expr R)}
    (h : ∀ c ∈ es.map (fun e => (⟨x, .expression e⟩ : Call R)), answer c = answered c.derivative) :
    (es.mapM fun e => answer ⟨x, .expression e⟩) =
      answered (es.mapM (Expr.derivativeBy x)) := by
  induction es with
  | nil => rfl
  | cons e es ih =>
    have he := h ⟨x, .expression e⟩ List.mem_cons_self
    have hes := ih fun c hc => h c (List.mem_cons_of_mem _ hc)
    rw [List.mapM_cons, List.mapM_cons, he, hes]
    simp only [← answered_bind]
    rfl

omit [Scalar R] in
/-- The calls for two operands are the calls for each of them. -/
theorem mem_dependentCalls_pair {c : Call R} {u v : Expr R} :
    c ∈ dependentCalls x [u, v] ↔ c ∈ dependentCalls x [u] ∨ c ∈ dependentCalls x [v] := by
  simp only [dependentCalls, List.mem_map, List.mem_filter, List.mem_cons, List.not_mem_nil,
    or_false]
  grind

/-- An operand is taken with its derivative where the call for it is answered with it. -/
theorem askOperand_eq {u : Expr R}
    (h : ∀ c ∈ dependentCalls x [u], answer c = answered c.derivative) :
    askOperand answer x u = answered (u.operandBy x false) := by
  unfold askOperand
  cases hx : u.containsVar x with
  | false =>
    rw [Expr.operandBy_constant hx]
    rfl
  | true =>
    have hu := h ⟨x, .expression u⟩ (by simp [dependentCalls, hx])
    rw [Expr.operandBy_dependent hx, if_pos rfl, hu]
    change _ = answered ((u.derivativeBy x).map _)
    simp only [Call.derivative, Task.node]
    cases u.derivativeBy x <;> rfl

/-- The derivative of an expression is the answer of its call. -/
theorem expressionStep_eq {e : Expr R}
    (h : ∀ c ∈ expressionCalls x e, answer c = answered c.derivative) :
    expressionStep answer x e = answered (e.derivativeBy x) := by
  unfold expressionCalls at h
  unfold expressionStep
  split
  · rename_i hd
    rw [Expr.derivativeBy_of_hasDerivative_eq_false hd]
    rfl
  rename_i hd
  rw [if_neg hd] at h
  split
  · rename_i hx
    rw [Expr.derivativeBy_of_containsVar_eq_false (Bool.of_not_eq_false hd) hx]
    rfl
  rename_i hx
  rw [if_neg hx] at h
  replace hd := Bool.of_not_eq_false hd
  replace hx := Bool.of_not_eq_false hx
  cases e with
  | var y =>
    obtain rfl : y = x := beq_iff_eq.1 hx
    rw [Expr.derivativeBy_var]
    rfl
  | unary op u =>
    dsimp only at h ⊢
    split
    · rename_i hop
      subst hop
      rw [Expr.derivativeBy_unary hd hx, h ⟨x, .expression u⟩ (by simp)]
      exact answered_bind _ fun du => .ok (Expr.neg du)
    · rename_i hop
      exact h ⟨x, .function op u⟩ (by simp [hop])
  | binary op u v => exact h _ List.mem_cons_self
  | rational u v =>
    have hcall := h ⟨x, .operation .div u v⟩ List.mem_cons_self
    have hdiv : (Expr.div u v).derivativeBy x = Expr.binaryBy x .div u v :=
      Expr.derivativeBy_binary rfl hx
    rw [Expr.derivativeBy_rational hx]
    exact hcall.trans (congrArg answered hdiv)
  | aggregate op es =>
    cases op with
    | sum =>
      rw [Expr.derivativeBy_sum hx]
      dsimp only
      rw [mapM_answered h]
      cases es.mapM (Expr.derivativeBy x) <;> rfl
    | _ =>
      rw [Expr.derivativeBy_aggregate (by decide) hx]
      rfl
  | vector es =>
    rw [Expr.derivativeBy_vector hx]
    dsimp only
    rw [mapM_answered h]
    cases es.mapM (Expr.derivativeBy x) <;> rfl
  | matrix rows =>
    rw [Expr.derivativeBy_matrix hx]
    dsimp only
    rw [mapM_answered h]
    exact answered_bind _ fun ds => (Expr.matrixOf ds).mapError .shape
  | derivative u y =>
    rw [Expr.derivativeBy_derivative hx]
    dsimp only at h ⊢
    rw [h ⟨y, .expression u⟩ List.mem_cons_self]
    change answered (u.derivativeBy y) >>= _ = _
    cases hdu : u.derivativeBy y with
    | error z => rfl
    | ok du =>
      -- What is asked for next depends on this answer.
      rw [hdu] at h
      exact h ⟨x, .expression du⟩ (List.mem_cons_of_mem _ List.mem_cons_self)
  | simplify u =>
    rw [Expr.derivativeBy_simplify hx]
    exact h ⟨x, .expression u⟩ List.mem_cons_self
  | call f args =>
    rw [Expr.derivativeBy_call hx]
    rfl
  | number | truth | complex | quantity => cases hx
  | _ => cases hd

/-- The derivative of a function is the answer of its call. -/
theorem functionStep_eq {op : UnaryOp} {u : Expr R}
    (hd : hasDerivative (.unary op u) = true) (hx : (Expr.unary op u).containsVar x = true)
    (h : answer ⟨x, .expression u⟩ = answered (u.derivativeBy x)) :
    functionStep answer x op u = answered ((Expr.unary op u).derivativeBy x) := by
  rw [Expr.derivativeBy_unary hd hx, functionStep, h, ← answered_bind]
  refine bind_congr fun du => ?_
  cases chainRule? op u du <;> rfl

/-- Two operands are taken, the left one first, and the rule of the operation is applied to
them. -/
theorem binaryBy_leftFirst {op : BinaryOp} {u v : Expr R}
    (hop : operandOrder? op = some .leftFirst) :
    Expr.binaryBy x op u v = u.operandBy x false >>= fun a => v.operandBy x false >>= fun b =>
      .ok (binaryRule op a b) := by
  rw [Expr.binaryBy, hop]
  rfl

/-- The derivative of a power is the answer of its call. -/
theorem powerStep_eq {u v : Expr R} (hx : (Expr.pow u v).containsVar x = true)
    (h : ∀ c ∈ dependentCalls x [v, u], answer c = answered c.derivative) :
    powerStep answer x u v = answered ((Expr.pow u v).derivativeBy x) := by
  rw [Expr.derivativeBy_binary rfl hx, powerStep,
    askOperand_eq fun c hc => h c (mem_dependentCalls_pair.2 (.inl hc)),
    askOperand_eq fun c hc => h c (mem_dependentCalls_pair.2 (.inr hc))]
  change _ = answered (v.operandBy x false >>= fun b => u.operandBy x false >>= fun a =>
    .ok (powerRule a b))
  simp only [← answered_bind]
  rfl

/-- The derivative of an operation is the answer of its call. -/
theorem operationStep_eq {op : BinaryOp} {u v : Expr R}
    (hd : hasDerivative (.binary op u v) = true)
    (hx : (Expr.binary op u v).containsVar x = true)
    (h : ∀ c ∈ operationCalls x op u v, answer c = answered c.derivative) :
    operationStep answer x op u v = answered ((Expr.binary op u v).derivativeBy x) := by
  unfold operationCalls at h
  unfold operationStep
  cases op
  case add | sub | mul | div =>
    rw [Expr.derivativeBy_binary hd hx, binaryBy_leftFirst rfl]
    dsimp only
    rw [askOperand_eq fun c hc => h c (mem_dependentCalls_pair.2 (.inl hc)),
      askOperand_eq fun c hc => h c (mem_dependentCalls_pair.2 (.inr hc))]
    simp only [← answered_bind]
    rfl
  case pow => exact h _ List.mem_cons_self
  case root =>
    dsimp only at h ⊢
    cases hv : v.containsVar x with
    | true =>
      -- The power that is asked for has the derivative of the root.
      rw [hv, if_pos rfl] at h
      rw [Expr.derivativeBy_root hv, if_pos rfl]
      exact h _ List.mem_cons_self
    | false =>
      rw [hv, if_neg Bool.false_ne_true] at h
      rw [Expr.derivativeBy_binary hd hx, if_neg Bool.false_ne_true, askOperand_eq h]
      change _ = answered (v.operandBy x false >>= fun b => u.operandBy x false >>= fun a =>
        .ok (rootRule a b))
      rw [Expr.operandBy_constant hv]
      exact answered_bind _ fun a => .ok (rootRule a ⟨v, none⟩)
  case log =>
    dsimp only at h ⊢
    cases hu : u.containsVar x with
    | true =>
      -- The quotient that is asked for has the derivative of the logarithm.
      rw [hu, if_pos rfl] at h
      rw [Expr.derivativeBy_log hu, if_pos rfl]
      exact h _ List.mem_cons_self
    | false =>
      rw [hu, if_neg Bool.false_ne_true] at h
      rw [Expr.derivativeBy_binary hd hx, if_neg Bool.false_ne_true, askOperand_eq h]
      change _ = answered (v.operandBy x false >>= fun b => u.operandBy x false >>= fun a =>
        .ok (logRule a b))
      rw [Expr.operandBy_constant hu]
      exact answered_bind _ fun b => .ok (logRule ⟨u, none⟩ b)
  case dotProduct | crossProduct =>
    rw [Expr.derivativeBy_binary hd hx]
    dsimp only
    rw [h ⟨x, .expression u⟩ (by simp), h ⟨x, .expression v⟩ (by simp)]
    change answered (u.derivativeBy x) >>=
        (fun du => answered (v.derivativeBy x) >>= fun dv => _) =
      answered ((u.derivativeBy x).map _ >>= fun a => (v.derivativeBy x).map _ >>= fun b => _)
    cases u.derivativeBy x with
    | error y => rfl
    | ok du => cases v.derivativeBy x <;> rfl
  all_goals
    rw [Expr.derivativeBy_binary hd hx]
    rfl

/-- A step answers a call with its derivative, if the calls that it asks for are answered so. -/
theorem step_eq {c : Call R} (hp : c.Proper)
    (h : ∀ c' ∈ callees c, answer c' = answered c'.derivative) :
    step answer c = answered c.derivative := by
  obtain ⟨y, t⟩ := c
  cases t with
  | expression e => exact expressionStep_eq h
  | function op u => exact functionStep_eq hp.1 hp.2 (h _ List.mem_cons_self)
  | operation op u v => exact operationStep_eq hp.1 hp.2 h
  | power u v => exact powerStep_eq hp.2 h

end Answers

/-- Every proper call is answered with its derivative by every attempt with enough nested
calls. -/
theorem exists_attempt_eq {c : Call R} (hp : c.Proper) :
    ∃ n, ∀ m ≥ n, attempt m c = some c.derivative := by
  induction c using (wellFounded_callees (R := R)).induction with
  | _ c ih =>
  -- The calls asked for are finitely many, so one number of nested calls is enough for all.
  have hall : ∀ cs : List (Call R),
      (∀ c' ∈ cs, ∃ n, ∀ m ≥ n, attempt m c' = some c'.derivative) →
      ∃ n, ∀ m ≥ n, ∀ c' ∈ cs, attempt m c' = some c'.derivative := by
    intro cs
    induction cs with
    | nil => exact fun _ => ⟨0, fun _ _ _ h => nomatch h⟩
    | cons a cs ihcs =>
      intro hcs
      obtain ⟨n, hn⟩ := hcs a List.mem_cons_self
      obtain ⟨k, hk⟩ := ihcs fun c' hc' => hcs c' (List.mem_cons_of_mem _ hc')
      refine ⟨max n k, fun m hm c' hc' => ?_⟩
      rcases List.mem_cons.1 hc' with rfl | hc'
      · exact hn m (Nat.le_trans (Nat.le_max_left _ _) hm)
      · exact hk m (Nat.le_trans (Nat.le_max_right _ _) hm) c' hc'
  obtain ⟨n, hn⟩ := hall (callees c) fun c' hc' => ih c' hc'
    (proper_of_mem_callees hp hc')
  refine ⟨n + 1, fun m hm => ?_⟩
  obtain ⟨k, rfl⟩ : ∃ k, m = k + 1 := ⟨m - 1, by omega⟩
  exact step_eq hp fun c' hc' => hn k (by omega) c' hc'

/-- Differentiation ends on every expression. Every call asks for smaller calls only, those for
`1 / v`, `ln u` and `ln v` among them, so that no chain of calls is endless; a derivative is
nested no deeper than the expression, so that differentiating it once more descends; and the
recursion, which calls itself without a reason to end, answers for every expression and every
variable, with its derivative. -/
theorem differentiation_terminates :
    (∀ c c' : Call R, c ∈ callees c' → Expr.Descends c.measure c'.measure) ∧
    WellFounded (fun c c' : Call R => c ∈ callees c') ∧
    (∀ (x : String) (e d : Expr R), e.derivativeBy x = .ok d → d.nesting ≤ e.nesting) ∧
    ∀ (x : String) (e : Expr R),
      ∃ n, ∀ m ≥ n, attempt m ⟨x, .expression e⟩ = some (e.derivativeBy x) :=
  ⟨fun _ _ => descends_of_mem_callees, wellFounded_callees,
    fun _ _ _ => Expr.nesting_derivativeBy_le, fun _ _ => exists_attempt_eq (by trivial)⟩

/-- Twice the derivative of a square of rational numbers: the inner derivative is no operand of
the expression, the recursion still answers. -/
theorem differentiation_terminates_derivativeOfSquare :
    let square : Expr ℚ := .mul (.var "x") (.var "x")
    let d : Expr ℚ := .add (.mul .one .one) (.mul .one .one)
    Expr.Descends (Call.measure ⟨"x", .expression square⟩)
        (Call.measure ⟨"x", .expression (.derivative square "x")⟩) ∧
      (Expr.derivative square "x").derivativeBy "x" = .ok d ∧
      d.nesting ≤ (Expr.derivative square "x").nesting ∧
      ∃ n, ∀ m ≥ n, attempt m ⟨"x", .expression (.derivative square "x")⟩ = some (.ok d) := by
  intro square d
  have hx : (Expr.var "x" : Expr ℚ).operandBy "x" false = .ok ⟨.var "x", some .one⟩ := by
    rw [Expr.operandBy_dependent rfl, Expr.derivativeBy_var]
    rfl
  have hsquare : square.derivativeBy "x" =
      .ok (.add (.mul .one (.var "x")) (.mul (.var "x") .one)) := by
    rw [Expr.derivativeBy_binary rfl rfl, binaryBy_leftFirst rfl, hx]
    rfl
  have hone : (Expr.one : Expr ℚ).operandBy "x" false = .ok ⟨.one, none⟩ :=
    Expr.operandBy_constant rfl
  have hleft : (Expr.mul .one (.var "x") : Expr ℚ).operandBy "x" false =
      .ok ⟨.mul .one (.var "x"), some (.mul .one .one)⟩ := by
    rw [Expr.operandBy_dependent rfl, Expr.derivativeBy_binary rfl rfl, binaryBy_leftFirst rfl,
      hone, hx]
    rfl
  have hright : (Expr.mul (.var "x") .one : Expr ℚ).operandBy "x" false =
      .ok ⟨.mul (.var "x") .one, some (.mul .one .one)⟩ := by
    rw [Expr.operandBy_dependent rfl, Expr.derivativeBy_binary rfl rfl, binaryBy_leftFirst rfl,
      hx, hone]
    rfl
  have hd : (Expr.derivative square "x").derivativeBy "x" = .ok d := by
    rw [Expr.derivativeBy_eq]
    change square.derivativeBy "x" >>= Expr.derivativeBy "x" = _
    rw [hsquare]
    change Expr.derivativeBy "x" (.add (.mul .one (.var "x")) (.mul (.var "x") .one)) = _
    rw [Expr.derivativeBy_binary rfl rfl, binaryBy_leftFirst rfl, hleft, hright]
    rfl
  have hcallee : (⟨"x", .expression square⟩ : Call ℚ) ∈
      callees ⟨"x", .expression (.derivative square "x")⟩ := List.mem_cons_self
  obtain ⟨hdescends, -, hnesting, hterm⟩ := differentiation_terminates (R := ℚ)
  obtain ⟨n, hn⟩ := hterm "x" (.derivative square "x")
  exact ⟨hdescends _ _ hcallee, hd, hnesting "x" _ d hd, n, fun m hm => (hn m hm).trans (congrArg some hd)⟩

end Derivative

end SymbolicAlgebra
