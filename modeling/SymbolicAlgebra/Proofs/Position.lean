import SymbolicAlgebra.Proofs.SimplifyRun

set_option autoImplicit false

/-!
# Positions in an expression

A position is the list of the places to go through, from the root, each counted among the
direct subexpressions. `Expr.subexprAt?` reads the subexpression at a position, `Expr.replaceAt`
puts another one there, and `Expr.withChild` does so for one step of a position. What stands at
some position of an expression is the expression or stands in a direct subexpression
(`Expr.contains_iff`). A traversal of a node does not see the difference between a direct
subexpression and one with the same image (`mapChildren_replaceChild`).
-/

namespace SymbolicAlgebra.Expr

variable {R : Type}

/-! ## Reading and replacing -/

/-- The subexpression at a position, if the expression has that position. -/
def subexprAt? (t : Expr R) : List Nat → Option (Expr R)
  | [] => some t
  | i :: p => t.children[i]?.bind fun c => c.subexprAt? p

/-- The expression with `new` at a position; a position that the expression does not have
leaves it as it is. -/
def replaceAt (t : Expr R) (p : List Nat) (new : Expr R) : Expr R :=
  match p with
  | [] => new
  | i :: p => t.withChildren (t.children.modify i fun c => c.replaceAt p new)

@[simp] theorem subexprAt?_nil (t : Expr R) : t.subexprAt? [] = some t := rfl

@[simp] theorem replaceAt_nil (t new : Expr R) : t.replaceAt [] new = new := rfl

/-- A position below the root goes through a direct subexpression. -/
theorem subexprAt?_cons_eq_some_iff {t e : Expr R} {i : Nat} {p : List Nat} :
    t.subexprAt? (i :: p) = some e ↔
      ∃ c, t.children[i]? = some c ∧ c.subexprAt? p = some e := by
  rw [subexprAt?, Option.bind_eq_some_iff]

/-- The node with another direct subexpression at one place. -/
def withChild (t : Expr R) (i : Nat) (c : Expr R) : Expr R :=
  t.withChildren (t.children.set i c)

/-- Replacing below the root replaces within one direct subexpression. -/
theorem replaceAt_cons {t c : Expr R} {i : Nat} (hc : t.children[i]? = some c) (p : List Nat)
    (new : Expr R) : t.replaceAt (i :: p) new = t.withChild i (c.replaceAt p new) := by
  have : Inhabited (Expr R) := ⟨c⟩
  rw [replaceAt, List.modify_eq_set, hc, Option.getD_some, withChild]

/-! ## Parts of an expression -/

/-- The expression has `c` at some position. -/
def Contains (e c : Expr R) : Prop := ∃ p, e.subexprAt? p = some c

theorem Contains.refl (e : Expr R) : e.Contains e := ⟨[], rfl⟩

/-- What stands in a direct subexpression stands in the expression. -/
theorem Contains.of_mem {e c d : Expr R} (h : c.Contains d) (hc : c ∈ e.children) :
    e.Contains d := by
  obtain ⟨p, hp⟩ := h
  obtain ⟨i, hi⟩ := List.mem_iff_getElem?.1 hc
  exact ⟨i :: p, subexprAt?_cons_eq_some_iff.2 ⟨c, hi, hp⟩⟩

/-- What stands in an expression is the expression or stands in a direct subexpression. -/
theorem contains_iff {e c : Expr R} : e.Contains c ↔ c = e ∨ ∃ d ∈ e.children, d.Contains c := by
  constructor
  · rintro ⟨p, hp⟩
    cases p with
    | nil => exact .inl (Option.some.inj hp).symm
    | cons i p =>
      obtain ⟨d, hd, hp⟩ := subexprAt?_cons_eq_some_iff.1 hp
      exact .inr ⟨d, List.mem_of_getElem? hd, p, hp⟩
  · rintro (rfl | ⟨d, hd, h⟩)
    · exact .refl c
    · exact h.of_mem hd

/-- In a variable or a literal stands nothing else. -/
theorem Contains.eq_of_leaf {e c : Expr R} (h : e.Contains c) (he : e.children = []) : c = e := by
  rcases contains_iff.1 h with h | ⟨d, hd, -⟩
  · exact h
  · rw [he] at hd
    cases hd

theorem contains_binary_iff {op : BinaryOp} {l r c : Expr R} :
    (Expr.binary op l r).Contains c ↔ c = .binary op l r ∨ l.Contains c ∨ r.Contains c := by
  rw [contains_iff, children, List.exists_mem_cons_iff, List.exists_mem_cons_iff]
  simp only [List.not_mem_nil, false_and, exists_false, or_false]

theorem Contains.left {op : BinaryOp} {l r c : Expr R} (h : l.Contains c) :
    (Expr.binary op l r).Contains c :=
  contains_binary_iff.2 (.inr (.inl h))

theorem Contains.right {op : BinaryOp} {l r c : Expr R} (h : r.Contains c) :
    (Expr.binary op l r).Contains c :=
  contains_binary_iff.2 (.inr (.inr h))

/-! ## Traversals after a replacement -/

/-- A traversal of a list does not see a changed member whose image stays. -/
theorem mapM_modify {ε α β : Type} {f : α → Except ε β} {g : α → α} {as : List α} {i : Nat}
    (h : ∀ a, as[i]? = some a → f (g a) = f a) : (as.modify i g).mapM f = as.mapM f := by
  induction as generalizing i with
  | nil => rw [List.modify_nil]
  | cons a as ih =>
    cases i with
    | zero =>
      rw [List.modify_zero_cons, List.mapM_cons, List.mapM_cons, h a rfl]
    | succ i =>
      rw [List.modify_succ_cons, List.mapM_cons, List.mapM_cons]
      rw [ih fun b hb => h b hb]

/-- Other direct subexpressions do not make a node a matrix or stop it from being one. -/
@[simp] theorem isMatrix_withChildren (e : Expr R) (cs : List (Expr R)) :
    (e.withChildren cs).isMatrix = e.isMatrix := by
  unfold withChildren
  split <;> rfl

/-- Of two replacements of all direct subexpressions the second one counts. -/
theorem withChildren_withChildren {e : Expr R} {cs ds : List (Expr R)}
    (hc : cs.length = e.children.length) (hd : ds.length = e.children.length) :
    (e.withChildren cs).withChildren ds = e.withChildren ds := by
  cases e
  case unary | undefine | increment | decrement | simplify | derivative =>
    obtain ⟨c, rfl⟩ := List.length_eq_one_iff.1 hc
    obtain ⟨d, rfl⟩ := List.length_eq_one_iff.1 hd
    rfl
  case rational | binary | define | update | ifThen | whileLoop =>
    obtain ⟨c, c', rfl⟩ := List.length_eq_two.1 hc
    obtain ⟨d, d', rfl⟩ := List.length_eq_two.1 hd
    rfl
  case ifThenElse =>
    obtain ⟨c, c', c'', rfl⟩ := List.length_eq_three.1 hc
    obtain ⟨d, d', d'', rfl⟩ := List.length_eq_three.1 hd
    rfl
  case forLoop =>
    match cs, ds, hc, hd with
    | [_, _, _, _], [_, _, _, _], _, _ => rfl
  case aggregate | vector | matrix | call => rfl
  all_goals
    obtain rfl := List.eq_nil_of_length_eq_zero hc
    rfl

/-- A node is rebuilt in the same way after its direct subexpressions were replaced. -/
theorem rebuild_withChildren {ε : Type} {ofShape : ShapeError → ε} {e : Expr R}
    {cs ds : List (Expr R)} (hc : cs.length = e.children.length)
    (hd : ds.length = e.children.length) :
    (e.withChildren cs).rebuild ofShape ds = e.rebuild ofShape ds := by
  rw [rebuild, rebuild, isMatrix_withChildren, withChildren_withChildren hc hd]

/-- A traversal of a node does not see the difference between a direct subexpression and
one with the same image. -/
theorem mapChildren_replaceChild {ε : Type} {ofShape : ShapeError → ε}
    {f : Expr R → Except ε (Expr R)} {g : Expr R → Expr R} {e : Expr R} {i : Nat}
    (h : ∀ c, e.children[i]? = some c → f (g c) = f c) :
    (e.withChildren (e.children.modify i g)).mapChildren ofShape f =
      e.mapChildren ofShape f := by
  have hlen : (e.children.modify i g).length = e.children.length :=
    List.length_modify ..
  rw [mapChildren, mapChildren, children_withChildren e hlen, mapM_modify h]
  cases hm : e.children.mapM f with
  | error x => rfl
  | ok cs =>
    have hcs : cs.length = e.children.length := (mapM_eq_ok_iff.1 hm).length_eq.symm
    exact rebuild_withChildren hlen hcs

end SymbolicAlgebra.Expr
