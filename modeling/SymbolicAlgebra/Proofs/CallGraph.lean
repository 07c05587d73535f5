import Mathlib.Data.List.Chain
import Mathlib.Logic.Relation
import SymbolicAlgebra.FunctionTable
import SymbolicAlgebra.Proofs.SubstitutionRun

set_option autoImplicit false

/-!
# The graph of calls

A call is known by its name and its number of arguments. The functions of a table call each
other (`FunctionTable.Calls`): the body of one holds calls of others (`Expr.HasCall`), and
definitions hold none, since what stands on their left is a head. Putting arguments without calls
into a body neither adds nor takes away calls (`FunctionDef.hasCall_of_instantiate`), so the calls
of a body are the calls of everything that it is instantiated to. On the way into a cycle there are
chains of every length (`FunctionTable.exists_isCallChain_of_reachesCycle`).
-/

namespace SymbolicAlgebra

/-! ## The calls of an expression -/

namespace Expr

variable {R : Type} {k : String × Nat}

/-- Whether the node is a definition or the removal of one. -/
def isDefinition : Expr R → Bool
  | .define _ _ | .undefine _ => true
  | _ => false

/-- The name and the number of arguments of a call. -/
def callKey? : Expr R → Option (String × Nat)
  | .call f args => some (f, args.length)
  | _ => none

/-- The expression holds a call of this name and number of arguments, outside definitions. -/
inductive HasCall (k : String × Nat) : Expr R → Prop where
  /-- The node is the call. -/
  | here {e : Expr R} (h : e.callKey? = some k) : HasCall k e
  /-- A direct subexpression of a node that is no definition holds the call. -/
  | child {e c : Expr R} (hd : e.isDefinition = false) (hc : c ∈ e.children)
      (h : HasCall k c) : HasCall k e

/-- The calls of an expression, by its root. -/
theorem hasCall_iff {e : Expr R} :
    e.HasCall k ↔
      e.callKey? = some k ∨ e.isDefinition = false ∧ ∃ c ∈ e.children, c.HasCall k := by
  constructor
  · intro h
    cases h with
    | here h => exact .inl h
    | child hd hc h => exact .inr ⟨hd, _, hc, h⟩
  · rintro (h | ⟨hd, c, hc, h⟩)
    · exact .here h
    · exact .child hd hc h

@[simp] theorem hasCall_number (v : R) : ¬ (Expr.number v).HasCall k := by
  rw [hasCall_iff]
  simp [callKey?, children]

@[simp] theorem hasCall_var (x : String) : ¬ (Expr.var x : Expr R).HasCall k := by
  rw [hasCall_iff]
  simp [callKey?, children]

@[simp] theorem hasCall_vector {es : List (Expr R)} :
    (Expr.vector es).HasCall k ↔ ∃ e ∈ es, e.HasCall k := by
  rw [hasCall_iff]
  simp [callKey?, isDefinition, children]

@[simp] theorem hasCall_matrix {rows : List (Expr R)} :
    (Expr.matrix rows).HasCall k ↔ ∃ e ∈ rows, e.HasCall k := by
  rw [hasCall_iff]
  simp [callKey?, isDefinition, children]

/-- A call holds itself and the calls of its arguments. -/
@[simp] theorem hasCall_call {f : String} {args : List (Expr R)} :
    (Expr.call f args).HasCall k ↔ (f, args.length) = k ∨ ∃ a ∈ args, a.HasCall k := by
  rw [hasCall_iff]
  simp [callKey?, isDefinition, children]

/-- A node over as many subexpressions is a definition where it was one. -/
theorem isDefinition_withChildren (e : Expr R) (cs : List (Expr R)) :
    (e.withChildren cs).isDefinition = e.isDefinition := by
  unfold withChildren
  split <;> rfl

/-- A node over as many subexpressions is the same call. -/
theorem callKey?_withChildren {e : Expr R} {cs : List (Expr R)}
    (h : cs.length = e.children.length) : (e.withChildren cs).callKey? = e.callKey? := by
  unfold withChildren
  split <;> try rfl
  exact congrArg (fun n => some (_, n)) h

/-- A node over subexpressions with the same calls holds the same calls. -/
theorem hasCall_withChildren {e : Expr R} {cs : List (Expr R)}
    (h : List.Forall₂ (fun c c' => c'.HasCall k ↔ c.HasCall k) e.children cs) :
    (e.withChildren cs).HasCall k ↔ e.HasCall k := by
  have hlen : cs.length = e.children.length := h.length_eq.symm
  rw [hasCall_iff, hasCall_iff (e := e), callKey?_withChildren hlen, isDefinition_withChildren,
    children_withChildren e hlen, exists_mem_iff_of_forall₂ h]

/-- A substitution of expressions without a call keeps the calls. -/
theorem hasCall_of_substitute {σ : Bindings R} (hσ : ∀ x a, σ x = some a → ¬ a.HasCall k)
    {e s : Expr R} (h : e.substitute σ = .ok s) : s.HasCall k ↔ e.HasCall k := by
  refine substitute_rec (motive := fun e s => s.HasCall k ↔ e.HasCall k) ?free ?bound ?node h
  case free => exact fun x _ => Iff.rfl
  -- A variable holds no call, nor does what is put in its place.
  case bound => exact fun x a hx => iff_of_false (hσ x a hx) (hasCall_var x)
  case node => exact fun e cs _ _ hcs => hasCall_withChildren (hcs.imp fun _ _ hc => hc.2)

end Expr

/-- An expression that a list of pairs binds stands in the list. -/
theorem Bindings.exists_mem_of_ofPairs {R : Type} {ps : List (String × Expr R)} {x : String}
    {e : Expr R} (h : Bindings.ofPairs ps x = some e) : ∃ p ∈ ps, p.2 = e := by
  have hfold : ∀ (ps : List (String × Expr R)) (σ : Bindings R),
      ps.foldl (fun σ p => σ.insert p.1 p.2) σ x = some e →
        σ x = some e ∨ ∃ p ∈ ps, p.2 = e := by
    intro ps
    induction ps with
    | nil => exact fun σ h => .inl h
    | cons p ps ih =>
      intro σ h
      rcases ih _ h with h | ⟨q, hq, h⟩
      · dsimp only [Bindings.insert] at h
        split at h
        · exact .inr ⟨p, List.mem_cons_self, Option.some.inj h⟩
        · exact .inl h
      · exact .inr ⟨q, List.mem_cons_of_mem _ hq, h⟩
  rcases hfold ps .empty h with h | h
  · cases h
  · exact h

/-- A body with arguments without a call in place has the calls that it had. -/
theorem FunctionDef.hasCall_of_instantiate {R : Type} {k : String × Nat} {d : FunctionDef R}
    {actuals : List (Expr R)} {body : Expr R} (hactuals : ∀ a ∈ actuals, ¬ a.HasCall k)
    (h : d.instantiate actuals = .ok body) : body.HasCall k ↔ d.body.HasCall k := by
  refine Expr.hasCall_of_substitute (fun x a ha => ?_) h
  obtain ⟨p, hp, rfl⟩ := Bindings.exists_mem_of_ofPairs ha
  exact hactuals _ (List.of_mem_zip hp).2

/-! ## The graph of a table -/

namespace FunctionTable

variable {R : Type}

/-- The body of the first function calls the second. -/
def Calls (U : FunctionTable R) (k k' : String × Nat) : Prop :=
  ∃ d, U.find? k.1 k.2 = some d ∧ d.body.HasCall k'

/-- The calls of the expression lead to this one. -/
def Reaches (U : FunctionTable R) (e : Expr R) (k : String × Nat) : Prop :=
  ∃ k₀, e.HasCall k₀ ∧ Relation.ReflTransGen U.Calls k₀ k

/-- The calls of the expression lead to a function that leads back to itself. -/
def ReachesCycle (U : FunctionTable R) (e : Expr R) : Prop :=
  ∃ k, U.Reaches e k ∧ Relation.TransGen U.Calls k k

/-- A chain of calls: the expression holds the first, and the body of each holds the next. -/
def IsCallChain (U : FunctionTable R) (e : Expr R) (ks : List (String × Nat)) : Prop :=
  ks.IsChain U.Calls ∧ ∀ k ∈ ks.head?, e.HasCall k

variable {U : FunctionTable R} {e : Expr R} {k : String × Nat} {ks : List (String × Nat)}

/-- A chain with a first call. -/
theorem isCallChain_cons :
    U.IsCallChain e (k :: ks) ↔ e.HasCall k ∧ (k :: ks).IsChain U.Calls := by
  rw [IsCallChain, List.head?_cons, and_comm]
  simp

/-- The chains behind a call are the chains of the body of its function. -/
theorem isChain_cons_iff {d : FunctionDef R} (hd : U.find? k.1 k.2 = some d) :
    (k :: ks).IsChain U.Calls ↔ U.IsCallChain d.body ks := by
  rw [IsCallChain, List.isChain_cons, and_comm]
  refine and_congr_right fun _ => forall₂_congr fun k' _ => ?_
  constructor
  · rintro ⟨d', hd', hcall⟩
    rw [Option.some.inj (hd.symm.trans hd')]
    exact hcall
  · exact fun hcall => ⟨d, hd, hcall⟩

/-- The last call of a chain is reached. -/
theorem reaches_of_isCallChain (h : U.IsCallChain e (ks ++ [k])) : U.Reaches e k := by
  cases ks with
  | nil => exact ⟨k, (isCallChain_cons.1 h).1, .refl⟩
  | cons k₀ ks =>
    obtain ⟨hcall, hchain⟩ := isCallChain_cons.1 h
    exact ⟨k₀, hcall, List.relationReflTransGen_of_exists_isChain_cons _ hchain (by simp)⟩

/-- Behind a call that leads into a cycle there are chains of every length. -/
theorem exists_isChain_of_transGen {k k' : String × Nat}
    (h : Relation.ReflTransGen U.Calls k k') (hcycle : Relation.TransGen U.Calls k' k') (n : Nat) :
    ∃ ks, (k :: ks).IsChain U.Calls ∧ ks.length = n := by
  induction n generalizing k with
  | zero => exact ⟨[], .singleton k, rfl⟩
  | succ n ih =>
    -- Every call on the way, those on the cycle included, leads on to one on the way.
    obtain ⟨k₁, hk, hk₁⟩ := Relation.TransGen.head'_iff.1 (Relation.TransGen.trans_right h hcycle)
    obtain ⟨ks, hchain, rfl⟩ := ih hk₁
    exact ⟨k₁ :: ks, hchain.cons_cons hk, rfl⟩

/-- Where the calls of an expression lead to a cycle, there are chains of every length. -/
theorem exists_isCallChain_of_reachesCycle (h : U.ReachesCycle e) (n : Nat) :
    ∃ ks, U.IsCallChain e ks ∧ ks.length = n + 1 := by
  obtain ⟨k, ⟨k₀, hcall, hreach⟩, hcycle⟩ := h
  obtain ⟨ks, hchain, rfl⟩ := exists_isChain_of_transGen hreach hcycle n
  exact ⟨k₀ :: ks, isCallChain_cons.2 ⟨hcall, hchain⟩, rfl⟩

end FunctionTable

end SymbolicAlgebra
