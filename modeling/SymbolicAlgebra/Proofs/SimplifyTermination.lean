import SymbolicAlgebra.Proofs.ExactScalar
import SymbolicAlgebra.Proofs.SimplifyRun

set_option autoImplicit false

/-!
# Simplification ends

A run of simplification is described here without a bound on its length (`Simplifies`, which counts
the rules that it applies): the direct subexpressions are simplified, the node is rebuilt, and as
long as a rule applies its result is simplified in its turn. Nothing in the description keeps a run
from going on for ever, two rules undoing each other's work.

No run does. Every rule makes the weight of the node smaller, and what a subexpression loses
in weight, the node around it loses at least. So the number of rules that a run applies is
below the weight of the expression (`Simplifies.weight_bound`), whatever the scalars are: of these
nothing is used but that the opposite of a negative scalar is not negative. Every expression has a
run (`exists_simplifies`), and it ends with the simplified form (`Simplifies.eq_simplified`);
`simplification_terminates` states both.
-/

namespace SymbolicAlgebra.Expr

variable {R : Type} [Scalar R]

/-! ## Runs -/

mutual
/-- A run of simplification on an expression, with the number of rules that are applied in it
and what it ends with. -/
inductive Simplifies : Expr R → Nat → Except SimplifyError (Expr R) → Prop where
  /-- A direct subexpression cannot be simplified. -/
  | childFailure {e : Expr R} {n : Nat} {x : SimplifyError}
      (hc : SimplifiesAll e.children n (.error x)) : Simplifies e n (.error x)
  /-- The node cannot be rebuilt. -/
  | shapeFailure {e : Expr R} {n : Nat} {cs : List (Expr R)} {x : SimplifyError}
      (hc : SimplifiesAll e.children n (.ok cs)) (hn : e.rebuild SimplifyError.shape cs = .error x) :
      Simplifies e n (.error x)
  /-- A rule fails at the rebuilt node. -/
  | ruleFailure {e node : Expr R} {n : Nat} {cs : List (Expr R)} {x : SimplifyError}
      (hc : SimplifiesAll e.children n (.ok cs)) (hn : e.rebuild SimplifyError.shape cs = .ok node)
      (hr : Rule.reduce? node = .error x) : Simplifies e n (.error x)
  /-- No rule applies to the rebuilt node. -/
  | settled {e node : Expr R} {n : Nat} {cs : List (Expr R)}
      (hc : SimplifiesAll e.children n (.ok cs)) (hn : e.rebuild SimplifyError.shape cs = .ok node)
      (hr : Rule.reduce? node = .ok none) : Simplifies e n (.ok node)
  /-- A rule applies to the rebuilt node, and what it gives is simplified in its turn. -/
  | rewritten {e node next : Expr R} {n m : Nat} {cs : List (Expr R)}
      {r : Except SimplifyError (Expr R)} (hc : SimplifiesAll e.children n (.ok cs))
      (hn : e.rebuild SimplifyError.shape cs = .ok node) (hr : Rule.reduce? node = .ok (some next))
      (h : Simplifies next m r) : Simplifies e (n + 1 + m) r
/-- A run of simplification on the members of a list, from left to right. -/
inductive SimplifiesAll :
    List (Expr R) → Nat → Except SimplifyError (List (Expr R)) → Prop where
  /-- There are no members. -/
  | nil : SimplifiesAll [] 0 (.ok [])
  /-- The first member cannot be simplified. -/
  | headFailure {e : Expr R} {es : List (Expr R)} {n : Nat} {x : SimplifyError}
      (h : Simplifies e n (.error x)) : SimplifiesAll (e :: es) n (.error x)
  /-- A later member cannot be simplified. -/
  | tailFailure {e s : Expr R} {es : List (Expr R)} {n m : Nat} {x : SimplifyError}
      (h : Simplifies e n (.ok s)) (hs : SimplifiesAll es m (.error x)) :
      SimplifiesAll (e :: es) (n + m) (.error x)
  /-- All members are simplified. -/
  | cons {e s : Expr R} {es ss : List (Expr R)} {n m : Nat} (h : Simplifies e n (.ok s))
      (hs : SimplifiesAll es m (.ok ss)) : SimplifiesAll (e :: es) (n + m) (.ok (s :: ss))
end

/-! ## Every expression has a run -/

/-- The members of a list have a run where each of them has one. -/
theorem exists_simplifiesAll {es : List (Expr R)}
    (h : ∀ e ∈ es, ∃ n, Simplifies e n e.simplified) :
    ∃ n, SimplifiesAll es n (es.mapM simplified) := by
  induction es with
  | nil => exact ⟨0, .nil⟩
  | cons e es ih =>
    obtain ⟨n, hn⟩ := h e List.mem_cons_self
    obtain ⟨m, hm⟩ := ih fun c hc => h c (List.mem_cons_of_mem _ hc)
    rw [List.mapM_cons]
    cases hs : e.simplified with
    | error x =>
      rw [hs] at hn
      exact ⟨n, .headFailure hn⟩
    | ok s =>
      rw [hs] at hn
      cases hss : es.mapM simplified with
      | error x =>
        rw [hss] at hm
        exact ⟨n + m, .tailFailure hn hm⟩
      | ok ss =>
        rw [hss] at hm
        exact ⟨n + m, .cons hn hm⟩

/-- Every expression has a run, which ends with its simplified form or with the cause for
which there is none. -/
theorem exists_simplifies (e : Expr R) : ∃ n, Simplifies e n e.simplified := by
  induction e using simplified_induct with
  | step e ihc ihn =>
    obtain ⟨n, hn⟩ := exists_simplifiesAll ihc
    rw [simplified_eq, mapChildren]
    cases hcs : e.children.mapM simplified with
    | error x =>
      rw [hcs] at hn
      exact ⟨n, .childFailure hn⟩
    | ok cs =>
      rw [hcs] at hn
      change ∃ n, Simplifies e n (e.rebuild SimplifyError.shape cs >>= simplifyNext)
      cases hnode : e.rebuild SimplifyError.shape cs with
      | error x => exact ⟨n, .shapeFailure hn hnode⟩
      | ok node =>
        change ∃ n, Simplifies e n (simplifyNext node)
        unfold simplifyNext
        split
        · rename_i x hr
          exact ⟨n, .ruleFailure hn hnode hr⟩
        · rename_i hr
          exact ⟨n, .settled hn hnode hr⟩
        · rename_i next hr
          have hmap : e.mapChildren .shape simplified = .ok node :=
            mapChildren_eq_ok_iff.2 ⟨cs, mapM_eq_ok_iff.1 hcs, hnode⟩
          obtain ⟨m, hm⟩ := ihn node next hmap hr
          exact ⟨n + 1 + m, .rewritten hn hnode hr hm⟩

/-! ## What a run ends with -/

mutual
/-- A run ends with the simplified form or with the cause for which there is none. -/
theorem Simplifies.eq_simplified {e : Expr R} {n : Nat} {r : Except SimplifyError (Expr R)} :
    Simplifies e n r → r = e.simplified
  | .childFailure hc => by
    rw [simplified_eq, mapChildren, ← hc.eq_mapM]
    rfl
  | .shapeFailure hc hn => by
    rw [simplified_eq, mapChildren, ← hc.eq_mapM]
    exact (congrArg (· >>= simplifyNext) hn).symm
  | .ruleFailure hc hn hr => by
    rw [simplified_eq, mapChildren, ← hc.eq_mapM]
    refine Eq.trans ?_ (congrArg (· >>= simplifyNext) hn).symm
    simp only [bind, Except.bind, simplifyNext, hr]
  | .settled hc hn hr => by
    rw [simplified_eq, mapChildren, ← hc.eq_mapM]
    refine Eq.trans ?_ (congrArg (· >>= simplifyNext) hn).symm
    simp only [bind, Except.bind, simplifyNext, hr]
  | .rewritten hc hn hr h => by
    rw [simplified_eq, mapChildren, ← hc.eq_mapM, h.eq_simplified]
    refine Eq.trans ?_ (congrArg (· >>= simplifyNext) hn).symm
    simp only [bind, Except.bind, simplifyNext, hr]
/-- A run on a list simplifies its members in their order. -/
theorem SimplifiesAll.eq_mapM {es : List (Expr R)} {n : Nat}
    {r : Except SimplifyError (List (Expr R))} :
    SimplifiesAll es n r → r = es.mapM simplified
  | .nil => rfl
  | .headFailure h => by
    rw [List.mapM_cons, ← h.eq_simplified]
    rfl
  | .tailFailure h hs => by
    rw [List.mapM_cons, ← h.eq_simplified, ← hs.eq_mapM]
    rfl
  | .cons h hs => by
    rw [List.mapM_cons, ← h.eq_simplified, ← hs.eq_mapM]
    rfl
end

/-! ## How many rules a run applies -/

/-- What the direct subexpressions lose in weight, the rebuilt node loses at least. -/
theorem add_weight_le_of_rebuild {e node : Expr R} {n : Nat} {cs : List (Expr R)}
    (hc : NotHeavier cs e.children ∧ n + weightList cs ≤ weightList e.children)
    (hn : e.rebuild SimplifyError.shape cs = .ok node) : n + node.weight ≤ e.weight := by
  have hnode := weight_withChildren_add_le hc.1
  rw [← eq_withChildren_of_rebuild hn] at hnode
  omega

mutual
/-- Every rule that a run applies takes some weight away. So a run applies fewer rules than
the expression weighs, also where it fails in the end. -/
theorem Simplifies.weight_bound {e : Expr R} {n : Nat} {r : Except SimplifyError (Expr R)} :
    Simplifies e n r → n < e.weight ∧ ∀ s, r = .ok s → n + s.weight ≤ e.weight
  | .childFailure hc =>
    ⟨Nat.lt_of_le_of_lt hc.weight_bound.1 (weightList_children_lt e), nofun⟩
  | .shapeFailure hc _ =>
    ⟨Nat.lt_of_le_of_lt hc.weight_bound.1 (weightList_children_lt e), nofun⟩
  | .ruleFailure hc _ _ =>
    ⟨Nat.lt_of_le_of_lt hc.weight_bound.1 (weightList_children_lt e), nofun⟩
  | .settled hc hn _ => by
    refine ⟨Nat.lt_of_le_of_lt hc.weight_bound.1 (weightList_children_lt e), fun s hs => ?_⟩
    rw [← Except.ok.inj hs]
    exact add_weight_le_of_rebuild (hc.weight_bound.2 _ rfl) hn
  | .rewritten hc hn hr h => by
    have hnode := add_weight_le_of_rebuild (hc.weight_bound.2 _ rfl) hn
    have hrule := Rule.weight_reduce?_lt hr
    obtain ⟨hlt, hle⟩ := h.weight_bound
    refine ⟨by omega, fun s hs => ?_⟩
    have hnext := hle s hs
    omega
/-- The rules that a run applies to the members of a list take weight away from these. -/
theorem SimplifiesAll.weight_bound {es : List (Expr R)} {n : Nat}
    {r : Except SimplifyError (List (Expr R))} :
    SimplifiesAll es n r → n ≤ weightList es ∧
      ∀ ss, r = .ok ss → NotHeavier ss es ∧ n + weightList ss ≤ weightList es
  | .nil => ⟨Nat.le_refl _, fun ss hss => Except.ok.inj hss ▸ ⟨trivial, Nat.le_refl _⟩⟩
  | .headFailure h => by
    have hhead := h.weight_bound.1
    refine ⟨?_, nofun⟩
    simp only [weightList]
    omega
  | .tailFailure h hs => by
    have hhead := h.weight_bound.1
    have htail := hs.weight_bound.1
    refine ⟨?_, nofun⟩
    simp only [weightList]
    omega
  | .cons h hs => by
    have hhead := h.weight_bound.2 _ rfl
    obtain ⟨htail, hle⟩ := hs.weight_bound.2 _ rfl
    refine ⟨?_, fun ss hss => ?_⟩
    · simp only [weightList]
      omega
    · rw [← Except.ok.inj hss]
      refine ⟨⟨by omega, htail⟩, ?_⟩
      simp only [weightList]
      omega
end

/-- Simplification ends on every expression. A rule that applies to a node gives something
lighter, and a run that goes on as long as rules apply ends, after fewer rules than the
expression weighs, with the simplified form or with the cause for which there is none. -/
theorem simplification_terminates :
    (∀ node next : Expr R, Rule.reduce? node = .ok (some next) → next.weight < node.weight) ∧
      ∀ e : Expr R, (∃ n r, Simplifies e n r) ∧
        ∀ n r, Simplifies e n r → n < e.weight ∧ r = e.simplified := by
  refine ⟨fun node next hr => Rule.weight_reduce?_lt hr, fun e => ⟨?_, ?_⟩⟩
  · obtain ⟨n, hn⟩ := exists_simplifies e
    exact ⟨n, _, hn⟩
  · intro n r h
    exact ⟨h.weight_bound.1, h.eq_simplified⟩

/-- The sum `x + v` with a negative literal `v` becomes the difference `x - -v` by one rule, to
which no further rule applies. -/
theorem simplification_terminates_negativeLiteral :
    let v : ℚ := -3
    let node : Expr ℚ := .add (.var "x") (.number v)
    let next : Expr ℚ := .sub (.var "x") (.number (-v))
    (Rule.reduce? node = .ok (some next) ∧ next.weight < node.weight) ∧
      Simplifies node 1 (.ok next) ∧ 1 < node.weight ∧ .ok next = node.simplified := by
  intro v node next
  have hrule : Rule.reduce? node = .ok (some next) := rfl
  have hnone : Rule.reduce? next = .ok none := rfl
  have hx : Simplifies (.var "x" : Expr ℚ) 0 (.ok (.var "x")) := .settled .nil rfl rfl
  have hv : ∀ w : ℚ, Simplifies (.number w) 0 (.ok (.number w)) := fun w =>
    .settled .nil rfl rfl
  have hnext : Simplifies next 0 (.ok next) :=
    .settled (e := next) (.cons hx (.cons (hv (-v)) .nil)) rfl hnone
  have hrun : Simplifies node 1 (.ok next) :=
    .rewritten (e := node) (.cons hx (.cons (hv v) .nil)) rfl hrule hnext
  obtain ⟨hdecrease, hruns⟩ := simplification_terminates (R := ℚ)
  obtain ⟨hlt, heq⟩ := (hruns node).2 1 (.ok next) hrun
  exact ⟨⟨hrule, hdecrease node next hrule⟩, hrun, hlt, heq⟩

end SymbolicAlgebra.Expr
