import SymbolicAlgebra.Proofs.CallGraph
import SymbolicAlgebra.Proofs.DerivativeRun
import SymbolicAlgebra.Proofs.ExactScalar

set_option autoImplicit false

/-!
# When calls can be expanded

Expansion goes through an expression, through the arguments of its calls, and through the
bodies with the expanded arguments in place, one body less for each body that it enters.
Whether it succeeds is a question about the graph of calls. How deep calls are nested in
arguments does not matter; what counts is how many bodies are entered one inside the other,
and that is the length of a chain of calls (`expandCalls_complete`).

Apart from the graph, two checks of shapes can fail: the body of a function may hold a matrix
that does not fit with the arguments in place, and a matrix may hold calls whose expansions do
not fit as its rows. Why a run stops is said of the expressions that it comes upon
(`ExpansionVisits`, `exists_stopsAt`), and it succeeds exactly where it stops at none of them
(`exists_expandCalls_eq_ok_iff`). What has been expanded holds no call and is left alone
(`hasCall_of_expandCalls`, `expandCalls_of_expandCalls`).
-/

namespace SymbolicAlgebra.Expr

variable {R : Type} [Scalar R] {U : FunctionTable R}

/-! ## The run -/

omit [Scalar R] in
/-- A node that is neither a call nor a definition. -/
theorem isCallOrDefinition_eq_false_iff {e : Expr R} :
    e.isCallOrDefinition = false ↔ e.callKey? = none ∧ e.isDefinition = false := by
  cases e <;> simp [isCallOrDefinition, callKey?, isDefinition]

omit [Scalar R] in
/-- Induction along the run of expansion: over the direct subexpressions, and over any body
that a call may enter. -/
theorem expandCalls_induct {motive : Nat → Expr R → Prop}
    (call : ∀ left f args, (∀ a ∈ args, motive left a) →
      (∀ n, left = n + 1 → ∀ body, motive n body) → motive left (.call f args))
    (definition : ∀ left e, e.isDefinition = true → motive left e)
    (node : ∀ left e, e.isCallOrDefinition = false → (∀ c ∈ e.children, motive left c) →
      motive left e) (left : Nat) (e : Expr R) : motive left e := by
  -- By the number of bodies that may be entered, then over the expression.
  induction left using Nat.strong_induction_on generalizing e with
  | _ left ihleft =>
    induction e using Expr.induction with
    | step e ih =>
      cases hkind : e.isCallOrDefinition with
      | false => exact node left e hkind ih
      | true =>
        cases e <;> simp only [isCallOrDefinition, Bool.false_eq_true] at hkind
        case call f args =>
          exact call left f args ih fun n hn body => ihleft n (by omega) body
        case define t v => exact definition left _ rfl
        case undefine t => exact definition left _ rfl

/-- Definitions stay as they are. -/
theorem expandCalls_definition {left : Nat} {e : Expr R} (h : e.isDefinition = true) :
    e.expandCalls U left = .ok e := by
  cases e <;> simp only [isDefinition, Bool.false_eq_true] at h <;> rw [expandCalls]

/-- A call expands where a body may be entered, the function is in the table, the arguments
expand, and so does the body with the expanded arguments in place. -/
theorem expandCalls_call_eq_ok_iff {left : Nat} {f : String} {args : List (Expr R)}
    {r : Expr R} :
    (Expr.call f args).expandCalls U left = .ok r ↔
      ∃ n d actuals body, left = n + 1 ∧ U.find? f args.length = some d ∧
        args.mapM (expandCalls U (n + 1)) = .ok actuals ∧
        d.instantiate actuals = .ok body ∧ body.expandCalls U n = .ok r := by
  cases left with
  | zero =>
    rw [expandCalls]
    simp
  | succ n =>
    rw [expandCalls_call]
    cases hd : U.find? f args.length with
    | none => simp
    | some d =>
      constructor
      · intro h
        obtain ⟨actuals, hactuals, h⟩ := bind_eq_ok_iff.1 h
        obtain ⟨body, hbody, h⟩ := bind_eq_ok_iff.1 h
        exact ⟨n, d, actuals, body, rfl, rfl, hactuals, mapError_eq_ok_iff.1 hbody, h⟩
      · rintro ⟨n', d', actuals, body, hn, hd', hactuals, hbody, h⟩
        obtain rfl := Nat.succ.inj hn
        obtain rfl := Option.some.inj hd'
        exact bind_eq_ok_iff.2
          ⟨actuals, hactuals, bind_eq_ok_iff.2 ⟨body, mapError_eq_ok_iff.2 hbody, h⟩⟩

/-! ## What has been expanded -/

/-- An expanded expression holds no call. -/
theorem hasCall_of_expandCalls {left : Nat} {e r : Expr R} {k : String × Nat}
    (h : e.expandCalls U left = .ok r) : ¬ r.HasCall k := by
  induction left, e using expandCalls_induct generalizing r with
  | call left f args _ ihbody =>
    obtain ⟨n, d, actuals, body, hn, -, -, -, h⟩ := expandCalls_call_eq_ok_iff.1 h
    exact ihbody n hn body h
  | definition left e hd =>
    rw [expandCalls_definition hd] at h
    rw [← Except.ok.inj h, hasCall_iff, hd]
    cases e <;> simp [isDefinition, callKey?] at hd ⊢
  | node left e hkind ih =>
    rw [expandCalls_eq_mapChildren hkind] at h
    obtain ⟨cs, hcs, hn⟩ := bind_eq_ok_iff.1 h
    obtain ⟨hkey, -⟩ := isCallOrDefinition_eq_false_iff.1 hkind
    have hlen : cs.length = e.children.length := (mapM_eq_ok_iff.1 hcs).length_eq.symm
    rw [eq_withChildren_of_rebuild hn, hasCall_iff, callKey?_withChildren hlen, hkey,
      children_withChildren e hlen]
    rintro (hk | ⟨-, c', hc', hcall⟩)
    · cases hk
    · obtain ⟨c, hc, hexpand⟩ := exists_mem_of_mapM_eq_ok hcs hc'
      exact ih c hc hexpand hcall

/-- A body with expanded arguments in place has the calls of the function, because the
arguments bring none with them. -/
theorem hasCall_body_iff {n : Nat} {args actuals : List (Expr R)} {d : FunctionDef R}
    {body : Expr R} {k : String × Nat} (hactuals : args.mapM (expandCalls U n) = .ok actuals)
    (hbody : d.instantiate actuals = .ok body) : body.HasCall k ↔ d.body.HasCall k := by
  refine FunctionDef.hasCall_of_instantiate (fun a' ha' => ?_) hbody
  obtain ⟨a, -, hexpand⟩ := exists_mem_of_mapM_eq_ok hactuals ha'
  exact hasCall_of_expandCalls hexpand

/-- What has been expanded is left alone by any expansion. -/
theorem expandCalls_of_expandCalls {left : Nat} {e r : Expr R} (h : e.expandCalls U left = .ok r)
    (U' : FunctionTable R) (left' : Nat) : r.expandCalls U' left' = .ok r := by
  induction left, e using expandCalls_induct generalizing r with
  | call left f args _ ihbody =>
    obtain ⟨n, d, actuals, body, hn, -, -, -, h⟩ := expandCalls_call_eq_ok_iff.1 h
    exact ihbody n hn body h
  | definition left e hd =>
    rw [expandCalls_definition hd] at h
    rw [← Except.ok.inj h]
    exact expandCalls_definition hd
  | node left e hkind ih =>
    rw [expandCalls_eq_mapChildren hkind] at h
    obtain ⟨cs, hcs, hn⟩ := bind_eq_ok_iff.1 h
    have hlen : cs.length = e.children.length := (mapM_eq_ok_iff.1 hcs).length_eq.symm
    have hr := eq_withChildren_of_rebuild hn
    have hkind' : r.isCallOrDefinition = false := by
      rw [isCallOrDefinition_eq_false_iff] at hkind ⊢
      rwa [hr, callKey?_withChildren hlen, isDefinition_withChildren]
    rw [expandCalls_eq_mapChildren hkind']
    refine mapChildren_eq_ok_iff.2 ⟨cs, ?_, ?_⟩
    · rw [hr, children_withChildren e hlen]
      refine List.forall₂_same.2 fun c' hc' => ?_
      obtain ⟨c, hc, hexpand⟩ := exists_mem_of_mapM_eq_ok hcs hc'
      exact ih c hc hexpand
    · -- The rows of a matrix have been checked already.
      rw [← hn]
      exact (congrArg (fun e => e.rebuild DiffError.shape cs) hr).trans
        (rebuild_withChildren hlen hlen)

/-! ## The chains of calls below an expression -/

/-- Where expansion succeeds, every chain of calls has at most as many calls as bodies may be
entered, and all its functions are in the table. -/
theorem chain_of_expandCalls {left : Nat} {e r : Expr R} {k : String × Nat}
    {ks : List (String × Nat)} (h : e.expandCalls U left = .ok r) (hk : e.HasCall k)
    (hchain : (k :: ks).IsChain U.Calls) :
    ks.length < left ∧ ∀ k' ∈ k :: ks, ∃ d, U.find? k'.1 k'.2 = some d := by
  induction left, e using expandCalls_induct generalizing r k ks with
  | call left f args iharg ihbody =>
    obtain ⟨n, d, actuals, body, rfl, hd, hactuals, hbody, h⟩ := expandCalls_call_eq_ok_iff.1 h
    rcases hasCall_call.1 hk with rfl | ⟨a, ha, hk⟩
    · have hrest := (FunctionTable.isChain_cons_iff hd).1 hchain
      cases ks with
      | nil =>
        refine ⟨Nat.zero_lt_succ n, fun k' hk' => ?_⟩
        rw [List.mem_singleton.1 hk']
        exact ⟨d, hd⟩
      | cons k₁ ks =>
        obtain ⟨hk₁, hchain₁⟩ := FunctionTable.isCallChain_cons.1 hrest
        obtain ⟨hlt, hall⟩ :=
          ihbody n rfl body h ((hasCall_body_iff hactuals hbody).2 hk₁) hchain₁
        refine ⟨Nat.succ_lt_succ hlt, fun k' hk' => ?_⟩
        rcases List.mem_cons.1 hk' with rfl | hk'
        · exact ⟨d, hd⟩
        · exact hall k' hk'
    · obtain ⟨a', hexpand⟩ := exists_eq_ok_of_mapM_eq_ok hactuals ha
      exact iharg a ha hexpand hk hchain
  | definition left e hd =>
    rw [hasCall_iff, hd] at hk
    cases e <;> simp [isDefinition, callKey?] at hd hk
  | node left e hkind ih =>
    rw [expandCalls_eq_mapChildren hkind] at h
    obtain ⟨cs, hcs, -⟩ := bind_eq_ok_iff.1 h
    rw [hasCall_iff, (isCallOrDefinition_eq_false_iff.1 hkind).1] at hk
    rcases hk with hk | ⟨-, c, hc, hk⟩
    · cases hk
    · obtain ⟨c', hexpand⟩ := exists_eq_ok_of_mapM_eq_ok hcs hc
      exact ih c hc hexpand hk hchain

/-! ## What a run comes upon, and why it fails -/

/-- Expanding an expression comes upon another, with a number of bodies that may still be
entered. -/
inductive ExpansionVisits (U : FunctionTable R) : Nat → Expr R → Nat → Expr R → Prop where
  /-- The run starts at the expression itself. -/
  | root {left : Nat} {e : Expr R} : ExpansionVisits U left e left e
  /-- It goes on to the direct subexpressions, the arguments of a call among them. -/
  | child {left left' : Nat} {e c e' : Expr R} (hd : e.isDefinition = false)
      (hc : c ∈ e.children) (h : ExpansionVisits U left c left' e') :
      ExpansionVisits U left e left' e'
  /-- Behind a call it goes on to the body with the expanded arguments in place. -/
  | body {n left' : Nat} {f : String} {args actuals : List (Expr R)} {d : FunctionDef R}
      {body e' : Expr R} (hd : U.find? f args.length = some d)
      (hactuals : args.mapM (expandCalls U (n + 1)) = .ok actuals)
      (hbody : d.instantiate actuals = .ok body) (h : ExpansionVisits U n body left' e') :
      ExpansionVisits U (n + 1) (.call f args) left' e'

/-- Why expansion stops at a node, all of whose direct subexpressions expand. -/
inductive StopsAt (U : FunctionTable R) : Nat → Expr R → DiffError → Prop where
  /-- No further body may be entered. -/
  | depth {f : String} {args : List (Expr R)} :
      StopsAt U 0 (.call f args) (.notDifferentiable (Expr.call f args).text)
  /-- The function is not in the table. -/
  | unbound {n : Nat} {f : String} {args : List (Expr R)}
      (hd : U.find? f args.length = none) :
      StopsAt U (n + 1) (.call f args) (.unboundFunction f args.length)
  /-- A matrix of the body does not fit with the arguments in place. -/
  | instantiation {n : Nat} {f : String} {args actuals : List (Expr R)} {d : FunctionDef R}
      {s : ShapeError} (hd : U.find? f args.length = some d)
      (hactuals : args.mapM (expandCalls U (n + 1)) = .ok actuals)
      (hs : d.instantiate actuals = .error s) : StopsAt U (n + 1) (.call f args) (.shape s)
  /-- The expanded rows of a matrix do not fit. -/
  | rebuilding {left : Nat} {rows rows' : List (Expr R)} {s : ShapeError}
      (hrows : rows.mapM (expandCalls U left) = .ok rows') (hs : matrixOf rows' = .error s) :
      StopsAt U left (.matrix rows) (.shape s)

/-- Expansion fails at a node where it stops. -/
theorem StopsAt.expandCalls_eq {left : Nat} {e : Expr R} {x : DiffError} (h : StopsAt U left e x) :
    e.expandCalls U left = .error x := by
  cases h with
  | depth => rw [expandCalls]
  | unbound hd => rw [expandCalls_call, hd]
  | instantiation hd hactuals hs =>
    rw [expandCalls_call, hd]
    dsimp only
    rw [hactuals]
    change (FunctionDef.instantiate _ _).mapError DiffError.shape >>= _ = _
    rw [hs]
    rfl
  | @rebuilding left rows rows' s hrows hs =>
    rw [expandCalls_eq_mapChildren rfl]
    change rows.mapM _ >>= _ = _
    rw [hrows]
    change (matrixOf _).mapError DiffError.shape = _
    rw [hs]
    rfl

/-- The expansion of a call stops there, fails at an argument, or fails in the body. -/
theorem call_stopsAt_or {left : Nat} {f : String} {args : List (Expr R)} {x : DiffError}
    (h : (Expr.call f args).expandCalls U left = .error x) :
    StopsAt U left (.call f args) x ∨ (∃ a ∈ args, a.expandCalls U left = .error x) ∨
      ∃ n d actuals body, left = n + 1 ∧ U.find? f args.length = some d ∧
        args.mapM (expandCalls U (n + 1)) = .ok actuals ∧
        d.instantiate actuals = .ok body ∧ body.expandCalls U n = .error x := by
  cases left with
  | zero =>
    rw [expandCalls] at h
    cases h
    exact .inl .depth
  | succ n =>
    rw [expandCalls_call] at h
    cases hd : U.find? f args.length with
    | none =>
      rw [hd] at h
      cases h
      exact .inl (.unbound hd)
    | some d =>
      rw [hd] at h
      dsimp only at h
      cases hactuals : args.mapM (expandCalls U (n + 1)) with
      | error y =>
        rw [hactuals] at h
        cases h
        exact .inr (.inl (exists_mem_of_mapM_eq_error hactuals))
      | ok actuals =>
        rw [hactuals] at h
        change (d.instantiate actuals).mapError DiffError.shape >>= _ = _ at h
        cases hbody : d.instantiate actuals with
        | error s =>
          rw [hbody] at h
          cases h
          exact .inl (.instantiation hd hactuals hbody)
        | ok body =>
          rw [hbody] at h
          exact .inr (.inr ⟨n, d, actuals, body, rfl, rfl, hactuals, hbody, h⟩)

/-- The expansion of a node that is neither a call nor a definition stops there, or fails at a
direct subexpression. -/
theorem node_stopsAt_or {left : Nat} {e : Expr R} {x : DiffError}
    (hkind : e.isCallOrDefinition = false) (h : e.expandCalls U left = .error x) :
    StopsAt U left e x ∨ ∃ c ∈ e.children, c.expandCalls U left = .error x := by
  rw [expandCalls_eq_mapChildren hkind] at h
  change e.children.mapM _ >>= _ = _ at h
  cases hcs : e.children.mapM (expandCalls U left) with
  | error y =>
    rw [hcs] at h
    cases h
    exact .inr (exists_mem_of_mapM_eq_error hcs)
  | ok cs =>
    rw [hcs] at h
    change e.rebuild DiffError.shape cs = _ at h
    cases e <;> try cases h
    case matrix rows =>
      change (matrixOf cs).mapError DiffError.shape = _ at h
      cases hs : matrixOf cs with
      | error s =>
        rw [hs] at h
        cases h
        exact .inl (.rebuilding hcs hs)
      | ok m =>
        rw [hs] at h
        cases h

/-- A failed expansion comes upon a node where it stops, with the failure that it has there. -/
theorem exists_stopsAt {left : Nat} {e : Expr R} {x : DiffError}
    (h : e.expandCalls U left = .error x) :
    ∃ left' e', ExpansionVisits U left e left' e' ∧ StopsAt U left' e' x := by
  induction left, e using expandCalls_induct with
  | call left f args iharg ihbody =>
    rcases call_stopsAt_or h with hstops | ⟨a, ha, hfail⟩ |
      ⟨n, d, actuals, body, rfl, hd, hactuals, hbody, hfail⟩
    · exact ⟨left, _, .root, hstops⟩
    · obtain ⟨left', e', hvisits, hstops⟩ := iharg a ha hfail
      exact ⟨left', e', .child rfl ha hvisits, hstops⟩
    · obtain ⟨left', e', hvisits, hstops⟩ := ihbody n rfl body hfail
      exact ⟨left', e', .body hd hactuals hbody hvisits, hstops⟩
  | definition left e hd =>
    rw [expandCalls_definition hd] at h
    cases h
  | node left e hkind ih =>
    rcases node_stopsAt_or hkind h with hstops | ⟨c, hc, hfail⟩
    · exact ⟨left, e, .root, hstops⟩
    · obtain ⟨left', e', hvisits, hstops⟩ := ih c hc hfail
      exact ⟨left', e', .child (isCallOrDefinition_eq_false_iff.1 hkind).2 hc hvisits, hstops⟩

/-- Where expansion succeeds, it succeeds at everything that it comes upon. -/
theorem ExpansionVisits.exists_eq_ok {left left' : Nat} {e e' : Expr R}
    (hvisits : ExpansionVisits U left e left' e') {r : Expr R}
    (h : e.expandCalls U left = .ok r) : ∃ r', e'.expandCalls U left' = .ok r' := by
  induction hvisits generalizing r with
  | root => exact ⟨r, h⟩
  | @child left left' e c e' hd hc _ ih =>
    suffices hc : ∃ c', c.expandCalls U left = .ok c' by
      obtain ⟨c', hc'⟩ := hc
      exact ih hc'
    cases hkind : e.isCallOrDefinition with
    | false =>
      rw [expandCalls_eq_mapChildren hkind] at h
      obtain ⟨cs, hcs, -⟩ := bind_eq_ok_iff.1 h
      exact exists_eq_ok_of_mapM_eq_ok hcs hc
    | true =>
      cases e <;> simp only [isCallOrDefinition, isDefinition, Bool.false_eq_true,
        Bool.true_eq_false] at hkind hd
      obtain ⟨n, d, actuals, body, rfl, -, hactuals, -, -⟩ := expandCalls_call_eq_ok_iff.1 h
      exact exists_eq_ok_of_mapM_eq_ok hactuals hc
  | body hd hactuals hbody _ ih =>
    obtain ⟨n, d, actuals, body, hn, hd', hactuals', hbody', h⟩ := expandCalls_call_eq_ok_iff.1 h
    obtain rfl := Nat.succ.inj hn
    obtain rfl := Option.some.inj (hd.symm.trans hd')
    obtain rfl := Except.ok.inj (hactuals.symm.trans hactuals')
    obtain rfl := Except.ok.inj (hbody.symm.trans hbody')
    exact ih h

/-- A call that a run comes upon ends a chain of calls, with one call before it for each body
that has been entered. -/
theorem ExpansionVisits.exists_isCallChain {left left' : Nat} {e e' : Expr R}
    (hvisits : ExpansionVisits U left e left' e') {k : String × Nat} (hk : e'.HasCall k) :
    ∃ ks, U.IsCallChain e (ks ++ [k]) ∧ ks.length + left' = left := by
  induction hvisits with
  | root =>
    exact ⟨[], FunctionTable.isCallChain_cons.2 ⟨hk, .singleton k⟩, Nat.zero_add _⟩
  | child hd hc _ ih =>
    obtain ⟨ks, ⟨hchain, hhead⟩, hlen⟩ := ih hk
    exact ⟨ks, ⟨hchain, fun k₀ hk₀ => .child hd hc (hhead k₀ hk₀)⟩, hlen⟩
  | @body n left' f args actuals d body e' hd hactuals hbody _ ih =>
    obtain ⟨ks, ⟨hchain, hhead⟩, hlen⟩ := ih hk
    have hbodyChain : U.IsCallChain d.body (ks ++ [k]) :=
      ⟨hchain, fun k₀ hk₀ => (hasCall_body_iff hactuals hbody).1 (hhead k₀ hk₀)⟩
    refine ⟨(f, args.length) :: ks, FunctionTable.isCallChain_cons.2 ⟨.here rfl, ?_⟩, ?_⟩
    · exact (FunctionTable.isChain_cons_iff (k := (f, args.length)) hd).2 hbodyChain
    · rw [List.length_cons]
      omega

/-! ## When expansion succeeds -/

/-- A body that the expansion enters holds a matrix that does not fit with the arguments in
place. -/
def InstantiationRaises (U : FunctionTable R) (left : Nat) (e : Expr R) (s : ShapeError) : Prop :=
  ∃ n f args d actuals, ExpansionVisits U left e (n + 1) (.call f args) ∧
    U.find? f args.length = some d ∧ args.mapM (expandCalls U (n + 1)) = .ok actuals ∧
    d.instantiate actuals = .error s

/-- The expansion comes upon a matrix whose expanded rows do not fit. -/
def RebuildingRaises (U : FunctionTable R) (left : Nat) (e : Expr R) (s : ShapeError) : Prop :=
  ∃ n rows rows', ExpansionVisits U left e n (.matrix rows) ∧
    rows.mapM (expandCalls U n) = .ok rows' ∧ matrixOf rows' = .error s

/-- Why expansion fails: a chain of calls is longer than the number of bodies that may be
entered, a function that is reached is not in the table, or a matrix does not fit. -/
theorem cause_of_expandCalls {left : Nat} {e : Expr R} {x : DiffError}
    (h : e.expandCalls U left = .error x) :
    (∃ f, ∃ args : List (Expr R), ∃ ks, x = .notDifferentiable (Expr.call f args).text ∧
      U.IsCallChain e (ks ++ [(f, args.length)]) ∧ ks.length = left) ∨
    (∃ f n, x = .unboundFunction f n ∧ U.Reaches e (f, n) ∧ U.find? f n = none) ∨
    ∃ s, x = .shape s ∧ (InstantiationRaises U left e s ∨ RebuildingRaises U left e s) := by
  obtain ⟨left', e', hvisits, hstops⟩ := exists_stopsAt h
  cases hstops with
  | @depth f args =>
    obtain ⟨ks, hchain, hlen⟩ := hvisits.exists_isCallChain (.here rfl)
    exact .inl ⟨f, args, ks, rfl, hchain, hlen⟩
  | @unbound n f args hd =>
    obtain ⟨ks, hchain, -⟩ := hvisits.exists_isCallChain (.here rfl)
    exact .inr (.inl ⟨f, args.length, rfl, FunctionTable.reaches_of_isCallChain hchain, hd⟩)
  | instantiation hd hactuals hs =>
    exact .inr (.inr ⟨_, rfl, .inl ⟨_, _, _, _, _, hvisits, hd, hactuals, hs⟩⟩)
  | rebuilding hrows hs =>
    exact .inr (.inr ⟨_, rfl, .inr ⟨_, _, _, hvisits, hrows, hs⟩⟩)

/-- Expansion succeeds exactly where no chain of calls is longer than the number of bodies that
may be entered, every function that is reached is in the table, and all matrices fit. -/
theorem exists_expandCalls_eq_ok_iff {left : Nat} {e : Expr R} :
    (∃ r, e.expandCalls U left = .ok r) ↔
      (∀ ks, U.IsCallChain e ks → ks.length ≤ left) ∧
      (∀ k, U.Reaches e k → ∃ d, U.find? k.1 k.2 = some d) ∧
      (∀ s, ¬ InstantiationRaises U left e s) ∧ ∀ s, ¬ RebuildingRaises U left e s := by
  constructor
  · rintro ⟨r, h⟩
    refine ⟨fun ks hks => ?_, fun k hk => ?_, fun s hs => ?_, fun s hs => ?_⟩
    · cases ks with
      | nil => exact Nat.zero_le _
      | cons k ks =>
        obtain ⟨hk, hchain⟩ := FunctionTable.isCallChain_cons.1 hks
        exact (chain_of_expandCalls h hk hchain).1
    · obtain ⟨k₀, hk₀, hreach⟩ := hk
      obtain ⟨ks, hchain, hlast⟩ := List.exists_isChain_cons_of_relationReflTransGen hreach
      exact (chain_of_expandCalls h hk₀ hchain).2 k (hlast ▸ List.getLast_mem _)
    · -- A run that succeeds comes upon no node where it would stop.
      obtain ⟨n, f, args, d, actuals, hvisits, hd, hactuals, hs⟩ := hs
      obtain ⟨r', hr'⟩ := hvisits.exists_eq_ok h
      rw [(StopsAt.instantiation hd hactuals hs).expandCalls_eq] at hr'
      cases hr'
    · obtain ⟨n, rows, rows', hvisits, hrows, hs⟩ := hs
      obtain ⟨r', hr'⟩ := hvisits.exists_eq_ok h
      rw [(StopsAt.rebuilding hrows hs).expandCalls_eq] at hr'
      cases hr'
  · rintro ⟨hchains, htable, hinstantiation, hrebuilding⟩
    cases h : e.expandCalls U left with
    | ok r => exact ⟨r, rfl⟩
    | error x =>
      rcases cause_of_expandCalls h with ⟨f, args, ks, -, hchain, hlen⟩ | ⟨f, n, -, hreach, hnone⟩ |
        ⟨s, -, hs | hs⟩
      · have hle := hchains _ hchain
        rw [List.length_append, hlen] at hle
        exact absurd hle (Nat.not_succ_le_self left)
      · obtain ⟨d, hd⟩ := htable _ hreach
        rw [hnone] at hd
        cases hd
      · exact absurd hs (hinstantiation s)
      · exact absurd hs (hrebuilding s)

/-- Expansion in terms of the graph of calls. What has been expanded holds no call and is left
alone; an expression whose calls lead to a cycle cannot be expanded; an expression can be
expanded if no chain of calls is longer than `maxBodies`, every function that is reached is in
the table, and all matrices fit; and behind a longer chain expansion fails, with the call that it
cannot enter any more or with a failure that comes before it. -/
theorem expandCalls_complete (U : FunctionTable R) (e : Expr R) :
    (∀ r, e.expandCalls U maxBodies = .ok r →
      (∀ k, ¬ r.HasCall k) ∧ ∀ left, r.expandCalls U left = .ok r) ∧
    (U.ReachesCycle e → ∃ x, e.expandCalls U maxBodies = .error x) ∧
    ((∀ k, U.Reaches e k → ∃ d, U.find? k.1 k.2 = some d) →
      (∀ s, ¬ InstantiationRaises U maxBodies e s) → (∀ s, ¬ RebuildingRaises U maxBodies e s) →
      (∀ ks, U.IsCallChain e ks → ks.length ≤ maxBodies) →
      ∃ r, e.expandCalls U maxBodies = .ok r) ∧
    ∀ ks, U.IsCallChain e ks → maxBodies < ks.length →
      ∃ x, e.expandCalls U maxBodies = .error x ∧
        ((∃ f, ∃ args : List (Expr R), x = .notDifferentiable (Expr.call f args).text) ∨
          (∃ f n, x = .unboundFunction f n ∧ U.Reaches e (f, n) ∧ U.find? f n = none) ∨
          ∃ s, x = .shape s ∧
            (InstantiationRaises U maxBodies e s ∨ RebuildingRaises U maxBodies e s)) := by
  have hlong : ∀ ks, U.IsCallChain e ks → maxBodies < ks.length →
      ∃ x, e.expandCalls U maxBodies = .error x := by
    intro ks hks hlt
    cases h : e.expandCalls U maxBodies with
    | ok r => exact absurd ((exists_expandCalls_eq_ok_iff.1 ⟨r, h⟩).1 ks hks) (Nat.not_le.2 hlt)
    | error x => exact ⟨x, rfl⟩
  refine ⟨fun r h => ⟨fun k => hasCall_of_expandCalls h, expandCalls_of_expandCalls h U⟩,
    fun hcycle => ?_, fun htable hinstantiation hrebuilding hchains => ?_, fun ks hks hlt => ?_⟩
  · obtain ⟨ks, hks, hlen⟩ := FunctionTable.exists_isCallChain_of_reachesCycle hcycle maxBodies
    exact hlong ks hks (by omega)
  · exact exists_expandCalls_eq_ok_iff.2 ⟨hchains, htable, hinstantiation, hrebuilding⟩
  · obtain ⟨x, hx⟩ := hlong ks hks hlt
    refine ⟨x, hx, (cause_of_expandCalls hx).imp_left ?_⟩
    rintro ⟨f, args, -, hf, -, -⟩
    exact ⟨f, args, hf⟩

/-- With `f(t) := t * t` the nested call `f(f(x))` expands, since its chains have one call. With
`g(t) := g(t)` the call `g(x)` leads to a cycle and to a chain of 65 calls, and fails. -/
theorem expandCalls_complete_squares :
    let U : FunctionTable ℚ := (FunctionTable.empty.register
      ⟨"f", ["t"], .mul (.var "t") (.var "t")⟩).register ⟨"g", ["t"], .call "g" [.var "t"]⟩
    let e : Expr ℚ := .call "f" [.call "f" [.var "x"]]
    let loop : Expr ℚ := .call "g" [.var "x"]
    let square : Expr ℚ := .mul (.var "x") (.var "x")
    (e.expandCalls U maxBodies = .ok (.mul square square) ∧
      (∀ k, ¬ (Expr.mul square square).HasCall k) ∧
      ∀ left, (Expr.mul square square).expandCalls U left = .ok (.mul square square)) ∧
    (((∀ k, U.Reaches e k → ∃ d, U.find? k.1 k.2 = some d) ∧
        (∀ s, ¬ InstantiationRaises U maxBodies e s) ∧
        (∀ s, ¬ RebuildingRaises U maxBodies e s) ∧
        ∀ ks, U.IsCallChain e ks → ks.length ≤ maxBodies) ∧
      ∃ r, e.expandCalls U maxBodies = .ok r) ∧
    (U.ReachesCycle loop ∧ ∃ x, loop.expandCalls U maxBodies = .error x) ∧
    U.IsCallChain loop (List.replicate 65 ("g", 1)) ∧
      ∃ x, loop.expandCalls U maxBodies = .error x ∧
        ((∃ f, ∃ args : List (Expr ℚ), x = .notDifferentiable (Expr.call f args).text) ∨
          (∃ f n, x = .unboundFunction f n ∧ U.Reaches loop (f, n) ∧ U.find? f n = none) ∨
          ∃ s, x = .shape s ∧
            (InstantiationRaises U maxBodies loop s ∨ RebuildingRaises U maxBodies loop s)) := by
  intro U e loop square
  have hx : ∀ left, (Expr.var "x" : Expr ℚ).expandCalls U left = .ok (.var "x") := fun left =>
    expandCalls_eq_self rfl rfl nofun
  have hproduct : ∀ left (a : Expr ℚ), a.expandCalls U left = .ok a →
      (Expr.mul a a).expandCalls U left = .ok (.mul a a) := fun left a ha =>
    expandCalls_eq_self rfl rfl (by simpa [children] using ha)
  have hsquare : ∀ left, square.expandCalls U left = .ok square := fun left =>
    hproduct left _ (hx left)
  have hcall : ∀ n, (Expr.call "f" [.var "x"]).expandCalls U (n + 1) = .ok square := fun n =>
    expandCalls_call_eq_ok_iff.2 ⟨n, _, [.var "x"], square, rfl, rfl,
      mapM_eq_ok_iff.2 (.cons (hx _) .nil), rfl, hsquare n⟩
  have he : e.expandCalls U maxBodies = .ok (.mul square square) :=
    expandCalls_call_eq_ok_iff.2 ⟨63, _, [square], .mul square square, rfl, rfl,
      mapM_eq_ok_iff.2 (.cons (hcall _) .nil), rfl, hproduct 63 square (hsquare 63)⟩
  obtain ⟨hchains, htable, hinstantiation, hrebuilding⟩ := exists_expandCalls_eq_ok_iff.1 ⟨_, he⟩
  have hg : U.Calls ("g", 1) ("g", 1) := ⟨_, rfl, .here rfl⟩
  have hcycle : U.ReachesCycle loop := ⟨("g", 1), ⟨("g", 1), .here rfl, .refl⟩, .single hg⟩
  have hchain : U.IsCallChain loop (List.replicate 65 ("g", 1)) :=
    FunctionTable.isCallChain_cons.2 ⟨.here rfl, List.isChain_replicate_of_rel 65 hg⟩
  obtain ⟨hexpanded, -, hfinite, -⟩ := expandCalls_complete U e
  obtain ⟨-, hloop, -, hlong⟩ := expandCalls_complete U loop
  exact ⟨⟨he, hexpanded _ he⟩, ⟨⟨htable, hinstantiation, hrebuilding, hchains⟩,
    hfinite htable hinstantiation hrebuilding hchains⟩, ⟨hcycle, hloop hcycle⟩, hchain,
    hlong _ hchain (by decide)⟩

/-- That every instantiation succeeds is not enough. With `f(t) := {t, t, t}`, which fits for
every argument, the only call of `matrix({1, 2}, f(3))` leads no further, but its expansion does
not fit as the second row. -/
theorem not_expandCalls_of_instantiations :
    let U : FunctionTable ℚ := FunctionTable.empty.register
      ⟨"f", ["t"], .vector [.var "t", .var "t", .var "t"]⟩
    let e : Expr ℚ := .matrix [.vector [.number 1, .number 2], .call "f" [.number 3]]
    ¬ U.ReachesCycle e ∧ (∀ k, U.Reaches e k → ∃ d, U.find? k.1 k.2 = some d) ∧
      (∀ s, ¬ InstantiationRaises U maxBodies e s) ∧
      (∀ ks, U.IsCallChain e ks → ks.length ≤ maxBodies) ∧
      e.expandCalls U maxBodies = .error (.shape ⟨1, 2, 3⟩) := by
  intro U e
  let triple : FunctionDef ℚ := ⟨"f", ["t"], .vector [.var "t", .var "t", .var "t"]⟩
  have hfind : ∀ f n d, U.find? f n = some d → d = triple := by
    intro f n d hd
    rw [FunctionTable.find?_register] at hd
    split at hd
    · exact (Option.some.inj hd).symm
    · cases hd
  have hbody : ∀ k, ¬ triple.body.HasCall k := by
    intro k
    simp [triple]
  have hcalls : ∀ k k', ¬ U.Calls k k' := by
    rintro k k' ⟨d, hd, hcall⟩
    rw [hfind _ _ d hd] at hcall
    exact hbody k' hcall
  have he : ∀ k, e.HasCall k → k = ("f", 1) := by
    intro k hk
    simpa [e, eq_comm] using hk
  refine ⟨?_, ?_, ?_, ?_, ?_⟩
  · rintro ⟨k, -, hcycle⟩
    obtain ⟨k', hk, -⟩ := Relation.TransGen.head'_iff.1 hcycle
    exact hcalls k k' hk
  · rintro k ⟨k₀, hk₀, hreach⟩
    rcases Relation.ReflTransGen.cases_head hreach with rfl | ⟨k', hk, -⟩
    · rw [he k₀ hk₀]
      exact ⟨triple, rfl⟩
    · exact absurd hk (hcalls k₀ k')
  · rintro s ⟨n, f, args, d, actuals, -, hd, -, hs⟩
    rw [hfind f _ d hd] at hs
    cases hs
  · intro ks hks
    cases ks with
    | nil => exact Nat.zero_le _
    | cons k ks =>
      cases ks with
      | nil => exact Nat.succ_le_succ (Nat.zero_le 63)
      | cons k' ks =>
        exact absurd (List.isChain_cons_cons.1 (FunctionTable.isCallChain_cons.1 hks).2).1
          (hcalls k k')
  · have hnumber : ∀ left v, (Expr.number v : Expr ℚ).expandCalls U left = .ok (.number v) :=
      fun left v => expandCalls_eq_self rfl rfl nofun
    have hfirst : (Expr.vector [.number 1, .number 2] : Expr ℚ).expandCalls U maxBodies =
        .ok (.vector [.number 1, .number 2]) :=
      expandCalls_eq_self rfl rfl (by simp [children, hnumber])
    have hsecond : (Expr.call "f" [.number 3]).expandCalls U maxBodies =
        .ok (.vector [.number 3, .number 3, .number 3]) :=
      expandCalls_call_eq_ok_iff.2 ⟨63, triple, [.number 3],
        .vector [.number 3, .number 3, .number 3], rfl, rfl,
        mapM_eq_ok_iff.2 (.cons (hnumber _ _) .nil), rfl,
        expandCalls_eq_self rfl rfl (by simp [children, hnumber])⟩
    exact (StopsAt.rebuilding (mapM_eq_ok_iff.2 (.cons hfirst (.cons hsecond .nil)))
      rfl).expandCalls_eq

end SymbolicAlgebra.Expr
