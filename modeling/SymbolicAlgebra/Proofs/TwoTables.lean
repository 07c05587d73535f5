import SymbolicAlgebra.Proofs.PhraseDerivation
import SymbolicAlgebra.Proofs.Readable
import SymbolicAlgebra.Scalar.SignedFloat

set_option autoImplicit false

/-!
# Two tables, one formula

The grammar looks at the table of functions in one place only, the expression of a call,
and there it either keeps the call as it is written or refuses its number of arguments
(`Grammar.sameUnlessRefused_callOf`). So two runs over the same tokens with different tables stay
in step: they take the same tokens and build the same expressions, until one of them refuses a call
(`Grammar.SameUnlessRefused`). The functions of the grammar are compared one by one, and
`parse_eq_of_tables` is the comparison for all tokens.
-/

namespace SymbolicAlgebra

namespace Grammar

/-- Where the first run succeeds, the second one gives the same value or refuses the number
of arguments of a call. -/
def SameUnlessRefused {α : Type} (x x' : Except ParseError α) : Prop :=
  ∀ a, x = .ok a → x' = .ok a ∨ ∃ f n, x' = .error (.arityMismatch f n)

section Steps

variable {α β : Type} {x x' : Except ParseError α} {f f' : α → Except ParseError β}

theorem sameUnlessRefused_self (x : Except ParseError α) : SameUnlessRefused x x :=
  fun _ h => .inl h

/-- A step goes on with the value that both runs have, unless the second run has refused a
call. -/
theorem SameUnlessRefused.bind (hx : SameUnlessRefused x x')
    (hf : ∀ a, SameUnlessRefused (f a) (f' a)) : SameUnlessRefused (x >>= f) (x' >>= f') := by
  intro b hb
  obtain ⟨a, ha, hfa⟩ := Expr.bind_eq_ok_iff.1 hb
  rcases hx a ha with rfl | ⟨g, n, rfl⟩
  · exact hf a b hfa
  · exact .inr ⟨g, n, rfl⟩

end Steps

variable {R : Type} [Scalar R] {U U' : FunctionTable R}

/-- A call that both tables admit is the same expression. A built-in function is built
without the table; any other call is kept as it is written. -/
theorem sameUnlessRefused_callOf (f : String) (es : List (Expr R)) :
    SameUnlessRefused (callOf U f es) (callOf U' f es) := by
  intro e he
  unfold callOf at he ⊢
  cases hb : Builtin.ofName? f with
  | some b =>
    simp only [hb] at he ⊢
    -- The number of arguments alone decides whether the built-in function is called.
    by_cases ha : b.accepts es.length
    · rw [if_pos ha] at he ⊢
      exact .inl he
    · rw [if_neg ha] at he ⊢
      split at he
      · split
        · exact .inl he
        · exact .inr ⟨_, _, rfl⟩
      · cases he
  | none =>
    simp only [hb] at he ⊢
    -- The first table has admitted the call, as a known function or as an unknown one.
    have hcall : e = .call f es := by
      split at he
      · exact (Except.ok.inj he).symm
      · split at he
        · cases he
        · exact (Except.ok.inj he).symm
    rw [hcall]
    split
    · exact .inl rfl
    · split
      · exact .inr ⟨_, _, rfl⟩
      · exact .inl rfl

/-! ## The functions of the grammar -/

mutual
/-- Reading an assignment. -/
theorem sameUnlessRefused_assignment (c : Reader R) :
    SameUnlessRefused (assignment U c) (assignment U' c) := by
  rw [assignment.eq_def U, assignment.eq_def U']
  refine (sameUnlessRefused_chain c).bind fun ⟨⟨e, ⟨i, l, r⟩⟩, h₁⟩ => ?_
  cases r with
  | nil => exact sameUnlessRefused_self _
  | cons t ts =>
    cases t with
    | operator op =>
      dsimp only
      split
      · exact (sameUnlessRefused_assignment _).bind fun _ => sameUnlessRefused_self _
      · exact sameUnlessRefused_self _
    | _ => exact sameUnlessRefused_self _
termination_by (c.rest.length, 18)
decreasing_by
  · exact Prod.Lex.right _ (by decide)
  · exact Prod.Lex.left _ _ (Nat.lt_trans (Nat.lt_succ_self _) h₁)
/-- Reading a chain of a level. -/
theorem sameUnlessRefused_chain {l : Level} (c : Reader R) :
    SameUnlessRefused (chain U l c) (chain U' l c) := by
  rw [chain.eq_def U, chain.eq_def U']
  refine (sameUnlessRefused_operand c).bind fun ⟨⟨e, c₁⟩, h₁⟩ => ?_
  exact (sameUnlessRefused_chainRest e c₁).bind fun _ => sameUnlessRefused_self _
termination_by (c.rest.length, 2 * l.rank + 4)
/-- Reading the rest of a chain. -/
theorem sameUnlessRefused_chainRest {l : Level} (e : Expr R) (c : Reader R) :
    SameUnlessRefused (chainRest U l e c) (chainRest U' l e c) := by
  rw [chainRest.eq_def U, chainRest.eq_def U']
  split
  · exact sameUnlessRefused_self _
  · rename_i k c₁ hk
    have h₁ := Level.length_connectiveAt? hk
    refine (sameUnlessRefused_operand c₁).bind fun ⟨⟨e', c₂⟩, h₂⟩ => ?_
    exact (sameUnlessRefused_chainRest _ c₂).bind fun _ => sameUnlessRefused_self _
termination_by (c.rest.length, 2 * l.rank + 4)
decreasing_by
  · rcases Nat.lt_or_eq_of_le h₁ with h | h
    · exact Prod.Lex.left _ _ h
    · rw [h]
      exact Prod.Lex.right _ (by omega)
  · exact Prod.Lex.left _ _ (Nat.lt_of_lt_of_le h₂ h₁)
/-- Reading an operand of a level. -/
theorem sameUnlessRefused_operand {l : Level} (c : Reader R) :
    SameUnlessRefused (operand U l c) (operand U' l c) := by
  rw [operand.eq_def U, operand.eq_def U']
  split
  · rename_i l' hl
    have := Level.rank_tighter hl
    exact sameUnlessRefused_chain c
  · exact sameUnlessRefused_signed c
termination_by (c.rest.length, 2 * l.rank + 3)
/-- Reading a signed operand. -/
theorem sameUnlessRefused_signed (c : Reader R) :
    SameUnlessRefused (signed U c) (signed U' c) := by
  have hpower : ∀ n (hn : c.rest.length = n), SameUnlessRefused
      (do
        let ⟨p, h⟩ ← power U c
        (pure ⟨p, hn ▸ h⟩ : Except ParseError (Shorter R (Expr R) n)))
      (do
        let ⟨p, h⟩ ← power U' c
        (pure ⟨p, hn ▸ h⟩ : Except ParseError (Shorter R (Expr R) n))) := by
    intro n hn
    exact (sameUnlessRefused_power c).bind fun _ => sameUnlessRefused_self _
  rcases c with ⟨i, l, r⟩
  rw [signed.eq_def U, signed.eq_def U']
  cases r with
  | nil => exact hpower _ rfl
  | cons t ts =>
    cases t with
    | operator op =>
      cases op with
      | negate => exact (sameUnlessRefused_signed _).bind fun _ => sameUnlessRefused_self _
      | not => exact (sameUnlessRefused_signed _).bind fun _ => sameUnlessRefused_self _
      | _ => exact hpower _ rfl
    | _ => exact hpower _ rfl
termination_by (c.rest.length, 2)
decreasing_by
  · exact Prod.Lex.right _ (by decide)
  all_goals exact Prod.Lex.left _ _ (Nat.lt_succ_self _)
/-- Reading a power. -/
theorem sameUnlessRefused_power (c : Reader R) :
    SameUnlessRefused (power U c) (power U' c) := by
  rw [power.eq_def U, power.eq_def U']
  refine (sameUnlessRefused_primary c).bind fun ⟨⟨e, c₁⟩, h₁⟩ => ?_
  refine (sameUnlessRefused_self (trailing e c₁)).bind fun ⟨⟨base, ⟨i, l, r⟩⟩, h₂⟩ => ?_
  cases r with
  | nil => exact sameUnlessRefused_self _
  | cons t ts =>
    cases t with
    | operator op =>
      cases op with
      | power => exact (sameUnlessRefused_signed _).bind fun _ => sameUnlessRefused_self _
      | _ => exact sameUnlessRefused_self _
    | _ => exact sameUnlessRefused_self _
termination_by (c.rest.length, 1)
decreasing_by
  · exact Prod.Lex.right _ (by decide)
  · exact Prod.Lex.left _ _
      (Nat.lt_of_lt_of_le (Nat.lt_succ_self _) (Nat.le_trans h₂ (Nat.le_of_lt h₁)))
/-- Reading a primary. -/
theorem sameUnlessRefused_primary (c : Reader R) :
    SameUnlessRefused (primary U c) (primary U' c) := by
  rcases c with ⟨i, l, r⟩
  rw [primary.eq_def U, primary.eq_def U']
  cases r with
  | nil => exact sameUnlessRefused_self _
  | cons t ts =>
    cases t with
    | number v =>
      cases ts with
      | nil => exact sameUnlessRefused_self _
      | cons t' ts' => cases t' <;> exact sameUnlessRefused_self _
    | call f n =>
      cases ts with
      | nil => exact sameUnlessRefused_self _
      | cons t' ts' =>
        cases t' with
        | delimiter b =>
          dsimp only
          split
          · refine (sameUnlessRefused_list _ _).bind fun ⟨⟨es, c₁⟩, h₁⟩ => ?_
            dsimp only
            split
            · exact (sameUnlessRefused_callOf f es).bind fun _ => sameUnlessRefused_self _
            · exact sameUnlessRefused_self _
          · exact sameUnlessRefused_self _
        | _ => exact sameUnlessRefused_self _
    | delimiter d =>
      cases d with
      | openParen => exact (sameUnlessRefused_assignment _).bind fun _ => sameUnlessRefused_self _
      | openBrace => exact (sameUnlessRefused_list _ _).bind fun _ => sameUnlessRefused_self _
      | _ => exact sameUnlessRefused_self _
    | _ => exact sameUnlessRefused_self _
termination_by (c.rest.length, 0)
decreasing_by
  all_goals
    refine Prod.Lex.left _ _ ?_
    simp only [Reader.rest_advance, List.tail_cons, List.length_cons]
    omega
/-- Reading a list. -/
theorem sameUnlessRefused_list (close : Delimiter) (c : Reader R) :
    SameUnlessRefused (list U close c) (list U' close c) := by
  have hmembers : ∀ n (hn : c.rest.length = n), SameUnlessRefused
      (do
        let ⟨p, h⟩ ← members U close c
        (pure ⟨p, hn ▸ h⟩ : Except ParseError (Shorter R (List (Expr R)) n)))
      (do
        let ⟨p, h⟩ ← members U' close c
        (pure ⟨p, hn ▸ h⟩ : Except ParseError (Shorter R (List (Expr R)) n))) := by
    intro n hn
    exact (sameUnlessRefused_members close c).bind fun _ => sameUnlessRefused_self _
  rcases c with ⟨i, l, r⟩
  rw [list.eq_def U, list.eq_def U']
  cases r with
  | nil => exact hmembers _ rfl
  | cons t ts =>
    cases t with
    | delimiter d =>
      dsimp only
      split
      · exact sameUnlessRefused_self _
      · exact hmembers _ rfl
    | _ => exact hmembers _ rfl
termination_by (c.rest.length, 20)
decreasing_by exact Prod.Lex.right _ (by decide)
/-- Reading the members of a list. -/
theorem sameUnlessRefused_members (close : Delimiter) (c : Reader R) :
    SameUnlessRefused (members U close c) (members U' close c) := by
  rw [members.eq_def U, members.eq_def U']
  refine (sameUnlessRefused_assignment c).bind fun ⟨⟨e, ⟨i, l, r⟩⟩, h₁⟩ => ?_
  cases r with
  | nil => exact sameUnlessRefused_self _
  | cons t ts =>
    cases t with
    | delimiter d =>
      dsimp only
      split
      · exact (sameUnlessRefused_members close _).bind fun _ => sameUnlessRefused_self _
      · exact sameUnlessRefused_self _
    | _ => exact sameUnlessRefused_self _
termination_by (c.rest.length, 19)
decreasing_by
  · exact Prod.Lex.right _ (by decide)
  · exact Prod.Lex.left _ _ (Nat.lt_trans (Nat.lt_succ_self _) h₁)
end

end Grammar

open Grammar (callOf keepsCall)

variable {R : Type} [Scalar R] {U U' : FunctionTable R}

/-! ## Whole formulas -/

/-- Reading a whole formula. -/
theorem sameUnlessRefused_parse (U U' : FunctionTable R) (ts : List (Token R)) :
    Grammar.SameUnlessRefused (parse U ts) (parse U' ts) := by
  intro e he
  unfold parse at he ⊢
  split at he
  · cases he
  · split at he
    · cases he
    · rename_i hempty _ _ _ _ hread
      rw [if_neg hempty]
      have hsame : Grammar.SameUnlessRefused (Grammar.assignment U (.start ts))
          (Grammar.assignment U' (.start ts)) := Grammar.sameUnlessRefused_assignment _
      rcases hsame _ hread with h | ⟨f, n, h⟩
      · rw [h]
        exact .inl he
      · rw [h]
        exact .inr ⟨f, n, rfl⟩

/-- The table of functions admits or refuses a formula, it never changes how the formula
is read: two tables that both admit it read the same expression, and a table that refuses
what another one admits does so for the number of arguments of a call. -/
theorem parse_eq_of_tables {ts : List (Token R)} {e : Expr R} (h : parse U ts = .ok e) :
    (∀ e', parse U' ts = .ok e' → e = e') ∧
      ∀ x, parse U' ts = .error x → ∃ f n, x = .arityMismatch f n := by
  rcases sameUnlessRefused_parse U U' ts e h with h' | ⟨f, n, h'⟩
  · rw [h']
    exact ⟨fun e' he' => Except.ok.inj he', nofun⟩
  · rw [h']
    exact ⟨nofun, fun x hx => ⟨f, n, (Except.error.inj hx).symm⟩⟩

/-- With no functions defined, and with a function `f` of one argument, `f(x)` is the same
call; where `f` has two arguments, the call is refused. -/
theorem parse_eq_of_tables_call :
    let ts : List (Token SignedFloat) :=
      [.call "f" 1, .delimiter .openParen, .name "x", .delimiter .closeParen]
    let e : Expr SignedFloat := .call "f" [.var "x"]
    let one := FunctionTable.empty.register ⟨"f", ["a"], .var "a"⟩
    let two := FunctionTable.empty.register ⟨"f", ["a", "b"], .var "a"⟩
    parse FunctionTable.empty ts = .ok e ∧ parse one ts = .ok e ∧
      (∀ e', parse one ts = .ok e' → e = e') ∧
      ∃ f n, parse two ts = .error (.arityMismatch f n) := by
  intro ts e one two
  have hf : isFunctionName "f" = true := by decide +kernel
  have hx : isVariableName "x" = true := by decide +kernel
  have hphrase : ∀ U : FunctionTable SignedFloat,
      callOf U "f" [.var "x"] = .ok e → Phrase U _ ts e := fun U he =>
    .atom (.call (b := .openParen) hf rfl (.items (.one (.atom (.name hx)))) he)
  have hempty : parse FunctionTable.empty ts = .ok e := (hphrase _ rfl).parse
  refine ⟨hempty, (hphrase one rfl).parse, (parse_eq_of_tables hempty).1, ?_⟩
  cases htwo : parse two ts with
  | error x =>
    obtain ⟨f, n, rfl⟩ := (parse_eq_of_tables hempty).2 x htwo
    exact ⟨f, n, rfl⟩
  | ok e' =>
    -- The call would be the node of a formula for the second table as well.
    obtain rfl := (parse_eq_of_tables hempty).1 e' htwo
    have hnamed : ∀ t ∈ ts, t.Named := by
      simp only [ts, List.forall_mem_cons, Token.Named, hf, hx, List.not_mem_nil, true_and,
        false_imp_iff, implies_true]
    have hkept : keepsCall two "f" 1 = true := (readable_of_parse hnamed htwo).here.2
    exact absurd hkept (by decide +kernel)

end SymbolicAlgebra
