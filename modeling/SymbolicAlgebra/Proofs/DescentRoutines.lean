import SymbolicAlgebra.Proofs.DescentRules

set_option autoImplicit false

/-!
# The routines against the functions of the grammar

If the routines that a routine calls give what the grammar gives (`Answered`), so does the routine
itself: `gives_assignment`, `gives_chain` and the same for the others. A routine asks for less
where it has taken nothing yet: at its own position it relies on the routines further down only,
and behind a token on any of them.

The functions of the grammar carry bounds on what is ahead; without these bounds they have the
same equations as the routines (`placed_chainRest_some`, `placed_primary`, `placed_members` and so
on).
-/

namespace SymbolicAlgebra

open Grammar

variable {R : Type}

namespace Descent

variable [Scalar R]

/-! ## Results of the routines -/

/-- Reads a primary with its trailing operators. -/
def trailed (U : FunctionTable R) (c : Reader R) :
    Except ParseError (Shorter R (Expr R) c.rest.length) :=
  primary U c >>= fun p => trailing p.1.1 p.1.2 >>= fun q =>
    pure ⟨q.1, Nat.lt_of_le_of_lt q.2 p.2⟩

/-- Reads the arguments of a call with their brackets. -/
def called (U : FunctionTable R) (f : String) (count : Nat) (c : Reader R) :
    Except ParseError (Expr R × Nat) :=
  match c.rest with
  | .delimiter b :: _ =>
    match b.closing? with
    | some close => list U close c.advance >>= fun p =>
      if p.1.1.length = count then (callOf U f p.1.1).map (·, p.1.2.index)
      else .error (.arityMismatch f p.1.1.length)
    | none => .error (unexpected c .argumentList)
  | _ => .error (unexpected c .argumentList)

/-- What a routine gives at a position: the result of its function of the grammar. -/
def result (U : FunctionTable R) (ts : List (Token R)) :
    (r : Routine) → Nat → Except ParseError (r.Value R × Nat)
  | .assignment, pos => placed (assignment U (.atIndex ts pos))
  | .chain l, pos => placed (chain U l (.atIndex ts pos))
  | .signed, pos => placed (signed U (.atIndex ts pos))
  | .power, pos => placed (power U (.atIndex ts pos))
  | .trailed, pos => placed (trailed U (.atIndex ts pos))
  | .primary, pos => placed (primary U (.atIndex ts pos))
  | .list close, pos => placed (list U close (.atIndex ts pos))
  | .call f count, pos => called U f count (.atIndex ts pos)

/-- The routine is answered at the position with the result of the grammar. -/
def Answered (U : FunctionTable R) (ts : List (Token R)) (answer : Answers R) (pos : Nat)
    (r : Routine) : Prop :=
  Gives ts (answer r) pos (result U ts r pos)

/-- The routine is answered so at every position behind the one given. -/
def AnsweredBehind (U : FunctionTable R) (ts : List (Token R)) (answer : Answers R) (pos : Nat)
    (r : Routine) : Prop :=
  ∀ pos', pos < pos' → pos' ≤ ts.length → Answered U ts answer pos' r

variable {U : FunctionTable R}

/-- A power is a primary with its trailing operators, and possibly an exponent. -/
theorem power_eq_trailed (c : Reader R) :
    power U c = trailed U c >>= fun p =>
      match hc : p.1.2.rest with
      | .operator .power :: _ =>
        have h := Reader.length_advance hc
        signed U p.1.2.advance >>= fun q =>
          pure ⟨(.pow p.1.1 q.1.1, q.1.2), Nat.lt_trans q.2 (Nat.lt_trans h p.2)⟩
      | _ => pure p := by
  rw [power, trailed, bind_assoc]
  refine bind_congr fun p => ?_
  obtain ⟨⟨e, c₁⟩, h₁⟩ := p
  dsimp only
  rw [bind_assoc]
  refine bind_congr fun q => ?_
  obtain ⟨⟨base, c₂⟩, h₂⟩ := q
  exact pure_bind (m := Except ParseError) _ _

theorem placed_signed_negate {c : Reader R} {us : List (Token R)}
    (h : c.rest = .operator .negate :: us) :
    placed (signed U c) = signed U c.advance >>= fun p =>
      .ok (negated p.1.1 (p.1.2.index - (c.index + 1)), p.1.2.index) := by
  obtain ⟨i, l, r⟩ := c
  obtain rfl : r = .operator .negate :: us := h
  rw [signed, placed_bind]
  rfl

theorem placed_signed_not {c : Reader R} {us : List (Token R)}
    (h : c.rest = .operator .not :: us) :
    placed (signed U c) = signed U c.advance >>= fun p =>
      .ok (.unary .not p.1.1, p.1.2.index) := by
  obtain ⟨i, l, r⟩ := c
  obtain rfl : r = .operator .not :: us := h
  rw [signed, placed_bind]
  rfl

/-- Without a sign a signed operand is a power. -/
theorem placed_signed_eq_power {c : Reader R}
    (hnegate : ∀ us, c.rest = .operator .negate :: us → False)
    (hnot : ∀ us, c.rest = .operator .not :: us → False) :
    placed (signed U c) = placed (power U c) := by
  -- The branch without a sign, for every token that a reader can be at.
  have hpower : ∀ n (hn : c.rest.length = n), placed (power U c >>= fun p =>
      (pure ⟨p.1, hn ▸ p.2⟩ : Except ParseError (Shorter R (Expr R) n))) = placed (power U c) := by
    intro n hn
    cases power U c <;> rfl
  obtain ⟨i, l, r⟩ := c
  rw [signed]
  cases r with
  | nil => exact hpower _ rfl
  | cons t us =>
    cases t with
    | operator op =>
      cases op with
      | negate => exact (hnegate us rfl).elim
      | not => exact (hnot us rfl).elim
      | _ => exact hpower _ rfl
    | _ => exact hpower _ rfl

theorem placed_chainRest_none {l : Level} {left : Expr R} {c : Reader R}
    (h : l.connectiveAt? c = none) : placed (chainRest U l left c) = .ok (left, c.index) := by
  rw [chainRest]
  split
  · rfl
  · rename_i hk
    rw [h] at hk
    cases hk

theorem placed_chainRest_some {l : Level} {left : Expr R} {c c₁ : Reader R} {k : Connective}
    (h : l.connectiveAt? c = some (k, c₁)) :
    placed (chainRest U l left c) = operand U l c₁ >>= fun p =>
      placed (chainRest U l (k.combine left p.1.1) p.1.2) := by
  rw [chainRest]
  split
  · rename_i hk
    rw [h] at hk
    cases hk
  · rename_i hk
    obtain ⟨rfl, rfl⟩ := Prod.mk.inj (Option.some.inj (h.symm.trans hk))
    rw [placed_bind]
    exact bind_congr fun p => placed_bind_pass fun _ => rfl

theorem placed_trailing_none {e : Expr R} {c : Reader R}
    (h : ∀ op us, c.rest = .operator op :: us → trailed? e op = none) :
    placed (trailing e c) = .ok (e, c.index) := by
  obtain ⟨i, l, r⟩ := c
  rw [trailing]
  cases r with
  | nil => rfl
  | cons t us =>
    cases t with
    | operator op =>
      dsimp only
      rw [h op us rfl]
      rfl
    | _ => rfl

theorem placed_trailing_some {e : Expr R} {c : Reader R} {op : Operator} {us : List (Token R)}
    {x : Except ParseError (Expr R)} (hr : c.rest = .operator op :: us)
    (h : trailed? e op = some x) :
    placed (trailing e c) = x >>= fun e' => placed (trailing e' c.advance) := by
  obtain ⟨i, l, r⟩ := c
  obtain rfl : r = .operator op :: us := hr
  rw [trailing]
  dsimp only
  rw [h]
  cases x with
  | error z => rfl
  | ok e' =>
    dsimp only
    change _ = placed (trailing e' _)
    cases trailing e' (Reader.advance ⟨i, l, .operator op :: us⟩) <;> rfl

/-- A primary, without the bounds on what is ahead. -/
theorem placed_primary (c : Reader R) : placed (primary U c) =
    match c.rest with
    | [] => .error (.unexpectedEnd .operand)
    | .number v :: .unit u :: _ => .ok (.quantity ⟨v, u⟩, c.index + 2)
    | .number v :: _ => .ok (.number v, c.index + 1)
    | .complex z :: _ => .ok (.complex z, c.index + 1)
    | .truth b :: _ => .ok (.truth b, c.index + 1)
    | .name x :: _ => .ok (.var x, c.index + 1)
    | .call f n :: _ => called U f n c.advance
    | .delimiter .openParen :: _ => assignment U c.advance >>= fun p =>
      match p.1.2.rest with
      | .delimiter .closeParen :: _ => .ok (p.1.1, p.1.2.index + 1)
      | _ => .error (unexpected p.1.2 .closeParen)
    | .delimiter .openBrace :: _ => list U .closeBrace c.advance >>= fun p =>
      (collection p.1.1).map (·, p.1.2.index)
    | _ => .error (unexpected c .operand) := by
  obtain ⟨i, l, r⟩ := c
  rw [primary]
  cases r with
  | nil => rfl
  | cons t us =>
    cases t with
    | number v =>
      cases us with
      | nil => rfl
      | cons t' us' => cases t' <;> rfl
    | call f n =>
      cases us with
      | nil => rfl
      | cons t' us' =>
        cases t' with
        | delimiter b =>
          dsimp only [called, Reader.advance]
          cases hb : b.closing? with
          | some close =>
            dsimp only
            rw [placed_bind]
            refine bind_congr fun p => ?_
            obtain ⟨⟨args, c₁⟩, h₁⟩ := p
            dsimp only
            split
            · cases callOf U f args <;> rfl
            · rfl
          | none => rfl
        | _ => rfl
    | delimiter d =>
      cases d with
      | openParen =>
        dsimp only
        rw [placed_bind]
        refine bind_congr fun p => ?_
        obtain ⟨⟨e, i₁, l₁, r₁⟩, h₁⟩ := p
        cases r₁ with
        | nil => rfl
        | cons t' us' =>
          cases t' with
          | delimiter d => cases d <;> rfl
          | _ => rfl
      | openBrace =>
        dsimp only
        rw [placed_bind]
        refine bind_congr fun p => ?_
        obtain ⟨⟨items, c₁⟩, h₁⟩ := p
        dsimp only
        cases collection items <;> rfl
      | _ => rfl
    | _ => rfl

theorem placed_list_close {c : Reader R} {close : Delimiter} {us : List (Token R)}
    (h : c.rest = .delimiter close :: us) : placed (list U close c) = .ok ([], c.index + 1) := by
  obtain ⟨i, l, r⟩ := c
  obtain rfl : r = .delimiter close :: us := h
  rw [list]
  dsimp only
  rw [if_pos rfl]
  rfl

theorem placed_list_members {c : Reader R} {close : Delimiter}
    (h : ∀ us, c.rest = .delimiter close :: us → False) :
    placed (list U close c) = placed (members U close c) := by
  -- The branch for a list that is not closed at once.
  have hmembers : ∀ n (hn : c.rest.length = n), placed (members U close c >>= fun p =>
      (pure ⟨p.1, hn ▸ p.2⟩ : Except ParseError (Shorter R (List (Expr R)) n))) =
        placed (members U close c) := by
    intro n hn
    exact placed_bind_pass fun _ => rfl
  obtain ⟨i, l, r⟩ := c
  rw [list]
  cases r with
  | nil => exact hmembers _ rfl
  | cons t us =>
    cases t with
    | delimiter d =>
      dsimp only
      rw [if_neg fun hd => h us (by rw [hd])]
      exact hmembers _ rfl
    | _ => exact hmembers _ rfl

/-- The members of a list, without the bounds on what is ahead. -/
theorem placed_members (close : Delimiter) (c : Reader R) : placed (members U close c) =
    assignment U c >>= fun p =>
      match p.1.2.rest with
      | .delimiter d :: _ =>
        if d = .comma then
          (fun q => (p.1.1 :: q.1, q.2)) <$> placed (members U close p.1.2.advance)
        else if d = close then .ok ([p.1.1], p.1.2.index + 1)
        else .error (unexpected p.1.2 .listEnd)
      | _ => .error (unexpected p.1.2 .listEnd) := by
  rw [members, placed_bind]
  refine bind_congr fun p => ?_
  obtain ⟨⟨e, i, l, r⟩, h⟩ := p
  cases r with
  | nil => rfl
  | cons t us =>
    cases t with
    | delimiter d =>
      dsimp only
      split
      · cases members U close (Reader.advance ⟨i, l, .delimiter d :: us⟩) <;> rfl
      · split <;> rfl
    | _ => rfl

/-- Reading a primary with its trailing operators. -/
theorem reads_trailed (c : Reader R) :
    Grammar.Reads c (IsTrailing U) (EndsOpen U) (trailed U c) := by
  refine (reads_primary c).bind fun w e c₁ h₁ _ hw => ?_
  have ht := (reads_trailing (c := c₁) (.primary hw)).weaken fun ts hts => EndsOpen.append hts w
  refine ht.bind fun w' e' c₂ h₂ _ hw' => ?_
  refine reads_ok ?_
  rw [List.append_nil]
  exact hw'

section Routines

variable {ts : List (Token R)} {pos : Nat} {answer : Answers R}

/-! ## The routines, one by one -/

theorem gives_assignment (hpos : pos ≤ ts.length)
    (hchain : Answered U ts answer pos (.chain .disjunction))
    (hnext : AnsweredBehind U ts answer pos .assignment) :
    Gives ts (assignmentStep ts answer) pos (result U ts .assignment pos) := by
  rw [result, assignment, placed_bind]
  refine Gives.bind hchain reads_chain rfl hpos fun target pos' _ _ _ => ?_
  dsimp only
  split
  · rename_i op us hr
    refine gives_bind_of_eq (peekOperator_of_some hr) ?_
    dsimp only
    split
    · rw [placed_bind]
      obtain ⟨hlt, hc⟩ := Reader.advance_of_rest hr
      have hvalue := hnext (pos' + 1) (by omega) hlt
      refine gives_advance (Gives.bind hvalue reads_assignment hc hlt
        fun value pos₂ _ _ _ => ?_)
      dsimp only
      rw [placed_bind_value fun _ => rfl]
      exact gives_ofExcept (ofValues_assignTo _ _ _)
    · exact gives_pure target
  · rename_i hr
    exact gives_bind_of_eq (peekOperator_of_none hr) (gives_pure target)

theorem result_signed_eq_power (hnegate : ts[pos]?.bind Token.operator? = some .negate → False)
    (hnot : ts[pos]?.bind Token.operator? = some .not → False) :
    result U ts .signed pos = result U ts .power pos := by
  apply placed_signed_eq_power
  · intro us hr
    exact hnegate (bind_operator?_eq_some_iff.2 ⟨us, hr⟩)
  · intro us hr
    exact hnot (bind_operator?_eq_some_iff.2 ⟨us, hr⟩)

theorem gives_signed (hpower : Answered U ts answer pos .power)
    (hnext : AnsweredBehind U ts answer pos .signed) :
    Gives ts (signedStep ts answer) pos (result U ts .signed pos) := by
  refine gives_bind_of_eq peekOperator_run ?_
  split
  · rename_i heq
    obtain ⟨us, hr⟩ := bind_operator?_eq_some_iff.1 heq
    obtain ⟨hlt, hc⟩ := Reader.advance_of_rest hr
    have hoperand := hnext (pos + 1) (Nat.lt_succ_self pos) hlt
    rw [result, placed_signed_negate hr]
    refine gives_advance (gives_get ?_)
    refine Gives.bind hoperand reads_signed hc hlt fun e pos' _ _ _ => ?_
    exact gives_get (gives_pure _)
  · rename_i heq
    obtain ⟨us, hr⟩ := bind_operator?_eq_some_iff.1 heq
    obtain ⟨hlt, hc⟩ := Reader.advance_of_rest hr
    have hoperand := hnext (pos + 1) (Nat.lt_succ_self pos) hlt
    rw [result, placed_signed_not hr]
    refine gives_advance ?_
    refine Gives.bind hoperand reads_signed hc hlt fun e pos' _ _ _ => ?_
    exact gives_pure _
  · rename_i hnegate hnot
    exact result_signed_eq_power hnegate hnot ▸ hpower

/-- Behind the sign of a power there is a signed operand. -/
theorem gives_exponent (hsigned : Answered U ts answer pos .signed)
    (hpower : Answered U ts answer pos .power) :
    Gives ts (askExponent ts answer) pos (result U ts .signed pos) := by
  refine gives_bind_of_eq peekOperator_run ?_
  split
  · exact hsigned
  · exact hsigned
  · rename_i hnegate hnot
    exact result_signed_eq_power hnegate hnot ▸ hpower

theorem gives_power (hpos : pos ≤ ts.length) (htrailed : Answered U ts answer pos .trailed)
    (hsigned : AnsweredBehind U ts answer pos .signed)
    (hpower : AnsweredBehind U ts answer pos .power) :
    Gives ts (powerStep ts answer) pos (result U ts .power pos) := by
  rw [result, power_eq_trailed, placed_bind]
  refine Gives.bind htrailed reads_trailed rfl hpos fun base pos' _ _ _ => ?_
  dsimp only
  split
  · rename_i us hr
    obtain ⟨hlt, hc⟩ := Reader.advance_of_rest hr
    have hexponent := gives_exponent (hsigned (pos' + 1) (by omega) hlt)
      (hpower (pos' + 1) (by omega) hlt)
    rw [placed_bind]
    refine gives_bind_of_eq (peekOperator_of_some hr) (gives_advance ?_)
    refine Gives.bind hexponent reads_signed hc hlt fun e pos₂ _ _ _ => ?_
    exact gives_pure _
  · rename_i hr
    refine gives_bind_of_eq peekOperator_run ?_
    split
    · rename_i heq
      obtain ⟨us, hr'⟩ := bind_operator?_eq_some_iff.1 heq
      exact (hr _ hr').elim
    · exact gives_pure base

/-- An operand of a level is a chain of the next tighter level, or a signed operand. -/
theorem gives_operand {l : Level}
    (hchain : ∀ l', l.tighter? = some l' → Answered U ts answer pos (.chain l'))
    (hsigned : Answered U ts answer pos .signed) :
    Gives ts (askOperand answer l) pos (placed (operand U l (.atIndex ts pos))) := by
  rw [operand, askOperand]
  cases l with
  | product => exact hsigned
  | _ => exact hchain _ rfl

omit [Scalar R] in
/-- The connective at a position is the one at the reader there. -/
theorem connectiveAt?_atIndex (ts : List (Token R)) (l : Level) (pos : Nat) :
    l.connectiveAt? (.atIndex ts pos) =
      (connectiveAt? ts l pos).map fun kp => (kp.1, .atIndex ts kp.2) := by
  rw [Level.connectiveAt?, connectiveAt?]
  cases ht : ts[pos]? with
  | none => rw [rest_atIndex_of_none ht]; rfl
  | some t =>
    have hr := Reader.rest_atIndex ht
    rw [hr]
    cases t with
    | operator op =>
      dsimp only
      rw [(Reader.advance_of_rest hr).2]
      cases l.connective? op <;> rfl
    | _ =>
      dsimp only
      rw [apply_ite (Option.map _)]
      rfl

omit [Scalar R] in
/-- A connective takes at most the token at its position. -/
theorem le_of_connectiveAt? {l : Level} {k : Connective} {pos' : Nat} (hpos : pos ≤ ts.length)
    (h : connectiveAt? ts l pos = some (k, pos')) : pos ≤ pos' ∧ pos' ≤ ts.length := by
  rw [connectiveAt?] at h
  split at h
  · cases h
  · rename_i op hop
    obtain ⟨_, -, heq⟩ := Option.map_eq_some_iff.1 h
    obtain ⟨-, rfl⟩ := Prod.mk.inj heq
    exact ⟨Nat.le_succ pos, (List.getElem?_eq_some_iff.1 hop).1⟩
  · obtain ⟨-, h⟩ := Option.ite_none_right_eq_some.1 h
    obtain ⟨-, rfl⟩ := Prod.mk.inj (Option.some.inj h)
    exact ⟨Nat.le_refl pos, hpos⟩

/-- Joining operands behind a chain. -/
theorem gives_chainLoop {l : Level}
    (hoperand : ∀ pos', pos ≤ pos' → pos' ≤ ts.length →
      Gives ts (askOperand answer l) pos' (placed (operand U l (.atIndex ts pos'))))
    {n : Nat} (hn : ts.length - pos < n) (hpos : pos ≤ ts.length) (left : Expr R) :
    Gives ts (chainLoop ts answer l n left) pos
      (placed (chainRest U l left (.atIndex ts pos))) := by
  induction n generalizing pos left with
  | zero => exact absurd hn (Nat.not_lt_zero _)
  | succ n ih =>
    have hk := connectiveAt?_atIndex ts l pos
    refine gives_get ?_
    cases hc : connectiveAt? ts l pos with
    | none =>
      rw [hc] at hk
      rw [placed_chainRest_none hk]
      exact gives_pure left
    | some kp =>
      obtain ⟨k, pos'⟩ := kp
      obtain ⟨hle, hlt⟩ := le_of_connectiveAt? hpos hc
      rw [hc] at hk
      rw [placed_chainRest_some hk]
      refine gives_set (Gives.bind (hoperand pos' hle hlt) reads_operand rfl hlt
        fun right pos₂ h _ hle₂ => ?_)
      have hlt₂ := Reader.lt_of_length_rest h
      exact ih (fun pos₃ hle₃ => hoperand pos₃ (by omega)) (by omega) hle₂ _

theorem gives_chain {l : Level} (hpos : pos ≤ ts.length)
    (hoperand : ∀ pos', pos ≤ pos' → pos' ≤ ts.length →
      Gives ts (askOperand answer l) pos' (placed (operand U l (.atIndex ts pos'))))
    {n : Nat} (hn : ts.length - pos < n) :
    Gives ts (chainStep ts answer n l) pos (result U ts (.chain l) pos) := by
  rw [result, chain, placed_bind]
  refine Gives.bind (hoperand pos (Nat.le_refl _) hpos) reads_operand rfl hpos
    fun left pos' _ _ hle => ?_
  dsimp only
  rw [placed_bind_pass fun _ => rfl]
  exact gives_chainLoop (fun pos₂ hle₂ => hoperand pos₂ (by omega)) (by omega) hle left

/-- Applying trailing operators to an operand. -/
theorem gives_trailedLoop {n : Nat} (hn : ts.length - pos < n) (e : Expr R) :
    Gives ts (trailedLoop ts n e) pos (placed (trailing e (.atIndex ts pos))) := by
  induction n generalizing pos e with
  | zero => exact absurd hn (Nat.not_lt_zero _)
  | succ n ih =>
    refine gives_bind_of_eq peekOperator_run ?_
    cases ho : (ts[pos]?.bind Token.operator?).bind (trailed? e) with
    | none =>
      rw [placed_trailing_none fun op us hr => ?_]
      · exact gives_pure e
      · rw [bind_operator?_eq_some_iff.2 ⟨us, hr⟩] at ho
        exact ho
    | some x =>
      obtain ⟨op, hop, hx⟩ := Option.bind_eq_some_iff.1 ho
      obtain ⟨us, hr⟩ := bind_operator?_eq_some_iff.1 hop
      obtain ⟨hlt, hc⟩ := Reader.advance_of_rest hr
      rw [placed_trailing_some hr hx]
      cases x with
      | error z =>
        exact gives_bind_of_error rfl (reports_of_isOfTokens (ofValues_trailed? hx z rfl))
      | ok e' =>
        refine gives_bind_of_eq (a := e') rfl (gives_advance ?_)
        change Gives ts _ _ (placed (trailing e' (Reader.advance (.atIndex ts pos))))
        rw [hc]
        exact ih (by omega) e'

theorem gives_trailed (hpos : pos ≤ ts.length) (hprimary : Answered U ts answer pos .primary)
    {n : Nat} (hn : ts.length - pos < n) :
    Gives ts (trailedStep ts answer n) pos (result U ts .trailed pos) := by
  rw [result, trailed, placed_bind]
  refine Gives.bind hprimary reads_primary rfl hpos fun e pos' _ _ _ => ?_
  dsimp only
  rw [placed_bind_pass fun _ => rfl]
  exact gives_trailedLoop (by omega) e

/-- Collecting the members of a list. -/
theorem gives_listLoop {close : Delimiter}
    (hmember : ∀ pos', pos ≤ pos' → pos' ≤ ts.length → Answered U ts answer pos' .assignment)
    {n : Nat} (hn : ts.length - pos < n) (hpos : pos ≤ ts.length) (items : List (Expr R)) :
    Gives ts (listLoop ts answer close n items) pos
      ((fun q => (items ++ q.1, q.2)) <$> placed (members U close (.atIndex ts pos))) := by
  induction n generalizing pos items with
  | zero => exact absurd hn (Nat.not_lt_zero _)
  | succ n ih =>
    rw [placed_members, map_bind]
    refine Gives.bind (hmember pos (Nat.le_refl _) hpos) reads_assignment rfl hpos
      fun e pos' h _ _ => ?_
    have hlt := Reader.lt_of_length_rest h
    refine gives_next (fun t ht => ?_) fun ht => ?_
    · have hr := Reader.rest_atIndex ht
      dsimp only
      rw [hr]
      cases t with
      | delimiter d =>
        obtain ⟨hle', hc⟩ := Reader.advance_of_rest hr
        simp only [Token.delimiter?, Option.some.injEq]
        split
        · -- The items that have been collected stay in front of what follows.
          rw [hc]
          have hrest := ih (fun pos₂ hle₂ => hmember pos₂ (by omega)) (by omega) hle'
            (items ++ [e])
          simpa only [Functor.map_map, List.append_assoc, List.singleton_append] using hrest
        · split
          · exact gives_pure _
          · exact gives_refuseTaken ht _
      | _ =>
        simp only [Token.delimiter?, reduceCtorEq, if_false]
        exact gives_refuseTaken ht _
    · dsimp only
      rw [rest_atIndex_of_none ht]
      exact congrArg Except.error (unexpected_of_none ht _)

theorem gives_list {close : Delimiter} (hpos : pos ≤ ts.length)
    (hmember : ∀ pos', pos ≤ pos' → pos' ≤ ts.length → Answered U ts answer pos' .assignment)
    {n : Nat} (hn : ts.length - pos < n) :
    Gives ts (listStep ts answer n close) pos (result U ts (.list close) pos) := by
  rw [result]
  refine gives_bind_of_eq peek_run ?_
  split
  · rename_i hclose
    obtain ⟨us, hr⟩ := bind_delimiter?_eq_some_iff.1 hclose
    rw [placed_list_close hr]
    exact gives_advance (gives_pure _)
  · rename_i hclose
    rw [placed_list_members fun us hr => hclose (bind_delimiter?_eq_some_iff.2 ⟨us, hr⟩)]
    simpa only [List.nil_append, id_map'] using gives_listLoop hmember hn hpos []

theorem gives_call {f : String} {count : Nat}
    (hlist : ∀ close, AnsweredBehind U ts answer pos (.list close)) :
    Gives ts (callStep ts answer U f count) pos (result U ts (.call f count) pos) := by
  rw [result, called]
  refine gives_next (fun t ht => ?_) fun ht => ?_
  · have hr := Reader.rest_atIndex ht
    obtain ⟨hlt, hc⟩ := Reader.advance_of_rest hr
    rw [hr]
    cases t with
    | delimiter b =>
      dsimp only [Token.delimiter?, Option.bind_some]
      cases hb : b.closing? with
      | none => exact gives_refuseTaken ht _
      | some close =>
        dsimp only
        have hargs := hlist close (pos + 1) (Nat.lt_succ_self pos) hlt
        refine Gives.bind hargs (reads_list close) hc hlt fun args pos' _ _ _ => ?_
        dsimp only
        split
        · exact gives_ofExcept (ofValues_callOf f args)
        · exact gives_error rfl nofun
    | _ => exact gives_refuseTaken ht _
  · rw [rest_atIndex_of_none ht]
    exact congrArg Except.error (unexpected_of_none ht _)

theorem gives_primary (hassignment : AnsweredBehind U ts answer pos .assignment)
    (hlist : AnsweredBehind U ts answer pos (.list .closeBrace))
    (hcall : ∀ f count, AnsweredBehind U ts answer pos (.call f count)) :
    Gives ts (primaryStep ts answer) pos (result U ts .primary pos) := by
  rw [result, placed_primary]
  refine gives_next (fun t ht => ?_) fun ht => by rw [rest_atIndex_of_none ht]
  have hr := Reader.rest_atIndex ht
  obtain ⟨hlt, hc⟩ := Reader.advance_of_rest hr
  rw [hr]
  cases t with
  | number v =>
    refine gives_bind_of_eq peek_run ?_
    cases hu : ts[pos + 1]? with
    | none =>
      have hend : ts.drop (pos + 1) = [] := rest_atIndex_of_none hu
      rw [hend]
      exact gives_pure _
    | some t' =>
      have hnext : ts.drop (pos + 1) = t' :: ts.drop (pos + 1 + 1) := Reader.rest_atIndex hu
      rw [hnext]
      cases t' with
      | unit u => exact gives_advance (gives_pure _)
      | _ => exact gives_pure _
  | call f count =>
    dsimp only
    rw [hc]
    exact hcall f count (pos + 1) (Nat.lt_succ_self pos) hlt
  | delimiter d =>
    cases d with
    | openParen =>
      have hgroup := hassignment (pos + 1) (Nat.lt_succ_self pos) hlt
      dsimp only
      refine Gives.bind hgroup reads_assignment hc hlt fun e pos' _ _ _ => ?_
      refine gives_expectDelimiter (fun hclose => ?_) fun hclose => ?_
      · obtain ⟨us, hr'⟩ := bind_delimiter?_eq_some_iff.1 hclose
        dsimp only
        rw [hr']
        exact gives_pure e
      · dsimp only
        split
        · rename_i hr'
          exact absurd (bind_delimiter?_eq_some_iff.2 ⟨_, hr'⟩) hclose
        · rfl
    | openBrace =>
      have hitems := hlist (pos + 1) (Nat.lt_succ_self pos) hlt
      dsimp only
      refine Gives.bind hitems (reads_list .closeBrace) hc hlt fun items pos' _ _ _ => ?_
      exact gives_ofExcept (ofValues_collection items)
    | _ => exact gives_refuseTaken ht _
  | complex z => exact gives_pure _
  | truth b => exact gives_pure _
  | name x => exact gives_pure _
  | _ => exact gives_refuseTaken ht _

end Routines

end Descent

end SymbolicAlgebra
