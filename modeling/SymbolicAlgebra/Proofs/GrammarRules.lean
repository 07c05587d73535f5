import SymbolicAlgebra.Proofs.FormulaGrammar

set_option autoImplicit false

/-!
# When the functions of the grammar succeed

Each function of the grammar has a few rules that say when it succeeds, with which value, and
where it stops (`Yields`, with `Reader.past` for the reader behind a word of tokens). They are all
that the proofs about parsing have to know of the code. What decides between the rules is the token
ahead, and so is how a word starts (`startsOperand`, `startsPhrase`).
-/

namespace SymbolicAlgebra

variable {R : Type}

/-! ## Readers behind words -/

namespace Reader

/-- The reader behind the word `w`, with the tokens `rest` ahead. -/
def past (c : Reader R) (w rest : List (Token R)) : Reader R :=
  ⟨c.index + w.length, w.getLast?.or c.last?, rest⟩

@[simp] theorem rest_past (c : Reader R) (w rest : List (Token R)) :
    (c.past w rest).rest = rest := rfl

@[simp] theorem index_past (c : Reader R) (w rest : List (Token R)) :
    (c.past w rest).index = c.index + w.length := rfl

theorem advance_eq {c : Reader R} {t : Token R} {ts : List (Token R)} (h : c.rest = t :: ts) :
    c.advance = c.past [t] ts := by
  unfold advance
  rw [h]
  rfl

@[simp] theorem past_past (c : Reader R) (w w' rest rest' : List (Token R)) :
    (c.past w rest).past w' rest' = c.past (w ++ w') rest' := by
  simp only [past, List.length_append, List.getLast?_append, Nat.add_assoc, mk.injEq, and_true,
    true_and]
  cases w'.getLast? <;> rfl

theorem advance_past (c : Reader R) (w : List (Token R)) (t : Token R)
    (ts : List (Token R)) : (c.past w (t :: ts)).advance = c.past (w ++ [t]) ts := by
  rw [advance_eq (rest_past ..), past_past]

theorem advance_advance_eq {c : Reader R} {t u : Token R} {ts : List (Token R)}
    (h : c.rest = t :: u :: ts) : c.advance.advance = c.past [t, u] ts := by
  rw [advance_eq h, advance_past]
  rfl

end Reader

/-! ## Success -/

/-- The function of the grammar succeeds with the value `a` and stops at the reader `c`. -/
def Yields {α : Type} {P : α × Reader R → Prop}
    (x : Except ParseError { p : α × Reader R // P p }) (a : α) (c : Reader R) : Prop :=
  x.map (·.1) = .ok (a, c)

/-- Success comes with the bound that the function of the grammar carries. -/
theorem Yields.eq_ok {α : Type} {P : α × Reader R → Prop}
    {x : Except ParseError { p : α × Reader R // P p }} {a : α} {c : Reader R}
    (h : Yields x a c) : ∃ hp, x = .ok ⟨(a, c), hp⟩ := by
  cases x with
  | error y => cases h
  | ok p =>
    obtain ⟨p, hp⟩ := p
    obtain rfl : p = (a, c) := Except.ok.inj h
    exact ⟨hp, rfl⟩

/-- Whether a bracket closes or a comma follows, or nothing: an expression ends there. -/
def endsGroup (rest : List (Token R)) : Bool :=
  rest.head?.all fun
    | .delimiter d => !d.isOpen
    | _ => false

/-- Whether the token ahead is no unit. -/
def startsNoUnit (rest : List (Token R)) : Bool :=
  rest.head?.all fun
    | .unit _ => false
    | _ => true

theorem startsNoUnit_of_endsGroup {rest : List (Token R)} (h : endsGroup rest = true) :
    startsNoUnit rest = true := by
  cases rest with
  | nil => rfl
  | cons t ts => cases t <;> first | rfl | exact h

theorem ne_operator_of_endsGroup {rest : List (Token R)} (h : endsGroup rest = true)
    (op : Operator) (ts : List (Token R)) : rest ≠ .operator op :: ts := by
  rintro rfl
  cases h

/-- An operator goes on with a chain where it is a connective of its level. -/
theorem Level.connectiveAt?_operator {l : Level} {c : Reader R} {op : Operator}
    {ts : List (Token R)} (h : c.rest = .operator op :: ts) :
    l.connectiveAt? c = (l.connective? op).map (·, c.advance) := by
  unfold connectiveAt?
  rw [h]

/-- A chain ends where an expression does. -/
theorem Level.connectiveAt?_endsGroup {l : Level} {c : Reader R}
    (h : endsGroup c.rest = true) : l.connectiveAt? c = none := by
  unfold connectiveAt?
  cases hc : c.rest with
  | nil => rfl
  | cons t ts =>
    rw [hc] at h
    cases t with
    | delimiter d =>
      have hj : ∀ b : Token R, juxtaposed b (.delimiter d) = false := by
        intro b
        cases d <;> first | rfl | cases h
      cases c.last? <;> simp [hj]
    | _ => cases h

namespace Grammar

variable [Scalar R] {U : FunctionTable R} {c c₁ c₂ c₃ : Reader R} {e e' e'' : Expr R}

/-! ## Trailing operators, powers and signs -/

/-- An operand without a trailing operator behind it is left as it is. -/
theorem yields_trailing_none
    (h : ∀ op ts, c.rest = .operator op :: ts → trailed? e op = none) :
    Yields (trailing e c) e c := by
  obtain ⟨i, l, r⟩ := c
  unfold Yields
  rw [trailing]
  cases r with
  | nil => rfl
  | cons t ts =>
    cases t with
    | operator op =>
      have he : trailed? e op = none := h op ts rfl
      simp only [he]
      rfl
    | _ => rfl

/-- A trailing operator is applied before those behind it. -/
theorem yields_trailing_some {op : Operator} {ts : List (Token R)}
    (hc : c.rest = .operator op :: ts) (he : trailed? e op = some (.ok e'))
    (h : Yields (trailing e' c.advance) e'' c₁) : Yields (trailing e c) e'' c₁ := by
  obtain ⟨hl, h⟩ := h.eq_ok
  obtain ⟨i, l, r⟩ := c
  obtain rfl : r = .operator op :: ts := hc
  unfold Yields
  rw [trailing]
  simp only [he, h]
  rfl

/-- A primary with its trailing operators is a power where no exponent follows. -/
theorem yields_power (h : Yields (primary U c) e c₁) (h' : Yields (trailing e c₁) e' c₂)
    (hc : ∀ ts, c₂.rest ≠ .operator .power :: ts) : Yields (power U c) e' c₂ := by
  obtain ⟨hl, h⟩ := h.eq_ok
  obtain ⟨hl', h'⟩ := h'.eq_ok
  unfold Yields
  rw [power, h]
  simp only [bind, Except.bind, h']
  rfl

/-- The exponent of a power is a signed operand. -/
theorem yields_power_exponent {ts : List (Token R)} (h : Yields (primary U c) e c₁)
    (h' : Yields (trailing e c₁) e' c₂) (hc : c₂.rest = .operator .power :: ts)
    (hx : Yields (signed U c₂.advance) e'' c₃) : Yields (power U c) (.pow e' e'') c₃ := by
  obtain ⟨hl, h⟩ := h.eq_ok
  obtain ⟨hl', h'⟩ := h'.eq_ok
  obtain ⟨hlx, hx⟩ := hx.eq_ok
  unfold Yields
  rw [power, h]
  simp only [bind, Except.bind, h']
  split
  · rw [hx]
    rfl
  · rename_i hne
    exact absurd hc (hne ts)

/-- A power without a sign before it is a signed operand. -/
theorem yields_signed (hc : ∀ op ts, c.rest = .operator op :: ts → op ≠ .negate ∧ op ≠ .not)
    (h : Yields (power U c) e c₁) : Yields (signed U c) e c₁ := by
  obtain ⟨hl, h⟩ := h.eq_ok
  obtain ⟨i, l, r⟩ := c
  have hp : ∀ x, power U ⟨i, l, r⟩ = .ok x → (do
      let ⟨p, h⟩ ← power U ⟨i, l, r⟩
      (pure ⟨p, h⟩ : Except ParseError (Shorter R (Expr R) r.length))) = .ok x := by
    intro x hx
    rw [hx]
    rfl
  unfold Yields
  rw [signed]
  cases r with
  | nil => exact congrArg (Except.map (·.1)) (hp _ h)
  | cons t ts =>
    cases t with
    | operator op =>
      have hop : op ≠ .negate ∧ op ≠ .not := hc op ts rfl
      cases op with
      | negate => exact absurd rfl hop.1
      | not => exact absurd rfl hop.2
      | _ => exact congrArg (Except.map (·.1)) (hp _ h)
    | _ => exact congrArg (Except.map (·.1)) (hp _ h)

/-- A minus sign negates the signed operand behind it. -/
theorem yields_signed_negate {ts : List (Token R)} (hc : c.rest = .operator .negate :: ts)
    (h : Yields (signed U c.advance) e c₁) :
    Yields (signed U c) (negated e (c₁.index - c.advance.index)) c₁ := by
  obtain ⟨hl, h⟩ := h.eq_ok
  obtain ⟨i, l, r⟩ := c
  obtain rfl : r = .operator .negate :: ts := hc
  unfold Yields
  rw [signed]
  simp only [bind, Except.bind, h]
  rfl

/-- A negation of truth values negates the signed operand behind it. -/
theorem yields_signed_not {ts : List (Token R)} (hc : c.rest = .operator .not :: ts)
    (h : Yields (signed U c.advance) e c₁) : Yields (signed U c) (.unary .not e) c₁ := by
  obtain ⟨hl, h⟩ := h.eq_ok
  obtain ⟨i, l, r⟩ := c
  obtain rfl : r = .operator .not :: ts := hc
  unfold Yields
  rw [signed]
  simp only [bind, Except.bind, h]
  rfl

/-! ## Chains -/

/-- The rest of a chain is empty where no connective of the level is ahead. -/
theorem yields_chainRest_nil {l : Level} (hk : l.connectiveAt? c = none) :
    Yields (chainRest U l e c) e c := by
  unfold Yields
  rw [chainRest]
  split
  · rfl
  · rename_i k c' hk'
    rw [hk] at hk'
    cases hk'

/-- A connective of the level joins the operand behind it to the chain. -/
theorem yields_chainRest_cons {l : Level} {k : Connective}
    (hk : l.connectiveAt? c = some (k, c₁)) (h : Yields (operand U l c₁) e' c₂)
    (h' : Yields (chainRest U l (k.combine e e') c₂) e'' c₃) :
    Yields (chainRest U l e c) e'' c₃ := by
  obtain ⟨hl, h⟩ := h.eq_ok
  obtain ⟨hl', h'⟩ := h'.eq_ok
  unfold Yields
  rw [chainRest]
  split
  · rename_i hk'
    rw [hk] at hk'
    cases hk'
  · rename_i k₀ c₀ hk'
    rw [hk] at hk'
    obtain ⟨rfl, rfl⟩ := Prod.mk.inj (Option.some.inj hk')
    simp only [bind, Except.bind, h, h']
    rfl

/-- A chain is an operand and the rest behind it. -/
theorem yields_chain {l : Level} (h : Yields (operand U l c) e c₁)
    (h' : Yields (chainRest U l e c₁) e' c₂) : Yields (chain U l c) e' c₂ := by
  obtain ⟨hl, h⟩ := h.eq_ok
  obtain ⟨hl', h'⟩ := h'.eq_ok
  unfold Yields
  rw [chain, h]
  simp only [bind, Except.bind, h']
  rfl

/-- The operands of a level are the chains of the next tighter one. -/
theorem yields_operand_chain {l l' : Level} (hl : l.tighter? = some l')
    (h : Yields (chain U l' c) e c₁) : Yields (operand U l c) e c₁ := by
  unfold Yields
  rw [operand]
  split
  · rename_i l₀ hl'
    rw [hl] at hl'
    obtain rfl := Option.some.inj hl'
    exact h
  · rename_i hl'
    rw [hl] at hl'
    cases hl'

/-- The operands of the tightest level are signed operands. -/
theorem yields_operand_signed {l : Level} (hl : l.tighter? = none)
    (h : Yields (signed U c) e c₁) : Yields (operand U l c) e c₁ := by
  unfold Yields
  rw [operand]
  split
  · rename_i l₀ hl'
    rw [hl] at hl'
    cases hl'
  · exact h

omit [Scalar R] in
/-- An operator is a connective of one level only. -/
theorem connective?_eq_none {l l' : Level} {op : Operator} {k : Connective}
    (h : l.connective? op = some k) (hl : l' ≠ l) : l'.connective? op = none := by
  cases l <;> cases op <;> first
    | (cases h; done)
    | (cases l' <;> first | rfl | exact absurd rfl hl)

/-! ## Assignments -/

/-- A chain without an assignment operator behind it is an assignment. -/
theorem yields_assignment (h : Yields (chain U .disjunction c) e c₁)
    (hc : ∀ op ts, c₁.rest = .operator op :: ts → op.isAssignment = false) :
    Yields (assignment U c) e c₁ := by
  obtain ⟨hl, h⟩ := h.eq_ok
  unfold Yields
  rw [assignment, h]
  simp only [bind, Except.bind]
  split
  · rename_i op ts hc'
    rw [if_neg (by simp [hc op ts hc'])]
    rfl
  · rfl

/-- An assignment operator assigns the assignment behind it. -/
theorem yields_assignment_assign {op : Operator} {ts : List (Token R)}
    (h : Yields (chain U .disjunction c) e c₁) (hc : c₁.rest = .operator op :: ts)
    (ho : op.isAssignment = true) (h' : Yields (assignment U c₁.advance) e' c₂)
    (he : assignTo op e e' = .ok e'') : Yields (assignment U c) e'' c₂ := by
  obtain ⟨hl, h⟩ := h.eq_ok
  obtain ⟨hl', h'⟩ := h'.eq_ok
  unfold Yields
  rw [assignment, h]
  simp only [bind, Except.bind]
  split
  · rename_i op' ts' hc'
    obtain ⟨rfl, rfl⟩ : op' = op ∧ ts' = ts := by
      rw [hc] at hc'
      cases hc'
      exact ⟨rfl, rfl⟩
    rw [if_pos ho, h']
    simp only [he]
    rfl
  · rename_i hne
    exact absurd hc (hne op ts)

/-! ## Primaries and lists -/

/-- A number without a unit behind it is a real literal. -/
theorem yields_number {v : R} {ts : List (Token R)} (hc : c.rest = .number v :: ts)
    (hu : startsNoUnit ts = true) : Yields (primary U c) (.number v) c.advance := by
  obtain ⟨i, l, r⟩ := c
  obtain rfl : r = .number v :: ts := hc
  unfold Yields
  rw [primary]
  cases ts with
  | nil => rfl
  | cons t ts => cases t <;> first | rfl | cases hu

/-- A number with a unit behind it is a quantity. -/
theorem yields_quantity {v : R} {u : MeasureUnit} {ts : List (Token R)}
    (hc : c.rest = .number v :: .unit u :: ts) :
    Yields (primary U c) (.quantity ⟨v, u⟩) c.advance.advance := by
  obtain ⟨i, l, r⟩ := c
  obtain rfl : r = .number v :: .unit u :: ts := hc
  unfold Yields
  rw [primary]
  rfl

/-- A complex literal stands for itself. -/
theorem yields_complex {z : ComplexNumber R} {ts : List (Token R)}
    (hc : c.rest = .complex z :: ts) : Yields (primary U c) (.complex z) c.advance := by
  obtain ⟨i, l, r⟩ := c
  obtain rfl : r = .complex z :: ts := hc
  unfold Yields
  rw [primary]
  rfl

/-- A truth value stands for itself. -/
theorem yields_truth {b : Bool} {ts : List (Token R)} (hc : c.rest = .truth b :: ts) :
    Yields (primary U c) (.truth b) c.advance := by
  obtain ⟨i, l, r⟩ := c
  obtain rfl : r = .truth b :: ts := hc
  unfold Yields
  rw [primary]
  rfl

/-- A name is a variable. -/
theorem yields_name {x : String} {ts : List (Token R)} (hc : c.rest = .name x :: ts) :
    Yields (primary U c) (.var x) c.advance := by
  obtain ⟨i, l, r⟩ := c
  obtain rfl : r = .name x :: ts := hc
  unfold Yields
  rw [primary]
  rfl

/-- Parentheses stand for the assignment between them. -/
theorem yields_group {ts ts' : List (Token R)} (hc : c.rest = .delimiter .openParen :: ts)
    (h : Yields (assignment U c.advance) e c₁)
    (hc' : c₁.rest = .delimiter .closeParen :: ts') :
    Yields (primary U c) e c₁.advance := by
  obtain ⟨hl, h⟩ := h.eq_ok
  obtain ⟨i, l, r⟩ := c
  obtain rfl : r = .delimiter .openParen :: ts := hc
  obtain ⟨i', l', r'⟩ := c₁
  obtain rfl : r' = .delimiter .closeParen :: ts' := hc'
  unfold Yields
  rw [primary]
  simp only [bind, Except.bind, h]
  rfl

/-- Braces stand for the collection of what is listed between them. -/
theorem yields_list {ts : List (Token R)} {es : List (Expr R)}
    (hc : c.rest = .delimiter .openBrace :: ts)
    (h : Yields (list U .closeBrace c.advance) es c₁) (he : collection es = .ok e) :
    Yields (primary U c) e c₁ := by
  obtain ⟨hl, h⟩ := h.eq_ok
  obtain ⟨i, l, r⟩ := c
  obtain rfl : r = .delimiter .openBrace :: ts := hc
  unfold Yields
  rw [primary]
  simp only [bind, Except.bind, h, he]
  rfl

/-- A call stands for the function of the arguments listed between its brackets. -/
theorem yields_call {f : String} {b b' : Delimiter} {ts : List (Token R)}
    {es : List (Expr R)} (hc : c.rest = .call f es.length :: .delimiter b :: ts)
    (hb : b.closing? = some b') (h : Yields (list U b' c.advance.advance) es c₁)
    (he : callOf U f es = .ok e) : Yields (primary U c) e c₁ := by
  obtain ⟨hl, h⟩ := h.eq_ok
  obtain ⟨i, l, r⟩ := c
  obtain rfl : r = .call f es.length :: .delimiter b :: ts := hc
  unfold Yields
  rw [primary]
  simp only [hb, bind, Except.bind, h, he, ↓reduceIte]
  rfl

/-- A list is empty where its bracket closes at once. -/
theorem yields_list_nil {b : Delimiter} {ts : List (Token R)}
    (hc : c.rest = .delimiter b :: ts) : Yields (list U b c) [] c.advance := by
  obtain ⟨i, l, r⟩ := c
  obtain rfl : r = .delimiter b :: ts := hc
  unfold Yields
  rw [list]
  simp only [↓reduceIte]
  rfl

/-- A list whose bracket does not close at once has members. -/
theorem yields_list_members {b : Delimiter} {es : List (Expr R)}
    (hc : ∀ ts, c.rest ≠ .delimiter b :: ts) (h : Yields (members U b c) es c₁) :
    Yields (list U b c) es c₁ := by
  obtain ⟨hl, h⟩ := h.eq_ok
  obtain ⟨i, l, r⟩ := c
  have hm : ∀ x, members U b ⟨i, l, r⟩ = .ok x → (do
      let ⟨p, h⟩ ← members U b ⟨i, l, r⟩
      (pure ⟨p, h⟩ : Except ParseError (Shorter R (List (Expr R)) r.length))) = .ok x := by
    intro x hx
    rw [hx]
    rfl
  unfold Yields
  rw [list]
  cases r with
  | nil => exact congrArg (Except.map (·.1)) (hm _ h)
  | cons t ts =>
    cases t with
    | delimiter d =>
      have hd : d ≠ b := by
        rintro rfl
        exact hc ts rfl
      simp only [hd, ↓reduceIte]
      exact congrArg (Except.map (·.1)) (hm _ h)
    | _ => exact congrArg (Except.map (·.1)) (hm _ h)

/-- The last member stands before the closing bracket. -/
theorem yields_members_one {b : Delimiter} {ts : List (Token R)} (hb : b ≠ .comma)
    (h : Yields (assignment U c) e c₁) (hc : c₁.rest = .delimiter b :: ts) :
    Yields (members U b c) [e] c₁.advance := by
  obtain ⟨hl, h⟩ := h.eq_ok
  obtain ⟨i', l', r'⟩ := c₁
  obtain rfl : r' = .delimiter b :: ts := hc
  unfold Yields
  rw [members, h]
  simp only [bind, Except.bind, hb, ↓reduceIte]
  rfl

/-- A member that is not the last one stands before a comma. -/
theorem yields_members_cons {b : Delimiter} {ts : List (Token R)} {es : List (Expr R)}
    (h : Yields (assignment U c) e c₁) (hc : c₁.rest = .delimiter .comma :: ts)
    (h' : Yields (members U b c₁.advance) es c₂) : Yields (members U b c) (e :: es) c₂ := by
  obtain ⟨hl, h⟩ := h.eq_ok
  obtain ⟨hl', h'⟩ := h'.eq_ok
  obtain ⟨i', l', r'⟩ := c₁
  obtain rfl : r' = .delimiter .comma :: ts := hc
  unfold Yields
  rw [members, h]
  simp only [bind, Except.bind, ↓reduceIte, h']
  rfl

/-! ## Signed operands without trailing operators -/

/-- A primary without a sign before it and without a trailing operator or exponent behind
it is a signed operand. -/
theorem yields_signed_primary (hc : ∀ op ts, c.rest ≠ .operator op :: ts)
    (h : Yields (primary U c) e c₁)
    (hr : ∀ op ts, c₁.rest = .operator op :: ts → op.isInfix = true ∧ op ≠ .power) :
    Yields (signed U c) e c₁ := by
  have ht : Yields (trailing e c₁) e c₁ := by
    refine yields_trailing_none fun op ts hop => ?_
    have hi := (hr op ts hop).1
    cases op <;> first | rfl | cases hi
  refine yields_signed (fun op ts hop => absurd hop (hc op ts)) (yields_power h ht ?_)
  intro ts hop
  exact (hr .power ts hop).2 rfl

end Grammar

/-! ## How words of tokens start -/

/-- Whether the tokens start neither with an operator nor with a closing bracket. -/
def startsOperand (ts : List (Token R)) : Bool :=
  ts.head?.any fun
    | .operator _ => false
    | .delimiter d => d.isOpen
    | _ => true

/-- Whether the tokens start with no closing bracket and no comma. -/
def startsPhrase (ts : List (Token R)) : Bool :=
  ts.head?.any fun
    | .delimiter d => d.isOpen
    | _ => true

theorem startsPhrase_of_startsOperand {ts : List (Token R)} (h : startsOperand ts = true) :
    startsPhrase ts = true := by
  cases ts with
  | nil => exact h
  | cons t ts => cases t <;> first | rfl | exact h

theorem ne_operator_of_startsOperand {ts : List (Token R)} (h : startsOperand ts = true)
    (op : Operator) (ts' : List (Token R)) : ts ≠ .operator op :: ts' := by
  rintro rfl
  cases h

theorem ne_close_of_startsPhrase {ts : List (Token R)} (h : startsPhrase ts = true)
    {b : Delimiter} (hb : b.isClose = true) (ts' : List (Token R)) :
    ts ≠ .delimiter b :: ts' := by
  rintro rfl
  cases b <;> first | (cases hb; done) | cases h

end SymbolicAlgebra
