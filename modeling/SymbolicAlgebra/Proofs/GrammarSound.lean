import Mathlib.Data.List.Basic
import SymbolicAlgebra.Proofs.GrammarComplete

set_option autoImplicit false

/-!
# What the parser reads, the grammar derives

Each function of the grammar takes a word of tokens that the grammar derives for the value
that the function gives (`Grammar.Reads`). Where a function fails at the end of the tokens, an
operand is missing there, or the tokens end behind the name of a call or within a group that has
not been closed. Both are proved together, along the recursion of the parser, with one rule for
each step; what is refused because of the values that it is computed from is neither
(`Grammar.OfValues`).

With the completeness of the parser this gives `Grammar.parse_eq_ok_iff_isAssignment`: the parser
gives an expression for a sequence of tokens exactly where the grammar derives the sequence for
the expression.
-/

namespace SymbolicAlgebra

variable {R : Type}

/-- Whether something is refused because of the tokens: there are none, one of them cannot stand
where it stands, or something is missing at their end. -/
def ParseError.isOfTokens : ParseError → Bool
  | .emptyInput | .unexpectedToken _ _ | .unexpectedEnd _ => true
  | _ => false

namespace Grammar

/-- What is computed from values is refused because of these values only. -/
def OfValues {α : Type} (x : Except ParseError α) : Prop :=
  ∀ z, x = .error z → z.isOfTokens = false

theorem ofValues_ok {α : Type} (a : α) : OfValues (.ok a) := nofun

theorem ofValues_error {α : Type} {z : ParseError} (h : z.isOfTokens = false) :
    OfValues (.error z : Except ParseError α) :=
  fun _ h' => Except.error.inj h' ▸ h

/-! ## Reading a word -/

/-- Where the function of the grammar succeeds, it has taken a word that has the property `G`
together with its value. Where it misses something other than an operand at the end of the
tokens, the tokens ahead have the property `E`. -/
structure Reads {α : Type} {Q : α × Reader R → Prop} (c : Reader R)
    (G : List (Token R) → α → Prop) (E : List (Token R) → Prop)
    (x : Except ParseError { p : α × Reader R // Q p }) : Prop where
  /-- The word that is taken. -/
  ok : ∀ p, x = .ok p → ∃ w, c.Follows w p.1.2 ∧ G w p.1.1
  /-- The tokens at whose end something is missing. -/
  error : ∀ y, x = .error (.unexpectedEnd y) → y = .operand ∨ E c.rest

section Rules

variable {α β γ : Type} {Q : α × Reader R → Prop} {Q' : β × Reader R → Prop} {c c₁ : Reader R}
  {G G₁ : List (Token R) → α → Prop} {G' : List (Token R) → β → Prop}
  {E E₁ : List (Token R) → Prop} {x : Except ParseError { p : α × Reader R // Q p }}

/-- A value that takes no tokens. -/
theorem reads_ok {a : α} {h : Q (a, c)} (ha : G [] a) :
    Reads c G E (.ok ⟨(a, c), h⟩ : Except ParseError { p : α × Reader R // Q p }) where
  ok p hp := by
    rw [← Except.ok.inj hp]
    exact ⟨[], Reader.Follows.refl c, ha⟩
  error _ hy := nomatch hy

/-- A failure at the reader, unless the tokens end there. -/
theorem reads_unexpected [Scalar R] {y : Expectation} (h : c.rest = [] → y = .operand ∨ E []) :
    Reads c G E (.error (unexpected c y) : Except ParseError { p : α × Reader R // Q p }) where
  ok _ hp := nomatch hp
  error z hz := by
    unfold unexpected at hz
    split at hz
    · cases hz
    · rename_i hr
      obtain rfl : y = z := ParseError.unexpectedEnd.inj (Except.error.inj hz)
      rw [hr]
      exact h hr

/-- A failure that comes from values. -/
theorem reads_error {z : ParseError} (hz : z.isOfTokens = false) :
    Reads c G E (.error z : Except ParseError { p : α × Reader R // Q p }) where
  ok _ hp := nomatch hp
  error y hy := by
    rw [Except.error.inj hy] at hz
    cases hz

theorem Reads.imp (h : Reads c G₁ E₁ x) (hG : ∀ w a, G₁ w a → G w a)
    (hE : ∀ ts, E₁ ts → E ts) : Reads c G E x where
  ok p hp := by
    obtain ⟨w, hw, ha⟩ := h.ok p hp
    exact ⟨w, hw, hG w _ ha⟩
  error y hy := (h.error y hy).imp_right (hE _)

/-- What is said of the end of the tokens may be weakened. -/
theorem Reads.weaken (h : Reads c G E₁ x) (hE : ∀ ts, E₁ ts → E ts) : Reads c G E x :=
  h.imp (fun _ _ ha => ha) hE

/-- What is read behind a word. -/
theorem Reads.of_follows {w : List (Token R)} (hw : c.Follows w c₁)
    (h : Reads c₁ (fun w' a => G (w ++ w') a) (fun ts => E (w ++ ts)) x) : Reads c G E x where
  ok p hp := by
    obtain ⟨w', hw', ha⟩ := h.ok p hp
    exact ⟨w ++ w', hw.trans hw', ha⟩
  error y hy := by
    rw [hw.1]
    exact h.error y hy

/-- What is read behind the token ahead. -/
theorem Reads.of_advance {t : Token R} {ts : List (Token R)} (ht : c.rest = t :: ts)
    (h : Reads c.advance (fun w a => G (t :: w) a) (fun ts => E (t :: ts)) x) :
    Reads c G E x :=
  .of_follows (Reader.follows_advance ht) h

/-- A step goes on behind the word that the step before it takes. -/
theorem Reads.bind {f : { p : α × Reader R // Q p } →
      Except ParseError { p : β × Reader R // Q' p }} (hx : Reads c G E x)
    (hf : ∀ w a c₁ h, c.Follows w c₁ → G w a →
      Reads c₁ (fun w' b => G' (w ++ w') b) (fun ts => E (w ++ ts)) (f ⟨(a, c₁), h⟩)) :
    Reads c G' E (x >>= f) := by
  cases hres : x with
  | error z =>
    constructor
    · intro p hp
      cases hp
    · intro y hy
      obtain rfl : z = .unexpectedEnd y := Except.error.inj hy
      exact hx.error y hres
  | ok p =>
    obtain ⟨⟨a, c₁⟩, h⟩ := p
    obtain ⟨w, hw, ha⟩ := hx.ok _ hres
    exact .of_follows hw (hf w a c₁ h hw ha)

/-- A step goes on with a value that takes no tokens. -/
theorem reads_bind {x : Except ParseError γ}
    {f : γ → Except ParseError { p : β × Reader R // Q' p }}
    (hx : OfValues x) (hf : ∀ a, x = .ok a → Reads c G' E (f a)) :
    Reads c G' E (x >>= f) := by
  cases hres : x with
  | error z => exact reads_error (hx z hres)
  | ok a => exact hf a hres

end Rules

/-! ## Failures that come from values -/

section Failures

variable [Scalar R] {U : FunctionTable R}

theorem ofValues_trailed? {e : Expr R} {op : Operator} {x : Except ParseError (Expr R)}
    (h : trailed? e op = some x) : OfValues x := by
  cases op <;> simp only [trailed?, updated, reduceCtorEq, Option.some.injEq] at h <;> subst h
  case factorial => exact ofValues_ok _
  all_goals
    split
    · exact ofValues_ok _
    · exact ofValues_error rfl

omit [Scalar R] in
theorem ofValues_mapError_shape {x : Except ShapeError (Expr R)} :
    OfValues (x.mapError ParseError.shape) := by
  cases x with
  | ok e => exact ofValues_ok e
  | error z => exact ofValues_error rfl

omit [Scalar R] in
theorem ofValues_collection (es : List (Expr R)) : OfValues (collection es) := by
  unfold collection
  split
  · exact ofValues_mapError_shape
  · exact ofValues_ok _

theorem ofValues_defineTo (e e' : Expr R) : OfValues (Builtin.defineTo e e') := by
  unfold Builtin.defineTo
  split
  · exact ofValues_ok _
  · exact ofValues_error rfl

theorem ofValues_assignTo (op : Operator) (e e' : Expr R) : OfValues (assignTo op e e') := by
  cases op <;> first
    | exact ofValues_defineTo e e'
    | (simp only [assignTo]
       split
       · exact ofValues_ok _
       · exact ofValues_error rfl)

theorem ofValues_undefineOf (e : Expr R) : OfValues (Builtin.undefineOf e) := by
  unfold Builtin.undefineOf
  split
  · exact ofValues_ok _
  · exact ofValues_ok _
  · exact ofValues_error rfl

theorem ofValues_derivativeBy (e x : Expr R) : OfValues (Builtin.derivativeBy e x) := by
  unfold Builtin.derivativeBy
  split
  · exact ofValues_ok _
  · exact ofValues_error rfl

theorem ofValues_build (f : String) (b : Builtin) (es : List (Expr R)) :
    OfValues (b.build f es) := by
  unfold Builtin.build
  split <;> first
    | exact ofValues_mapError_shape
    | exact ofValues_defineTo _ _
    | exact ofValues_undefineOf _
    | exact ofValues_derivativeBy _ _
    | exact ofValues_ok _
    | exact ofValues_error rfl

theorem ofValues_callOf (f : String) (es : List (Expr R)) : OfValues (callOf U f es) := by
  have hmismatch : OfValues (.error (.arityMismatch f es.length) : Except ParseError (Expr R)) :=
    ofValues_error rfl
  unfold callOf
  split
  · split
    · exact ofValues_build f _ es
    · split
      · exact ofValues_ok _
      · exact hmismatch
  · split
    · exact ofValues_ok _
    · split
      · exact hmismatch
      · exact ofValues_ok _

end Failures

/-! ## The functions of the grammar -/

variable [Scalar R] {U : FunctionTable R}

/-- The tokens end behind the name of a call, or behind members of a group that has not been
closed. -/
inductive EndsOpen (U : FunctionTable R) : List (Token R) → Prop where
  | call (w : List (Token R)) (f : String) (n : Nat) : EndsOpen U (w ++ [.call f n])
  | group (w : List (Token R)) {b : Delimiter} {w' : List (Token R)} {es : List (Expr R)}
      (hb : b.isOpen = true) (h : IsMembers U w' es) :
      EndsOpen U (w ++ .delimiter b :: w')

theorem EndsOpen.append {ts : List (Token R)} (h : EndsOpen U ts) (w : List (Token R)) :
    EndsOpen U (w ++ ts) := by
  cases h with
  | call w' f n =>
    rw [← List.append_assoc]
    exact .call _ f n
  | group w' hb h =>
    rw [← List.append_assoc]
    exact .group _ hb h

theorem EndsOpen.cons {ts : List (Token R)} (h : EndsOpen U ts) (t : Token R) :
    EndsOpen U (t :: ts) :=
  h.append [t]

/-- A signed operand without a sign is a power. -/
theorem IsSigned.isPower {w : List (Token R)} {e : Expr R} (h : IsSigned U w e)
    (hs : startsWithSign w = false) : IsPower U w e := by
  cases h with
  | power h => exact h
  | negateLiteral _ | negate _ _ | not _ => cases hs

/-- A bare literal is a signed operand for no other expression: it is read in one way. -/
theorem IsSigned.eq_of_bareLiteral {w : List (Token R)} {e e' n : Expr R}
    (h : IsSigned U w e) (hb : BareLiteral w e' n) : e = e' := by
  have hw : (Reader.start w).rest = w ++ [] := (List.append_nil w).symm
  have hs : ((Reader.start w).past w []).Stops 0 := Reader.stops_of_endsGroup rfl
  have hy := (h.yields hw hs).symm.trans (hb.yields_signed hw hs)
  exact (Prod.mk.inj (Except.ok.inj hy)).1

/-- A minus sign before a signed operand, which may be a bare literal. -/
theorem IsSigned.negated {w : List (Token R)} {e : Expr R} (h : IsSigned U w e) :
    IsSigned U (.operator .negate :: w) (Grammar.negated e w.length) := by
  by_cases hw : ∃ e' n, BareLiteral w e' n
  · obtain ⟨e', n, hb⟩ := hw
    rw [h.eq_of_bareLiteral hb, hb.negated_eq]
    exact .negateLiteral hb
  · have hb : ∀ e n, ¬ BareLiteral w e n := fun e n hn => hw ⟨e, n, hn⟩
    rw [h.negated_eq hb]
    exact .negate h hb

omit [Scalar R] in
/-- Before a connective there is an operator, or two tokens side by side. -/
theorem connectiveAt?_eq_some {l : Level} {c c' : Reader R} {k : Connective}
    (h : l.connectiveAt? c = some (k, c')) :
    (∃ op ts, c.rest = .operator op :: ts ∧ l.connective? op = some k ∧ c' = c.advance) ∨
      (l = .product ∧ k = .operation .mul ∧ c' = c ∧ ∃ before after, c.last? = some before ∧
        c.rest.head? = some after ∧ juxtaposed before after = true) := by
  unfold Level.connectiveAt? at h
  split at h
  · cases h
  · rename_i op ts hr
    simp only [Option.map_eq_some_iff, Prod.mk.injEq] at h
    obtain ⟨k', hk, rfl, rfl⟩ := h
    exact .inl ⟨op, ts, hr, hk, rfl⟩
  · rename_i t ts _ hr
    split at h
    · rename_i hj
      simp only [Option.some.injEq, Prod.mk.injEq] at h
      rw [Bool.and_eq_true, decide_eq_true_eq, Option.any_eq_true] at hj
      obtain ⟨hl, before, hb, hj⟩ := hj
      exact .inr ⟨hl, h.1.symm, h.2.symm, before, t, hb, by rw [hr]; rfl, hj⟩
    · cases h

/-- Reading trailing operators behind an operand. -/
theorem reads_trailing {w₀ : List (Token R)} {e : Expr R} {c : Reader R}
    (h₀ : IsTrailing U w₀ e) :
    Reads c (fun w e' => IsTrailing U (w₀ ++ w) e') (EndsOpen U) (trailing e c) := by
  rcases hr : c with ⟨i, l, r⟩
  have hstop : ∀ {ts : List (Token R)} {h : ts.length ≤ ts.length},
      Reads ⟨i, l, ts⟩ (fun w e' => IsTrailing U (w₀ ++ w) e') (EndsOpen U)
        (.ok ⟨(e, ⟨i, l, ts⟩), h⟩ : Except ParseError (NotLonger R (Expr R) ts.length)) :=
    reads_ok (by rw [List.append_nil]; exact h₀)
  rw [trailing]
  cases r with
  | nil => exact hstop
  | cons t ts =>
    cases t with
    | operator op =>
      dsimp only
      cases ht : trailed? e op with
      | none => exact hstop
      | some x =>
        cases x with
        | error z => exact reads_error (ofValues_trailed? ht z rfl)
        | ok e' =>
          have he' := reads_trailing (c := Reader.advance ⟨i, l, .operator op :: ts⟩)
            (.trailing h₀ (trailed?_eq_some_ok_iff.1 ht))
          refine .of_advance rfl ?_
          -- The result is matched on and not bound, so the rule for steps does not apply.
          constructor
          · intro p hp
            dsimp only at hp
            split at hp
            · rename_i p' hl hp'
              obtain ⟨w, hw, hd⟩ := he'.ok _ hp'
              rw [← Except.ok.inj hp]
              refine ⟨w, hw, ?_⟩
              rw [List.append_assoc] at hd
              exact hd
            · cases hp
          · intro y hy
            dsimp only at hy
            split at hy
            · cases hy
            · rename_i hz
              rw [Except.error.inj hy] at hz
              exact (he'.error y hz).imp_right fun h => h.cons _
    | _ => exact hstop
termination_by c.rest.length
decreasing_by exact Nat.lt_succ_self _

/-- The tokens end where members of a list are ahead and the list has not been closed. -/
def EndsInList (U : FunctionTable R) (ts : List (Token R)) : Prop :=
  EndsOpen U ts ∨ ∃ es, IsMembers U ts es

/-- The word is the inside of a group and its closing bracket. -/
def IsClosed (G : List (Token R) → List (Expr R) → Prop) (close : Delimiter)
    (w : List (Token R)) (es : List (Expr R)) : Prop :=
  ∃ w', w = w' ++ [.delimiter close] ∧ G w' es

theorem EndsInList.group {ts : List (Token R)} (h : EndsInList U ts) {b : Delimiter}
    (hb : b.isOpen = true) : EndsOpen U (.delimiter b :: ts) := by
  rcases h with h | ⟨es, h⟩
  · exact h.cons _
  · exact .group [] hb h

theorem EndsInList.comma {ts w : List (Token R)} {e : Expr R} (h : EndsInList U ts)
    (hw : IsAssignment U w e) : EndsInList U (w ++ .delimiter .comma :: ts) := by
  rcases h with h | ⟨es, h⟩
  · exact .inl ((h.cons _).append w)
  · exact .inr ⟨e :: es, .cons hw h⟩

/-- A connective at the reader behind a chain joins any operand behind the connective to the
chain. -/
theorem IsChain.join {l : Level} {k : Connective} {w₀ : List (Token R)} {e : Expr R}
    {c₀ c c₁ : Reader R} (h₀ : IsChain U l w₀ e) (hf₀ : c₀.Follows w₀ c)
    (hk : l.connectiveAt? c = some (k, c₁)) :
    ∃ v, c.Follows v c₁ ∧ ∀ w e' c₂, c₁.Follows w c₂ → IsOperand U l w e' →
      IsChain U l (w₀ ++ (v ++ w)) (k.combine e e') := by
  rcases connectiveAt?_eq_some hk with ⟨op, ts, hr, hop, rfl⟩ | ⟨rfl, rfl, rfl, b, a, hb, ha, hj⟩
  · exact ⟨[.operator op], Reader.follows_advance hr, fun w e' c₂ _ hw => .connective hop h₀ hw⟩
  · refine ⟨[], Reader.Follows.refl _, fun w e' c₂ hf hw => ?_⟩
    have hne : w₀ ≠ [] := ne_nil_of_startsPhrase (h₀.startsPhrase [])
    have hne' : w ≠ [] := ne_nil_of_startsPhrase (hw.startsPhrase [])
    refine .juxtaposition ?_ ?_ hj h₀ hw
    · rw [hf₀.2.2, List.getLast?_eq_some_getLast hne] at hb
      rw [List.getLast?_eq_some_getLast hne]
      exact hb
    · rw [hf.1, List.head?_append_of_ne_nil _ hne'] at ha
      exact ha

mutual
/-- Reading an assignment. -/
theorem reads_assignment (c : Reader R) :
    Reads c (IsAssignment U) (EndsOpen U) (assignment U c) := by
  rw [assignment]
  refine (reads_chain c).bind fun w e c₁ h₁ _ hw => ?_
  dsimp only
  split
  · rename_i op ts hr
    split
    · rename_i ho
      have h := Reader.length_advance hr
      refine .of_advance hr ?_
      have hv := (reads_assignment c₁.advance).weaken fun ts hts =>
        (hts.cons (.operator op)).append w
      refine hv.bind fun w' v c₂ h₂ _ hw' => ?_
      refine reads_bind (ofValues_assignTo _ _ _) fun e' he' => ?_
      refine reads_ok ?_
      rw [List.append_nil]
      exact .assign hw hw' (assigned_iff.2 ⟨ho, he'⟩)
    · refine reads_ok ?_
      rw [List.append_nil]
      exact .chain hw
  · refine reads_ok ?_
    rw [List.append_nil]
    exact .chain hw
termination_by (c.rest.length, 18)
decreasing_by
  · exact Prod.Lex.right _ (by decide)
  · exact Prod.Lex.left _ _ (Nat.lt_trans h h₁)
/-- Reading a chain of a level. -/
theorem reads_chain {l : Level} (c : Reader R) :
    Reads c (IsChain U l) (EndsOpen U) (chain U l c) := by
  rw [chain]
  refine (reads_operand c).bind fun w e c₁ h₁ hf hw => ?_
  have hrest := (reads_chainRest hf (.operand hw)).weaken fun ts hts => EndsOpen.append hts w
  refine hrest.bind fun w' e' c₂ h₂ _ hw' => ?_
  refine reads_ok ?_
  rw [List.append_nil]
  exact hw'
termination_by (c.rest.length, 2 * l.rank + 4)
/-- Reading the rest of a chain behind its first operands. -/
theorem reads_chainRest {l : Level} {w₀ : List (Token R)} {e : Expr R} {c₀ c : Reader R}
    (hf₀ : c₀.Follows w₀ c) (h₀ : IsChain U l w₀ e) :
    Reads c (fun w e' => IsChain U l (w₀ ++ w) e') (EndsOpen U) (chainRest U l e c) := by
  rw [chainRest]
  split
  · refine reads_ok ?_
    rw [List.append_nil]
    exact h₀
  · rename_i k c₁ hk
    have h₁ := Level.length_connectiveAt? hk
    -- Between the chain and the next operand there is one token or none.
    obtain ⟨v, hv, hjoin⟩ := h₀.join hf₀ hk
    refine .of_follows hv ?_
    refine ((reads_operand c₁).weaken fun ts hts => EndsOpen.append hts v).bind
      fun w e' c₂ h₂ hf hw => ?_
    have hrest := (reads_chainRest (hf₀.trans (hv.trans hf)) (hjoin w e' c₂ hf hw)).imp
      (E := fun ts => EndsOpen U (v ++ (w ++ ts)))
      (G := fun w' e'' => IsChain U l (w₀ ++ (v ++ (w ++ w'))) e'')
      (fun w' _ h => by rwa [List.append_assoc, List.append_assoc] at h)
      fun ts hts => (hts.append w).append v
    refine hrest.bind fun w' e'' c₃ h₃ _ hw' => ?_
    refine reads_ok ?_
    rw [List.append_nil]
    exact hw'
termination_by (c.rest.length, 2 * l.rank + 4)
decreasing_by
  · rcases Nat.lt_or_eq_of_le h₁ with h | h
    · exact Prod.Lex.left _ _ h
    · rw [h]
      exact Prod.Lex.right _ (by omega)
  · exact Prod.Lex.left _ _ (Nat.lt_of_lt_of_le h₂ h₁)
/-- Reading an operand of a level. -/
theorem reads_operand {l : Level} (c : Reader R) :
    Reads c (IsOperand U l) (EndsOpen U) (operand U l c) := by
  rw [operand]
  split
  · rename_i l' hl
    have := Level.rank_tighter hl
    exact (reads_chain c).imp (fun _ _ h => .tighter hl h) fun _ h => h
  · rename_i hl
    obtain rfl : l = .product := by cases l <;> first | rfl | cases hl
    exact (reads_signed c).imp (fun _ _ h => .signed h) fun _ h => h
termination_by (c.rest.length, 2 * l.rank + 3)
/-- Reading a signed operand. -/
theorem reads_signed (c : Reader R) :
    Reads c (IsSigned U) (EndsOpen U) (signed U c) := by
  -- The branch without a sign, for every token that a reader can be at.
  have hpower : ∀ n (hn : c.rest.length = n), Reads c (IsSigned U) (EndsOpen U) (do
      let ⟨p, h⟩ ← power U c
      (pure ⟨p, hn ▸ h⟩ : Except ParseError (Shorter R (Expr R) n))) := by
    intro n hn
    refine (reads_power c).bind fun w e c₁ h₁ _ hw => ?_
    refine reads_ok ?_
    rw [List.append_nil]
    exact .power hw
  rcases hr : c with ⟨i, l, r⟩
  rw [hr] at hpower
  rw [signed]
  cases r with
  | nil => exact hpower _ rfl
  | cons t ts =>
    cases t with
    | operator op =>
      cases op with
      | negate =>
        refine .of_advance rfl ?_
        have hs := (reads_signed (Reader.advance ⟨i, l, .operator .negate :: ts⟩)).weaken
          fun ts hts => EndsOpen.cons hts (.operator .negate)
        refine hs.bind fun w e c₁ h₁ hf hw => ?_
        refine reads_ok ?_
        rw [List.append_nil, hf.2.1, Nat.add_sub_cancel_left]
        exact hw.negated
      | not =>
        refine .of_advance rfl ?_
        have hs := (reads_signed (Reader.advance ⟨i, l, .operator .not :: ts⟩)).weaken
          fun ts hts => EndsOpen.cons hts (.operator .not)
        refine hs.bind fun w e c₁ h₁ _ hw => ?_
        refine reads_ok ?_
        rw [List.append_nil]
        exact .not hw
      | _ => exact hpower _ rfl
    | _ => exact hpower _ rfl
termination_by (c.rest.length, 2)
decreasing_by
  · exact Prod.Lex.right _ (by decide)
  all_goals exact Prod.Lex.left _ _ (Nat.lt_succ_self _)
/-- Reading a power. -/
theorem reads_power (c : Reader R) : Reads c (IsPower U) (EndsOpen U) (power U c) := by
  rw [power]
  refine (reads_primary c).bind fun w e c₁ h₁ _ hw => ?_
  have ht := (reads_trailing (c := c₁) (.primary hw)).weaken fun ts hts =>
    EndsOpen.append hts w
  refine ht.bind fun w' base c₂ h₂ _ hbase => ?_
  dsimp only
  split
  · rename_i ts hr
    have h := Reader.length_advance hr
    refine .of_advance hr ?_
    have hs := (reads_signed c₂.advance).weaken fun ts hts =>
      ((EndsOpen.cons hts (.operator .power)).append w').append w
    refine hs.bind fun w'' e' c₃ h₃ _ hw'' => ?_
    refine reads_ok ?_
    rw [List.append_nil, ← List.append_assoc]
    cases hsign : startsWithSign w'' with
    | true => exact .signed hbase hsign hw''
    | false => exact .power hbase (hw''.isPower hsign)
  · refine reads_ok ?_
    rw [List.append_nil]
    exact .trailing hbase
termination_by (c.rest.length, 1)
decreasing_by
  · exact Prod.Lex.right _ (by decide)
  · exact Prod.Lex.left _ _ (Nat.lt_of_lt_of_le h (Nat.le_trans h₂ (Nat.le_of_lt h₁)))
/-- Reading a primary. -/
theorem reads_primary (c : Reader R) : Reads c (IsPrimary U) (EndsOpen U) (primary U c) := by
  rcases hr : c with ⟨i, l, r⟩
  rw [primary]
  cases r with
  | nil => exact reads_unexpected (y := .operand) fun _ => .inl rfl
  | cons t ts =>
    cases t with
    | number v =>
      cases ts with
      | nil => exact .of_advance rfl (reads_ok (.literal (.number v)))
      | cons t' ts' =>
        cases t' with
        | unit u =>
          exact .of_advance rfl (.of_advance rfl (reads_ok (.literal (.quantity v u))))
        | _ => exact .of_advance rfl (reads_ok (.literal (.number v)))
    | complex z => exact .of_advance rfl (reads_ok (.literal (.complex z)))
    | truth b => exact .of_advance rfl (reads_ok (.truth b))
    | name x => exact .of_advance rfl (reads_ok (.name x))
    | call f n =>
      cases ts with
      | nil => exact .of_advance rfl (reads_unexpected fun _ => .inr (.call [] f n))
      | cons t' ts' =>
        cases t' with
        | delimiter b =>
          dsimp only
          split
          · rename_i close hb
            refine .of_advance rfl (.of_advance rfl ?_)
            refine ((reads_list close _).weaken fun ts hts =>
              (hts.group (Delimiter.isOpen_isClose hb).1).cons (.call f n)).bind
                fun w es c₁ h₁ _ hw => ?_
            dsimp only
            split
            · rename_i hn
              subst hn
              refine reads_bind (ofValues_callOf _ _) fun e he => ?_
              refine reads_ok ?_
              obtain ⟨w', rfl, hbody⟩ := hw
              rw [List.append_nil]
              exact .call hb hbody (called_iff.2 he)
            · exact reads_error rfl
          · exact .of_advance rfl (reads_unexpected nofun)
        | _ => exact .of_advance rfl (reads_unexpected nofun)
    | delimiter d =>
      cases d with
      | openParen =>
        refine .of_advance rfl ?_
        refine ((reads_assignment _).weaken fun ts hts => hts.cons (.delimiter .openParen)).bind
          fun w e c₁ h₁ _ hw => ?_
        dsimp only
        split
        · rename_i ts' hr'
          exact .of_advance hr' (reads_ok (.group hw))
        · refine reads_unexpected fun _ => .inr ?_
          rw [List.append_nil]
          exact .group [] rfl (.one hw)
      | openBrace =>
        refine .of_advance rfl ?_
        refine ((reads_list .closeBrace _).weaken fun ts hts => hts.group rfl).bind
          fun w es c₁ h₁ _ hw => ?_
        refine reads_bind (ofValues_collection _) fun e he => ?_
        refine reads_ok ?_
        obtain ⟨w', rfl, hbody⟩ := hw
        rw [List.append_nil]
        exact .list hbody (collected_iff.2 he)
      | _ => exact reads_unexpected nofun
    | _ => exact reads_unexpected nofun
termination_by (c.rest.length, 0)
decreasing_by
  all_goals
    refine Prod.Lex.left _ _ ?_
    simp only [Reader.rest_advance, List.tail_cons, List.length_cons]
    omega
/-- Reading a list. -/
theorem reads_list (close : Delimiter) (c : Reader R) :
    Reads c (IsClosed (IsBody U) close) (EndsInList U) (list U close c) := by
  -- The branch for a list that is not closed at once.
  have hmembers : ∀ n (hn : c.rest.length = n),
      Reads c (IsClosed (IsBody U) close) (EndsInList U) (do
        let ⟨p, h⟩ ← members U close c
        (pure ⟨p, hn ▸ h⟩ : Except ParseError (Shorter R (List (Expr R)) n))) := by
    intro n hn
    refine (reads_members close c).bind fun w es c₁ h₁ _ hw => ?_
    refine reads_ok ?_
    rw [List.append_nil]
    obtain ⟨w', hw', hm⟩ := hw
    exact ⟨w', hw', .members hm⟩
  rcases hr : c with ⟨i, l, r⟩
  rw [hr] at hmembers
  rw [list]
  cases r with
  | nil => exact hmembers _ rfl
  | cons t ts =>
    cases t with
    | delimiter d =>
      dsimp only
      split
      · rename_i hd
        rw [hd]
        exact .of_advance rfl (reads_ok ⟨[], rfl, .empty⟩)
      · exact hmembers _ rfl
    | _ => exact hmembers _ rfl
termination_by (c.rest.length, 20)
decreasing_by exact Prod.Lex.right _ (by decide)
/-- Reading the members of a list. -/
theorem reads_members (close : Delimiter) (c : Reader R) :
    Reads c (IsClosed (IsMembers U) close) (EndsInList U) (members U close c) := by
  rw [members]
  refine ((reads_assignment c).weaken fun ts hts => .inl hts).bind
    fun w e c₁ h₁ _ hw => ?_
  dsimp only
  split
  · rename_i d ts hr
    have h := Reader.length_advance hr
    split
    · rename_i hd
      subst hd
      refine .of_advance hr ?_
      refine ((reads_members close c₁.advance).weaken fun ts hts => hts.comma hw).bind
        fun w' es c₂ h₂ _ hw' => ?_
      refine reads_ok ?_
      obtain ⟨w'', rfl, hm⟩ := hw'
      rw [List.append_nil]
      exact ⟨w ++ .delimiter .comma :: w'', by simp, .cons hw hm⟩
    · split
      · rename_i hd
        subst hd
        refine .of_advance hr (reads_ok ⟨w, rfl, .one hw⟩)
      · exact reads_unexpected fun hnil => absurd hnil (by rw [hr]; exact nofun)
  · exact reads_unexpected fun _ => .inr (.inr ⟨[e], by rw [List.append_nil]; exact .one hw⟩)
termination_by (c.rest.length, 19)
decreasing_by
  · exact Prod.Lex.right _ (by decide)
  · exact Prod.Lex.left _ _ (Nat.lt_trans h h₁)
end

/-! ## Whole formulas -/

/-- What forms an expression is derived for it. -/
theorem isAssignment_of_parse {ts : List (Token R)} {e : Expr R} (h : parse U ts = .ok e) :
    IsAssignment U ts e := by
  unfold parse at h
  split at h
  · cases h
  · split at h
    · cases h
    · rename_i he
      split at h
      · rename_i hnil
        obtain ⟨w, hw, hd⟩ := (reads_assignment (Reader.start ts)).ok _ he
        have hts : ts = w := by
          rw [← List.append_nil w, ← List.isEmpty_iff.1 hnil]
          exact hw.1
        rw [hts, ← Except.ok.inj h]
        exact hd
      · cases h

/-- Tokens that end where something other than an operand is missing end behind the name of
a call or within a group that has not been closed. -/
theorem endsOpen_of_parse {ts : List (Token R)} {y : Expectation}
    (h : parse U ts = .error (.unexpectedEnd y)) : y = .operand ∨ EndsOpen U ts := by
  unfold parse at h
  split at h
  · cases h
  · split at h
    · rename_i he
      rw [Except.error.inj h] at he
      exact (reads_assignment (Reader.start ts)).error y he
    · split at h
      · cases h
      · rename_i hne
        unfold unexpected at h
        split at h
        · cases h
        · exact .inl (ParseError.unexpectedEnd.inj (Except.error.inj h)).symm

/-- The parser accepts exactly the words of the grammar and gives exactly the expressions
that the grammar assigns to them. -/
theorem parse_eq_ok_iff_isAssignment (U : FunctionTable R) (ts : List (Token R))
    (e : Expr R) : parse U ts = .ok e ↔ IsAssignment U ts e :=
  ⟨isAssignment_of_parse, fun h => h.parse⟩

end Grammar

end SymbolicAlgebra
