import SymbolicAlgebra.Proofs.Descent
import SymbolicAlgebra.Proofs.GrammarSound

set_option autoImplicit false

/-!
# Actions against results of the grammar

The recursive descent keeps a position, the functions of the grammar keep a reader. A position
stands for the reader at it (`Reader.atIndex`), and an action gives what a function of the grammar
gives (`Gives`) if the values agree and the two end at the same place. The rules follow the steps
of an action: what is looked at, what is taken (`gives_next`), what is refused (`gives_refuse`),
and one action behind another (`Gives.bind`).

With each refusal goes what a report promises: a token that is reported stands at the position
that is reported with it (`Reports`).
-/

namespace SymbolicAlgebra

open Grammar

variable {R : Type}

/-! ## Readers at positions -/

/-- The reader at a position among tokens. -/
def Reader.atIndex (ts : List (Token R)) (pos : Nat) : Reader R :=
  ⟨pos, before? ts pos, ts.drop pos⟩

namespace Reader

variable {ts : List (Token R)} {pos : Nat}

/-- Before the end, the token at the position is ahead. -/
theorem rest_atIndex {t : Token R} (h : ts[pos]? = some t) :
    (atIndex ts pos).rest = t :: ts.drop (pos + 1) := by
  obtain ⟨hlt, rfl⟩ := List.getElem?_eq_some_iff.1 h
  exact List.drop_eq_getElem_cons hlt

theorem getElem?_of_rest_atIndex {t : Token R} {us : List (Token R)}
    (h : (atIndex ts pos).rest = t :: us) : ts[pos]? = some t := by
  rw [← List.head?_drop]
  exact congrArg List.head? h

theorem advance_atIndex {t : Token R} (h : ts[pos]? = some t) :
    (atIndex ts pos).advance = atIndex ts (pos + 1) := by
  have hr : ts.drop pos = t :: ts.drop (pos + 1) := rest_atIndex h
  unfold advance atIndex
  rw [hr]
  simp [before?, h]

/-- Moving past the token at a position leads to the next position. -/
theorem advance_of_rest {t : Token R} {us : List (Token R)}
    (h : (atIndex ts pos).rest = t :: us) :
    pos + 1 ≤ ts.length ∧ (atIndex ts pos).advance = atIndex ts (pos + 1) := by
  have ht := getElem?_of_rest_atIndex h
  exact ⟨(List.getElem?_eq_some_iff.1 ht).1, advance_atIndex ht⟩

/-- The tokens from a position on start with the token there. -/
theorem extract_eq_cons {t : Token R} {us : List (Token R)} (h : (atIndex ts pos).rest = t :: us)
    {pos' : Nat} (hlt : pos < pos') :
    ts.extract pos pos' = t :: ts.extract (pos + 1) pos' := by
  have hdrop : ts.drop pos = t :: ts.drop (pos + 1) :=
    rest_atIndex (getElem?_of_rest_atIndex h)
  rw [List.extract_eq_take_drop, List.extract_eq_take_drop, hdrop,
    show pos' - pos = (pos' - (pos + 1)) + 1 by omega, List.take_succ_cons]

/-- Where fewer tokens are ahead, the position is greater. -/
theorem lt_of_length_rest {pos' : Nat}
    (h : (atIndex ts pos').rest.length < (atIndex ts pos).rest.length) : pos < pos' := by
  simp only [atIndex, List.length_drop] at h
  omega

/-- What is reached from a position is the reader at a later position, and the tokens between the
two are those that were taken. -/
theorem Follows.eq_atIndex {w : List (Token R)} {c : Reader R}
    (h : (atIndex ts pos).Follows w c) (hpos : pos ≤ ts.length) :
    c = atIndex ts (pos + w.length) ∧ pos + w.length ≤ ts.length ∧
      w = ts.extract pos (pos + w.length) := by
  obtain ⟨i, l, r⟩ := c
  obtain ⟨hr, rfl, rfl⟩ := h
  replace hr : ts.drop pos = w ++ r := hr
  have hlength := congrArg List.length hr
  rw [List.length_drop, List.length_append] at hlength
  have hdrop : ts.drop (pos + w.length) = r := by
    rw [← List.drop_drop, hr, List.drop_left]
  have htake : ts.extract pos (pos + w.length) = w := by
    rw [List.extract_eq_take_drop, Nat.add_sub_cancel_left, hr, List.take_left]
  refine ⟨?_, by omega, htake.symm⟩
  unfold atIndex
  rw [hdrop]
  congr 1
  rcases List.eq_nil_or_concat w with rfl | ⟨v, t, rfl⟩
  · rfl
  · -- The last token that was taken stands before the position.
    have hget : ts[pos + v.length]? = some t := by
      rw [← List.getElem?_drop, hr]
      simp
    simp [before?, hget]

end Reader

namespace Descent

/-! ## Results -/

/-- The value and the position of a result of the grammar. -/
def placed {α : Type} {Q : α × Reader R → Prop}
    (y : Except ParseError { p : α × Reader R // Q p }) : Except ParseError (α × Nat) :=
  y.map fun p => (p.1.1, p.1.2.index)

variable [Scalar R]

/-- The refusal reports a token with its position. -/
def Reports (ts : List (Token R)) (z : ParseError) : Prop :=
  ∀ found i, z = .unexpectedToken found i → ∃ h : i < ts.length, found = ts[i].text

/-- At the position, the action gives the result; a token that it refuses is one of the tokens,
and is reported with its position. -/
structure Gives {α : Type} (ts : List (Token R)) (x : Action α) (pos : Nat)
    (z : Except ParseError (α × Nat)) : Prop where
  /-- The result. -/
  eq : x pos = some z
  /-- The refusal. -/
  reports : ∀ y, z = .error y → Reports ts y

section Rules

variable {α β : Type} {ts : List (Token R)} {pos : Nat} {x : Action α} {f : α → Action β}
  {Q : α × Reader R → Prop} {Q' : β × Reader R → Prop}

theorem gives_pure (a : α) : Gives ts (pure a) pos (.ok (a, pos)) :=
  ⟨rfl, nofun⟩

theorem gives_error {y : ParseError} (hx : x pos = some (.error y)) (hy : Reports ts y) :
    Gives ts x pos (.error y) :=
  ⟨hx, fun _ h => Except.error.inj h ▸ hy⟩

omit [Scalar R] in
/-- An action runs on behind a value. -/
theorem bind_run {a : α} {pos' : Nat} (hx : x pos = some (.ok (a, pos'))) :
    (x >>= f) pos = f a pos' := by
  change ExceptT.bind (x pos) _ = _
  rw [hx]
  rfl

omit [Scalar R] in
/-- A refusal is the end of an action. -/
theorem bind_run_error {y : ParseError} (hx : x pos = some (.error y)) :
    (x >>= f) pos = some (.error y) := by
  change ExceptT.bind (x pos) _ = _
  rw [hx]
  rfl

/-- An action behind one that gives a value. -/
theorem gives_bind_of_eq {a : α} {pos' : Nat} {z : Except ParseError (β × Nat)}
    (hx : x pos = some (.ok (a, pos'))) (hf : Gives ts (f a) pos' z) : Gives ts (x >>= f) pos z :=
  ⟨(bind_run hx).trans hf.eq, hf.reports⟩

/-- An action that is refused. -/
theorem gives_bind_of_error {y : ParseError} (hx : x pos = some (.error y)) (hy : Reports ts y) :
    Gives ts (x >>= f) pos (.error y) :=
  gives_error (bind_run_error hx) hy

/-- An action behind one that gives what a function of the grammar gives. -/
theorem Gives.bind {G : List (Token R) → α → Prop} {E : List (Token R) → Prop} {c : Reader R}
    {Q : Reader R → α × Reader R → Prop}
    {y : (c : Reader R) → Except ParseError { p : α × Reader R // Q c p }}
    {z : { p : α × Reader R // Q c p } → Except ParseError (β × Nat)}
    (hx : Gives ts x pos (placed (y (.atIndex ts pos))))
    (hy : ∀ c, Grammar.Reads c G E (y c)) (hc : c = .atIndex ts pos) (hpos : pos ≤ ts.length)
    (hf : ∀ a pos' h, pos ≤ pos' → pos' ≤ ts.length →
      Gives ts (f a) pos' (z ⟨(a, Reader.atIndex ts pos'), h⟩)) :
    Gives ts (x >>= f) pos (y c >>= z) := by
  subst hc
  cases hres : y (.atIndex ts pos) with
  | error e =>
    rw [hres] at hx
    have hxe : x pos = some (.error e) := hx.eq
    exact gives_bind_of_error hxe (hx.reports e rfl)
  | ok p =>
    obtain ⟨⟨a, c⟩, h⟩ := p
    -- The reader behind the word is the one at the position where the action ends.
    obtain ⟨w, hw, -⟩ := (hy _).ok _ hres
    obtain ⟨rfl, hle, -⟩ := hw.eq_atIndex hpos
    rw [hres] at hx
    exact gives_bind_of_eq hx.eq (hf a _ h (Nat.le_add_right pos w.length) hle)

theorem gives_advance {f : Unit → Action β} {z : Except ParseError (β × Nat)}
    (h : Gives ts (f ()) (pos + 1) z) : Gives ts (advance >>= f) pos z :=
  gives_bind_of_eq rfl h

theorem gives_get {f : Nat → Action β} {z : Except ParseError (β × Nat)}
    (h : Gives ts (f pos) pos z) : Gives ts (get >>= f) pos z :=
  gives_bind_of_eq rfl h

theorem gives_set {pos' : Nat} {f : PUnit → Action β} {z : Except ParseError (β × Nat)}
    (h : Gives ts (f ()) pos' z) : Gives ts (set pos' >>= f) pos z :=
  gives_bind_of_eq rfl h

omit [Scalar R] in
theorem placed_bind {y : Except ParseError { p : α × Reader R // Q p }}
    {g : { p : α × Reader R // Q p } → Except ParseError { p : β × Reader R // Q' p }} :
    placed (y >>= g) = y >>= fun p => placed (g p) := by
  cases y <;> rfl

omit [Scalar R] in
/-- A step that passes a value on changes nothing. -/
theorem placed_bind_pass {Q₂ : α × Reader R → Prop}
    {y : Except ParseError { p : α × Reader R // Q p }}
    {g : { p : α × Reader R // Q p } → Except ParseError { p : α × Reader R // Q₂ p }}
    (hg : ∀ p, placed (g p) = .ok (p.1.1, p.1.2.index)) : placed (y >>= g) = placed y := by
  cases y with
  | error z => rfl
  | ok p => exact hg p

omit [Scalar R] in
theorem peek_run : peek ts pos = some (.ok (ts[pos]?, pos)) := rfl

omit [Scalar R] in
theorem peekOperator_run :
    peekOperator ts pos = some (.ok (ts[pos]?.bind Token.operator?, pos)) := rfl

omit [Scalar R] in
/-- What the token at a position is, the next token of the reader there is. -/
theorem bind_eq_some_iff_rest {γ : Type} {g : Token R → Option γ} {k : γ → Token R}
    (hg : ∀ t a, g t = some a ↔ t = k a) {a : γ} :
    ts[pos]?.bind g = some a ↔ ∃ us, (Reader.atIndex ts pos).rest = k a :: us := by
  constructor
  · intro h
    obtain ⟨t, ht, hat⟩ := Option.bind_eq_some_iff.1 h
    rw [(hg t a).1 hat] at ht
    exact ⟨_, Reader.rest_atIndex ht⟩
  · rintro ⟨us, hr⟩
    rw [Reader.getElem?_of_rest_atIndex hr]
    exact (hg _ a).2 rfl

omit [Scalar R] in
theorem bind_operator?_eq_some_iff {op : Operator} : ts[pos]?.bind Token.operator? = some op ↔
    ∃ us, (Reader.atIndex ts pos).rest = .operator op :: us :=
  bind_eq_some_iff_rest fun t op => by cases t <;> simp [Token.operator?]

omit [Scalar R] in
theorem bind_delimiter?_eq_some_iff {d : Delimiter} : ts[pos]?.bind Token.delimiter? = some d ↔
    ∃ us, (Reader.atIndex ts pos).rest = .delimiter d :: us :=
  bind_eq_some_iff_rest fun t d => by cases t <;> simp [Token.delimiter?]

omit [Scalar R] in
theorem peekOperator_of_some {op : Operator} {us : List (Token R)}
    (h : (Reader.atIndex ts pos).rest = .operator op :: us) :
    peekOperator ts pos = some (.ok (some op, pos)) := by
  rw [peekOperator_run, bind_operator?_eq_some_iff.2 ⟨us, h⟩]

omit [Scalar R] in
theorem peekOperator_of_none
    (h : ∀ op us, (Reader.atIndex ts pos).rest = .operator op :: us → False) :
    peekOperator ts pos = some (.ok (none, pos)) := by
  have hnone : ts[pos]?.bind Token.operator? = none := by
    rw [Option.eq_none_iff_forall_ne_some]
    intro op hop
    obtain ⟨us, hr⟩ := bind_operator?_eq_some_iff.1 hop
    exact h op us hr
  rw [peekOperator_run, hnone]

omit [Scalar R] in
theorem next_of_some {t : Token R} (h : ts[pos]? = some t) (expected : Expectation) :
    next ts expected pos = some (.ok (t, pos + 1)) := by
  rw [next, bind_run peek_run, h]
  rfl

omit [Scalar R] in
theorem next_of_none (h : ts[pos]? = none) (expected : Expectation) :
    next ts expected pos = some (.error (.unexpectedEnd expected)) := by
  rw [next, bind_run peek_run, h]
  rfl

theorem reports_of_isOfTokens {y : ParseError} (hy : y.isOfTokens = false) : Reports ts y := by
  rintro found i rfl
  cases hy

/-- What is computed from values. -/
theorem gives_ofExcept {y : Except ParseError α} (hy : OfValues y) :
    Gives ts (ofExcept y) pos (y.map (·, pos)) := by
  cases y with
  | error z => exact gives_error rfl (reports_of_isOfTokens (hy z rfl))
  | ok a => exact gives_pure a

omit [Scalar R] in
/-- What is computed from values, behind which no token is taken. -/
theorem placed_bind_value {y : Except ParseError α}
    {g : α → Except ParseError { p : α × Reader R // Q p }}
    (hg : ∀ a, placed (g a) = .ok (a, pos)) : placed (y >>= g) = y.map (·, pos) := by
  cases y with
  | error z => rfl
  | ok a => exact hg a

omit [Scalar R] in
theorem rest_atIndex_of_none (h : ts[pos]? = none) : (Reader.atIndex ts pos).rest = [] :=
  List.drop_eq_nil_of_le (List.getElem?_eq_none_iff.1 h)

/-- The token at a position is reported with this position. -/
theorem reports_unexpectedToken {t : Token R} (h : ts[pos]? = some t) :
    Reports ts (.unexpectedToken t.text pos) := by
  obtain ⟨hlt, rfl⟩ := List.getElem?_eq_some_iff.1 h
  intro found i heq
  obtain ⟨rfl, rfl⟩ := ParseError.unexpectedToken.inj heq
  exact ⟨hlt, rfl⟩

/-- What stands at a position is refused with this position. -/
theorem reports_unexpected (expected : Expectation) :
    Reports ts (unexpected (Reader.atIndex ts pos) expected) := by
  rw [unexpected]
  split
  · rename_i hr
    exact reports_unexpectedToken (Reader.getElem?_of_rest_atIndex hr)
  · exact nofun

/-- The token at the position is refused, or the end of the tokens. -/
theorem gives_refuse (expected : Expectation) :
    Gives ts (refuse ts expected : Action α) pos
      (.error (unexpected (Reader.atIndex ts pos) expected)) := by
  refine gives_error ?_ (reports_unexpected expected)
  rw [refuse, bind_run peek_run, unexpected]
  cases ht : ts[pos]? with
  | none =>
    rw [rest_atIndex_of_none ht]
    rfl
  | some t =>
    rw [Reader.rest_atIndex ht]
    rfl

/-- The token before the position is refused. -/
theorem gives_refuseTaken {t : Token R} (h : ts[pos]? = some t) (expected : Expectation) :
    Gives ts (refuseTaken t : Action α) (pos + 1)
      (.error (unexpected (Reader.atIndex ts pos) expected)) := by
  refine gives_error ?_ (reports_unexpected expected)
  rw [unexpected, Reader.rest_atIndex h]
  rfl

/-- At the end of the tokens something is missing. -/
theorem unexpected_of_none (h : ts[pos]? = none) (expected : Expectation) :
    unexpected (.atIndex ts pos) expected = .unexpectedEnd expected := by
  rw [unexpected, rest_atIndex_of_none h]

/-- The next token is taken, or missed at the end of the tokens. -/
theorem gives_next {expected : Expectation} {f : Token R → Action β}
    {z : Except ParseError (β × Nat)}
    (hf : ∀ t, ts[pos]? = some t → Gives ts (f t) (pos + 1) z)
    (hz : ts[pos]? = none → z = .error (.unexpectedEnd expected)) :
    Gives ts (next ts expected >>= f) pos z := by
  cases ht : ts[pos]? with
  | none =>
    rw [hz ht]
    exact gives_bind_of_error (next_of_none ht expected) nofun
  | some t => exact gives_bind_of_eq (next_of_some ht expected) (hf t ht)

/-- A delimiter that is expected is taken, and anything else is refused. -/
theorem gives_expectDelimiter {d : Delimiter} {expected : Expectation} {f : Unit → Action β}
    {z : Except ParseError (β × Nat)}
    (hf : ts[pos]?.bind Token.delimiter? = some d → Gives ts (f ()) (pos + 1) z)
    (hz : ts[pos]?.bind Token.delimiter? ≠ some d →
      z = .error (unexpected (.atIndex ts pos) expected)) :
    Gives ts (expectDelimiter ts d expected >>= f) pos z := by
  by_cases h : ts[pos]?.bind Token.delimiter? = some d
  · refine gives_bind_of_eq (a := ()) ?_ (hf h)
    rw [expectDelimiter, bind_run peek_run, if_pos h]
    rfl
  · rw [hz h]
    refine gives_bind_of_error ?_ (reports_unexpected expected)
    rw [expectDelimiter, bind_run peek_run, if_neg h]
    exact (gives_refuse expected).eq

end Rules

end Descent

end SymbolicAlgebra
