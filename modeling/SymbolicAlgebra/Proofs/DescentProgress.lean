import SymbolicAlgebra.Proofs.CallArity
import SymbolicAlgebra.Proofs.DescentRoutines

set_option autoImplicit false

/-!
# The parser makes progress

The recursive descent over positions ends, and gives what the functions of the grammar give
(`gives_parse`). Each routine calls only routines of a lower rank at its own position, and any
routine behind a token; so the calls that are still nested, counted by the tokens ahead first and
by the rank second, get fewer with each call (`Routine.depth_lt_of_lt`,
`Routine.depth_lt_of_rank_lt`). The loops take a token in each turn.

What the routines take is then read off from the grammar: a segment is never empty and its
brackets are nested (`taken_of_result`). A token that is refused is reported at the position where
it stands. `descent_progress` states all of this for every routine at every position.
-/

namespace SymbolicAlgebra

open Grammar

variable {R : Type}

namespace Descent

variable [Scalar R] {U : FunctionTable R}

/-! ## The recursion -/

namespace Routine

variable {ts : List (Token R)} {pos pos' : Nat} {r r' : Routine}

omit [Scalar R] in
theorem rank_le (r : Routine) : r.rank ≤ 12 := by
  cases r with
  | chain l => cases l <;> decide
  | _ => simp [rank]

omit [Scalar R] in
/-- At a later position the calls are nested less deep, whatever the routine. -/
theorem depth_lt_of_lt (h : pos < pos') (hle : pos' ≤ ts.length) :
    r'.depth ts pos' < r.depth ts pos := by
  have hrank := r'.rank_le
  rw [depth, depth]
  omega

omit [Scalar R] in
/-- Behind a position, that included, the calls of a routine of a lower rank are nested less
deep. -/
theorem depth_lt_of_rank_lt (h : pos ≤ pos') (hr : r'.rank < r.rank) :
    r'.depth ts pos' < r.depth ts pos := by
  rw [depth, depth]
  omega

/-- What a routine takes: a word with nested brackets, and behind the members of a list the
closing bracket of the list. -/
def Takes : Routine → List (Token R) → Prop
  | .list close, w => ∃ v, w = v ++ [.delimiter close] ∧ Nested v
  | _, w => Nested w

end Routine

section Recursion

variable {ts : List (Token R)} {pos : Nat}

/-- A routine gives the result of the grammar if the routines that it calls do. It calls routines
of lower ranks, and any routine behind at least one token. -/
theorem gives_step {answer : Answers R} {r : Routine} (hpos : pos ≤ ts.length) {n : Nat}
    (hn : r.depth ts pos ≤ n)
    (hanswer : ∀ r' pos', pos' ≤ ts.length → r'.depth ts pos' < r.depth ts pos →
      Answered U ts answer pos' r') :
    Gives ts (step ts answer U n r) pos (result U ts r pos) := by
  have hbehind : ∀ r', AnsweredBehind U ts answer pos r' := fun r' pos' hlt hle =>
    hanswer r' pos' hle (Routine.depth_lt_of_lt hlt hle)
  have hlower : ∀ r', r'.rank < r.rank → ∀ pos', pos ≤ pos' → pos' ≤ ts.length →
      Answered U ts answer pos' r' := fun r' hr pos' hle hle' =>
    hanswer r' pos' hle' (Routine.depth_lt_of_rank_lt hle hr)
  have hhere : ∀ r', r'.rank < r.rank → Answered U ts answer pos r' := fun r' hr =>
    hlower r' hr pos (Nat.le_refl pos) hpos
  -- A routine that repeats a step has a positive rank, so that there are enough turns.
  have hturns : 0 < r.rank → ts.length - pos < n := by
    intro hr
    rw [Routine.depth] at hn
    omega
  cases r with
  | assignment => exact gives_assignment hpos (hhere _ (by decide)) (hbehind _)
  | chain l =>
    have hsigned : Routine.signed.rank < (Routine.chain l).rank :=
      Nat.lt_of_lt_of_le (by decide) (Nat.le_add_right 4 l.rank)
    refine gives_chain hpos (fun pos' hle hle' => gives_operand (fun l' hl => ?_) ?_)
      (hturns (Nat.zero_lt_of_lt hsigned))
    · exact hlower (.chain l') (Nat.add_lt_add_left (Level.rank_tighter hl) 4) pos' hle hle'
    · exact hlower _ hsigned pos' hle hle'
  | signed => exact gives_signed (hhere _ (by decide)) (hbehind _)
  | power => exact gives_power hpos (hhere _ (by decide)) (hbehind _) (hbehind _)
  | trailed => exact gives_trailed hpos (hhere _ (by decide)) (hturns (by decide))
  | primary => exact gives_primary (hbehind _) (hbehind _) fun _ _ => hbehind _
  | list close =>
    have hrank : Routine.assignment.rank < (Routine.list close).rank := Nat.lt_succ_self 11
    exact gives_list hpos (hlower _ hrank) (hturns (Nat.zero_lt_of_lt hrank))
  | call f count => exact gives_call fun _ => hbehind _

/-- Every routine is answered at every position, if as many calls may be nested as its rank and
the tokens ahead ask for. -/
theorem answered_attempt {r : Routine} (hpos : pos ≤ ts.length) {n : Nat}
    (hn : r.depth ts pos < n) : Answered U ts (attempt U ts n) pos r := by
  induction n generalizing r pos with
  | zero => exact absurd hn (Nat.not_lt_zero _)
  | succ n ih =>
    -- One call is used up; what is called asks for at least one less.
    apply gives_step hpos (Nat.le_of_lt_succ hn)
    intro r' pos' hpos' hlt
    exact ih hpos' (Nat.lt_of_lt_of_le hlt (Nat.le_of_lt_succ hn))

/-! ## What is taken -/

omit [Scalar R] in
/-- What a function of the grammar takes at a position. -/
theorem taken_of_reads {α : Type} {G : List (Token R) → α → Prop} {E : List (Token R) → Prop}
    {c : Reader R} {y : Except ParseError (Shorter R α c.rest.length)} (hy : Grammar.Reads c G E y)
    (hc : c = .atIndex ts pos) (hpos : pos ≤ ts.length) {a : α} {pos' : Nat}
    (h : placed y = .ok (a, pos')) :
    pos < pos' ∧ pos' ≤ ts.length ∧ G (ts.extract pos pos') a := by
  subst hc
  cases hres : y with
  | error z =>
    rw [hres] at h
    cases h
  | ok p =>
    obtain ⟨⟨a', c⟩, hlength⟩ := p
    obtain ⟨w, hw, ha⟩ := hy.ok _ hres
    rw [hres] at h
    obtain ⟨rfl, rfl⟩ := Prod.mk.inj (Except.ok.inj h)
    obtain ⟨rfl, hle, hextract⟩ := hw.eq_atIndex hpos
    exact ⟨Reader.lt_of_length_rest hlength, hle, hextract ▸ ha⟩

/-- What follows the name of a call is a list with the bracket before it. -/
theorem called_eq_ok {f : String} {count : Nat} {c : Reader R} {e : Expr R} {pos' : Nat}
    (h : called U f count c = .ok (e, pos')) :
    ∃ b close us p, c.rest = .delimiter b :: us ∧ b.closing? = some close ∧
      list U close c.advance = .ok p ∧ p.1.2.index = pos' := by
  rw [called] at h
  split at h
  · rename_i b us hr
    split at h
    · rename_i close hb
      obtain ⟨p, hp, h⟩ := Expr.bind_eq_ok_iff.1 h
      refine ⟨b, close, us, p, hr, hb, hp, ?_⟩
      split at h
      · obtain ⟨e', -, heq⟩ := Expr.map_eq_ok_iff.1 h
        exact (Prod.mk.inj heq).2
      · cases h
    · cases h
  · cases h

/-- A routine that succeeds takes at least one token, and what it takes has nested brackets. -/
theorem taken_of_result {r : Routine} (hpos : pos ≤ ts.length) {v : r.Value R} {pos' : Nat}
    (h : result U ts r pos = .ok (v, pos')) :
    pos < pos' ∧ pos' ≤ ts.length ∧ r.Takes (ts.extract pos pos') := by
  cases r with
  | assignment =>
    obtain ⟨hlt, hle, hw⟩ := taken_of_reads (reads_assignment _) rfl hpos h
    exact ⟨hlt, hle, hw.segment.nested⟩
  | chain l =>
    obtain ⟨hlt, hle, hw⟩ := taken_of_reads (reads_chain _) rfl hpos h
    exact ⟨hlt, hle, hw.segment.nested⟩
  | signed =>
    obtain ⟨hlt, hle, hw⟩ := taken_of_reads (reads_signed _) rfl hpos h
    exact ⟨hlt, hle, hw.segment.nested⟩
  | power =>
    obtain ⟨hlt, hle, hw⟩ := taken_of_reads (reads_power _) rfl hpos h
    exact ⟨hlt, hle, hw.segment.nested⟩
  | trailed =>
    obtain ⟨hlt, hle, hw⟩ := taken_of_reads (reads_trailed _) rfl hpos h
    exact ⟨hlt, hle, hw.segment.nested⟩
  | primary =>
    obtain ⟨hlt, hle, hw⟩ := taken_of_reads (reads_primary _) rfl hpos h
    exact ⟨hlt, hle, hw.segment.nested⟩
  | list close =>
    obtain ⟨hlt, hle, w, hw, hbody⟩ := taken_of_reads (reads_list close _) rfl hpos h
    exact ⟨hlt, hle, w, hw, hbody.arguments.nested⟩
  | call f count =>
    obtain ⟨b, close, us, p, hr, hb, hp, rfl⟩ := called_eq_ok h
    obtain ⟨hlt, hc⟩ := Reader.advance_of_rest hr
    have hlist : placed (list U close (Reader.advance (.atIndex ts pos))) =
        .ok (p.1.1, p.1.2.index) := by
      rw [hp]
      rfl
    obtain ⟨hlt', hle, w, hw, hbody⟩ := taken_of_reads (reads_list close _) hc hlt hlist
    refine ⟨Nat.lt_of_succ_lt hlt', hle, ?_⟩
    change Nested (ts.extract pos p.1.2.index)
    rw [Reader.extract_eq_cons hr (Nat.lt_of_succ_lt hlt'), hw]
    exact .group hb hbody.arguments.nested .nil

/-! ## Whole formulas -/

/-- What the parser reads, with the position where it ends. -/
def whole (U : FunctionTable R) (ts : List (Token R)) : Except ParseError (Expr R × Nat) :=
  assignment U (.start ts) >>= fun p =>
    if p.1.2.rest.isEmpty then .ok (p.1.1, p.1.2.index) else .error (unexpected p.1.2 .operand)

theorem parse_eq_whole (h : ¬ ts.isEmpty) : parse U ts = (whole U ts).map Prod.fst := by
  rw [parse, if_neg h, whole]
  cases assignment U (.start ts) with
  | error z => rfl
  | ok p =>
    change ite _ _ _ = Except.map Prod.fst (ite _ _ _)
    rw [apply_ite (Except.map Prod.fst)]
    rfl

/-- An assignment is read from the first position on, and then the tokens must be at their end. -/
theorem gives_whole {answer : Answers R} (hanswer : Answered U ts answer 0 .assignment) :
    Gives ts (answer .assignment >>= fun e => do
      if (← get) < ts.length then refuse ts .operand else return e) 0 (whole U ts) := by
  refine Gives.bind hanswer reads_assignment rfl (Nat.zero_le _)
    fun e pos _ _ _ => ?_
  have hend : (Reader.atIndex ts pos).rest.isEmpty = true ↔ ¬ pos < ts.length := by
    rw [List.isEmpty_iff, Nat.not_lt]
    exact List.drop_eq_nil_iff
  refine gives_get ?_
  dsimp only
  split
  · rename_i hlt
    rw [if_neg fun h => hend.1 h hlt]
    exact gives_refuse .operand
  · rename_i hlt
    rw [if_pos (hend.2 hlt)]
    exact gives_pure e

/-- The recursion gives what the parser gives for all tokens, and a token that is refused is
reported with its position. -/
theorem gives_parse {n : Nat} (hn : Routine.assignment.depth ts 0 < n) :
    parseWithin U ts n = some (parse U ts) ∧
      ∀ z, parse U ts = .error z → Reports ts z := by
  by_cases hts : ts.isEmpty
  · rw [parseWithin, parse, if_pos hts, if_pos hts]
    exact ⟨rfl, fun z hz => Except.error.inj hz ▸ nofun⟩
  · obtain ⟨heq, hreports⟩ := gives_whole (answered_attempt (U := U) (Nat.zero_le ts.length) hn)
    rw [parseWithin, if_neg hts, parse_eq_whole hts]
    constructor
    · change Functor.map (f := ExceptT ParseError Option) Prod.fst _ = _
      rw [heq]
      cases whole U ts <;> rfl
    · intro z hz
      cases hwhole : whole U ts with
      | error z' =>
        rw [hwhole] at hz
        exact Except.error.inj hz ▸ hreports z' hwhole
      | ok p =>
        rw [hwhole] at hz
        cases hz

/-! ## Progress -/

/-- The parser makes progress. At every position the recursion ends for every routine, with the
result of the grammar. A routine that succeeds leaves a position behind its own and not behind
the tokens, and between the two the brackets are nested; behind the members of a list stands the
closing bracket. Where a token is refused, by a routine or for all tokens, it is reported with
the position where it stands. -/
theorem descent_progress (U : FunctionTable R) (ts : List (Token R)) :
    (∀ (r : Routine) (pos : Nat), pos ≤ ts.length →
      (∀ n, r.depth ts pos < n → attempt U ts n r pos = some (result U ts r pos)) ∧
      (∀ v pos', result U ts r pos = .ok (v, pos') →
        pos < pos' ∧ pos' ≤ ts.length ∧ r.Takes (ts.extract pos pos')) ∧
      ∀ found i, result U ts r pos = .error (.unexpectedToken found i) →
        ∃ h : i < ts.length, found = ts[i].text) ∧
    (∀ n, Routine.assignment.depth ts 0 < n → parseWithin U ts n = some (parse U ts)) ∧
    ∀ found i, parse U ts = .error (.unexpectedToken found i) →
      ∃ h : i < ts.length, found = ts[i].text := by
  refine ⟨fun r pos hpos => ⟨fun n hn => ?_, fun v pos' h => ?_, fun found i h => ?_⟩,
    fun n hn => ?_, fun found i h => ?_⟩
  · exact (answered_attempt hpos hn).eq
  · exact taken_of_result hpos h
  · exact (answered_attempt hpos (Nat.lt_succ_self _)).reports _ h found i rfl
  · exact (gives_parse hn).1
  · exact (gives_parse (Nat.lt_succ_self _)).2 _ h found i rfl

/-- In `(x)` with a closing brace behind it, the group is a primary, and the brace is refused. -/
theorem descent_progress_group :
    let U : FunctionTable Whole := FunctionTable.empty
    let ts : List (Token Whole) :=
      [.delimiter .openParen, .name "x", .delimiter .closeParen, .delimiter .closeBrace]
    attempt U ts 53 .primary 0 = some (.ok (.var "x", 3)) ∧
      0 < 3 ∧ 3 ≤ ts.length ∧ Nested (ts.extract 0 3) ∧
      parse U ts = .error (.unexpectedToken "\x7d" 3) ∧
      ∃ h : 3 < ts.length, "\x7d" = ts[3].text := by
  intro U ts
  obtain ⟨hroutine, hwhole, hreports⟩ := descent_progress U ts
  obtain ⟨hanswer, htaken, -⟩ := hroutine .primary 0 (Nat.zero_le _)
  have hattempt : attempt U ts 53 .primary 0 = some (.ok (.var "x", 3)) := rfl
  have hresult : result U ts .primary 0 = .ok (.var "x", 3) :=
    Option.some.inj ((hanswer 53 (by decide)).symm.trans hattempt)
  obtain ⟨hlt, hle, hnested⟩ := htaken _ _ hresult
  have hparse : parse U ts = .error (.unexpectedToken "\x7d" 3) :=
    Option.some.inj ((hwhole 64 (by decide)).symm.trans rfl)
  exact ⟨hattempt, hlt, hle, hnested, hparse, hreports _ _ hparse⟩

end Recursion

end Descent

end SymbolicAlgebra
