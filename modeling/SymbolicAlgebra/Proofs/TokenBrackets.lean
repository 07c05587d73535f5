import Mathlib.Data.List.Chain
import SymbolicAlgebra.Proofs.BracketNesting
import SymbolicAlgebra.Proofs.LexemeSteps

set_option autoImplicit false

/-!
# The brackets of a text

While a text is read, brackets are matched against the ones that are open, signs are dropped,
literals are merged with what stands before them, and a word is taken for the name of a call
because of the character behind it. None of this disturbs the brackets: those on the list of
open ones are the ones that the tokens leave open, and a call waits for its bracket only as
long as this bracket is the next character (`Draft.BracketedAt`, kept by every lexeme as
`Lexeme.bracketedAt_step` says).

So the tokens of every text are well bracketed (`wellBracketed_of_tokenize`): their brackets are
nested, and every call stands in front of its arguments.
-/

namespace SymbolicAlgebra

open Text (Cursor)

variable {R : Type}

/-! ## Tokens read so far -/

/-- Whether the token is the name of a call. -/
def Token.isCall : Token R → Bool
  | .call _ _ => true
  | _ => false

/-- Whether the token opens a group. -/
def Token.opensGroup : Token R → Bool
  | .delimiter d => d.isOpen
  | _ => false

theorem Token.opensGroup_iff {t : Token R} :
    t.opensGroup = true ↔ ∃ b, t = .delimiter b ∧ b.isOpen = true := by
  constructor
  · intro h
    cases t with
    | delimiter b => exact ⟨b, rfl, h⟩
    | _ => cases h
  · rintro ⟨b, rfl, hb⟩
    exact hb

/-- The first token may stand right behind the second one: behind a call a group is
opened. -/
def Token.MayFollow (t u : Token R) : Prop := u.isCall = true → t.opensGroup = true

namespace Draft

/-- The tokens of the draft without their places, the last one first. -/
def behind (d : Draft R) : List (Token R) := d.tokens.map (·.token)

/-- Whether the last token is the name of a call, whose bracket has not been read. -/
def endsInCall (d : Draft R) : Bool := d.behind.head?.any Token.isCall

/-- The open brackets are those that the tokens leave open, and behind each call that is not
the last token a group is opened. -/
structure Bracketed (d : Draft R) : Prop where
  /-- The brackets that the tokens leave open. -/
  opened : openAfter? [] d.behind.reverse = some (d.opened.map (·.1))
  /-- What stands behind a call. -/
  calls : d.behind.IsChain Token.MayFollow

/-- Besides, no call waits for its bracket. -/
structure Settled (d : Draft R) : Prop extends d.Bracketed where
  /-- The last token is no call. -/
  last : d.endsInCall = false

/-- Besides, the bracket that a call waits for is the next character. -/
structure BracketedAt (d : Draft R) (c : Cursor) : Prop extends d.Bracketed where
  /-- The bracket of the last call. -/
  next : d.endsInCall = true → c.nextIs UnitSuffix.isCallBracket = true

theorem settled_empty : (empty : Draft R).Settled where
  opened := rfl
  calls := .nil
  last := rfl

theorem Settled.bracketedAt {d : Draft R} (h : d.Settled) (c : Cursor) : d.BracketedAt c where
  toBracketed := h.toBracketed
  next hl := by
    rw [h.last] at hl
    cases hl

/-- Where no bracket follows, no call waits for one. -/
theorem BracketedAt.settled {d : Draft R} {c : Cursor} (h : d.BracketedAt c)
    (hc : c.nextIs UnitSuffix.isCallBracket = false) : d.Settled where
  toBracketed := h.toBracketed
  last := by
    cases hl : d.endsInCall with
    | false => rfl
    | true => rw [h.next hl] at hc; cases hc

/-- The open brackets behind one more token. -/
theorem openAfter?_push {d : Draft R} {bs : List Delimiter}
    (h : openAfter? [] d.behind.reverse = some bs) (t : Token R) (o : Nat) :
    openAfter? [] (d.push t o).behind.reverse = t.openAfter? bs := by
  rw [show (d.push t o).behind = t :: d.behind from rfl, List.reverse_cons, openAfter?_append, h,
    Option.bind_some, openAfter?_cons]
  cases t.openAfter? bs <;> rfl

/-- A token behind a call must open a group. -/
theorem calls_push {d : Draft R} (h : d.behind.IsChain Token.MayFollow) {t : Token R} {o : Nat}
    (ht : d.endsInCall = true → t.opensGroup = true) :
    (d.push t o).behind.IsChain Token.MayFollow := by
  refine List.isChain_cons.2 ⟨fun u hu hc => ht ?_, h⟩
  unfold endsInCall behind
  rw [hu]
  exact hc

variable {d d' : Draft R} {b : Delimiter} {o : Nat}

theorem Settled.push (h : d.Settled) {t : Token R} (ht : t.isBracket = false) :
    (d.push t o).Bracketed where
  opened := by
    rw [openAfter?_push h.opened, Token.openAfter?_of_isBracket ht]
    rfl
  calls := calls_push h.calls fun hl => by rw [h.last] at hl; cases hl

theorem Settled.push_settled (h : d.Settled) {t : Token R} (ht : t.isBracket = false)
    (hc : t.isCall = false) : (d.push t o).Settled where
  toBracketed := h.push ht
  last := hc

theorem Bracketed.openBracket (h : d.Bracketed) (hb : b.isOpen = true) :
    (d.openBracket b o).Settled where
  opened := (openAfter?_push h.opened (.delimiter b) o).trans (Token.openAfter?_open hb _)
  calls := calls_push (o := o) h.calls fun _ => hb
  last := rfl

theorem Settled.closeBracket (h : d.Settled) (hd : d.closeBracket b o = .ok d') :
    d'.Settled := by
  obtain ⟨a, o', bs, hbs, hab, rfl⟩ := Draft.closeBracket_eq_ok hd
  have ho := h.opened
  rw [hbs] at ho
  refine ⟨⟨?_, ?_⟩, rfl⟩
  · exact (openAfter?_push ho (.delimiter b) o).trans (Token.openAfter?_close hab _)
  · exact calls_push (o := o) h.calls fun hl => by rw [h.last] at hl; cases hl

theorem Settled.pushOperator (h : d.Settled) (op : Operator) (o : Nat) (follows : Bool) :
    (d.pushOperator op o follows).Settled := by
  have hop : ∀ {d : Draft R} {op : Operator} {o : Nat}, d.Settled →
      (d.push (.operator op) o).Settled := fun h => h.push_settled rfl rfl
  unfold Draft.pushOperator
  split
  · exact h
  · exact h
  · exact hop h
  · exact hop (hop h)
  · exact hop h
  · exact hop (hop h)
  · exact hop h

/-- Tokens without brackets may be taken back, down to a token behind which an expression
may start. -/
theorem Settled.of_append (h : d.Settled) {ts : List (Located R)}
    (ht : d.tokens = ts ++ d'.tokens) (hb : ∀ t ∈ ts, t.token.isBracket = false)
    (ho : d'.opened = d.opened) (hs : startsExpression d'.tokens = true) : d'.Settled := by
  have hd : d.behind = ts.map (·.token) ++ d'.behind := by
    rw [behind, ht, List.map_append, behind]
  constructor
  · constructor
    · have hn : Nested (ts.map (·.token)).reverse := by
        refine nested_of_forall fun t ht => ?_
        obtain ⟨l, hl, rfl⟩ := List.mem_map.1 (List.mem_reverse.1 ht)
        exact hb l hl
      have hopened := h.opened
      rw [hd, List.reverse_append, openAfter?_append, Option.bind_eq_some_iff] at hopened
      obtain ⟨bs, hbs, hopened⟩ := hopened
      rw [hn.openAfter?_eq] at hopened
      rw [hbs, hopened, ho]
    · have hcalls := h.calls
      rw [hd] at hcalls
      exact (List.isChain_append.1 hcalls).2.1
  · unfold endsInCall behind
    unfold startsExpression at hs
    rw [List.head?_map]
    cases hh : d'.tokens.head? with
    | none => rfl
    | some t =>
      rw [hh] at hs
      obtain ⟨t, o⟩ := t
      cases t <;> first | rfl | cases hs

end Draft

/-! ## Lexemes -/

section Lexemes

variable [Scalar R] {d d' : Draft R} {start c : Cursor}

/-- Every lexeme at which no call waits for its bracket keeps the brackets of a draft. -/
theorem Lexeme.Makes.bracketedAt (hm : Makes d d' c) (h : d.Settled) : d'.BracketedAt c := by
  cases hm with
  | blank => exact h.bracketedAt c
  | literal ht =>
    refine (h.push_settled ?_ ?_).bracketedAt c <;>
    · rename_i t _
      cases t <;> first | rfl | cases ht
  | merged hm z =>
    obtain ⟨ts, ht, ho, hs, htaken⟩ := Draft.mergeable?_eq_some hm
    refine ((h.of_append ht (fun t hmem => ?_) ho hs).push_settled rfl rfl).bracketedAt c
    rcases htaken t hmem with ⟨v, hv⟩ | ⟨op, hop⟩
    · rw [hv]
      rfl
    · rw [hop]
      rfl
  | quantity v o u o' =>
    exact ((h.push_settled (o := o) (t := .number v) rfl rfl).push_settled rfl rfl).bracketedAt c
  | temperature => exact (h.push_settled rfl rfl).bracketedAt c
  | operator op o => exact (h.pushOperator op o _).bracketedAt c
  | call hf o hc => exact ⟨h.push rfl, fun _ => hc⟩
  | name => exact (h.push_settled rfl rfl).bracketedAt c
  | opening hb => exact (h.openBracket hb).bracketedAt c
  | closing hd => exact (h.closeBracket hd).bracketedAt c
  | comma => exact (h.push_settled rfl rfl).bracketedAt c

/-- Every lexeme keeps the brackets of a draft: where a call waits for its bracket, the lexeme
is this bracket. -/
theorem Lexeme.bracketedAt_step {x : Char} {xs : List Char} (h : d.BracketedAt start)
    (hx : start.rest = x :: xs) (hd : step d start x = .ok (d', c)) : d'.BracketedAt c := by
  -- Only where the character opens a group may a call be waiting for it.
  cases hb : UnitSuffix.isCallBracket x with
  | true =>
    obtain ⟨b, ho, hs⟩ := step_of_isCallBracket d start hb
    rw [hs] at hd
    obtain ⟨rfl, -⟩ := Prod.mk.inj (Except.ok.inj hd)
    exact (h.openBracket ho).bracketedAt c
  | false =>
    have hnext : start.nextIs UnitSuffix.isCallBracket = false := by
      simpa [Cursor.nextIs, hx] using hb
    exact (makes_of_step hx hd).bracketedAt (h.settled hnext)

/-- At the end of a text no call waits for its bracket. -/
theorem settled_of_readLexemes (h : d.BracketedAt start) (hd : readLexemes d start = .ok d') :
    d'.Settled := by
  obtain ⟨c, hc, hb⟩ := invariant_of_readLexemes
    (fun _ _ _ _ _ _ h hx hd => Lexeme.bracketedAt_step h hx hd) h hd
  exact hb.settled (by simp [Cursor.nextIs, hc])

end Lexemes

/-! ## Settling the numbers of arguments -/

namespace Token

theorem openAfter?_settleArity (t : Token R) (ts : List (Token R)) (bs : List Delimiter) :
    (settleArity ts t).openAfter? bs = t.openAfter? bs := by
  cases t <;> rfl

/-- Brackets stay as they are. -/
theorem openAfter?_settleArities (ts : List (Token R)) (bs : List Delimiter) :
    SymbolicAlgebra.openAfter? bs (settleArities ts) = SymbolicAlgebra.openAfter? bs ts := by
  induction ts generalizing bs with
  | nil => rfl
  | cons t ts ih =>
    rw [settleArities, openAfter?_cons, openAfter?_cons, openAfter?_settleArity]
    exact congrArg _ (funext ih)

/-- The count does not depend on the numbers that calls hold. -/
theorem argumentCount_settleArities (ts : List (Token R)) (depth commas : Nat) (any : Bool) :
    argumentCount depth commas any (settleArities ts) = argumentCount depth commas any ts := by
  induction ts generalizing depth commas any with
  | nil => rfl
  | cons t ts ih =>
    rw [settleArities]
    cases t with
    | delimiter d => cases d <;> simp only [settleArity, argumentCount, ih]
    | _ => simp only [settleArity, argumentCount, ih]

/-- A call among the tokens comes from one, and its number is counted behind it. -/
theorem settleArities_eq_append {ts u w : List (Token R)} {f : String} {n : Nat}
    (h : settleArities ts = u ++ .call f n :: w) :
    ∃ u' m w', ts = u' ++ .call f m :: w' ∧ n = argumentCount 0 0 false w'.tail ∧
      w = settleArities w' := by
  induction ts generalizing u with
  | nil => simp [settleArities] at h
  | cons t ts ih =>
    cases u with
    | nil =>
      obtain ⟨ht, hw⟩ := List.cons.inj h
      cases t with
      | call f' m =>
        obtain ⟨rfl, rfl⟩ := Token.call.inj ht
        exact ⟨[], m, ts, rfl, rfl, hw.symm⟩
      | _ => cases ht
    | cons t' u =>
      obtain ⟨-, hu⟩ := List.cons.inj h
      obtain ⟨u', m, w', rfl, hn, hw⟩ := ih hu
      exact ⟨t :: u', m, w', rfl, hn, hw⟩

end Token

/-- The brackets are nested, and behind each call stands a group in brackets that holds as
many arguments as the call says. -/
structure WellBracketed (ts : List (Token R)) : Prop where
  /-- The brackets. -/
  nested : Nested ts
  /-- The arguments of a call. -/
  calls : ∀ u f n w, ts = u ++ .call f n :: w → ∃ b b' v x, b.closing? = some b' ∧
    w = .delimiter b :: (v ++ .delimiter b' :: x) ∧ Arguments v n

/-- Behind a call among the tokens of a settled draft a group is opened. -/
theorem Draft.Settled.opens {d : Draft R} (h : d.Settled) {u w : List (Token R)} {f : String}
    {n : Nat} (hw : d.behind.reverse = u ++ .call f n :: w) :
    ∃ b v, b.isOpen = true ∧ w = .delimiter b :: v := by
  rw [List.reverse_eq_iff, List.reverse_append, List.reverse_cons, List.append_assoc,
    List.singleton_append] at hw
  cases w with
  | nil =>
    have hl := h.last
    rw [Draft.endsInCall, hw] at hl
    cases hl
  | cons t v =>
    have hc := h.calls
    rw [hw, List.reverse_cons, List.append_assoc, List.singleton_append,
      List.isChain_append_cons_cons] at hc
    obtain ⟨b, rfl, hb⟩ := Token.opensGroup_iff.1 (hc.2.1 rfl)
    exact ⟨b, v, hb, rfl⟩

/-- The tokens of every text are well bracketed. -/
theorem wellBracketed_of_tokenize [Scalar R] {text : String} {ts : List (Token R)}
    (h : tokenize text = .ok ts) : WellBracketed ts := by
  obtain ⟨d, hd, hnil, -, rfl⟩ := tokenize_eq_ok h
  rw [← Draft.behind]
  have hs : d.Settled := settled_of_readLexemes (Draft.settled_empty.bracketedAt _) hd
  have hnested : Nested (Token.settleArities d.behind.reverse) := by
    rw [nested_iff, Token.openAfter?_settleArities, hs.opened, hnil]
    rfl
  refine ⟨hnested, fun u f n w hw => ?_⟩
  obtain ⟨u', m, w', hword, rfl, rfl⟩ := Token.settleArities_eq_append hw
  obtain ⟨b, v, hb, rfl⟩ := hs.opens hword
  rw [hw] at hnested
  rw [← List.singleton_append, ← List.append_assoc] at hnested
  -- Nesting is known of the settled tokens, so the group is closed among these.
  obtain ⟨b', v', x, hbb, hv, hv'⟩ := hnested.exists_close hb
  refine ⟨b, b', v', x, hbb, congrArg _ hv, ?_⟩
  -- The count was made before the numbers in the group were settled.
  obtain ⟨k, hk⟩ := hv'.exists_arguments
  have hcount := hk.argumentCount (Delimiter.isOpen_isClose hbb).2 x
  rw [← hv, Token.argumentCount_settleArities] at hcount
  rw [List.tail_cons, hcount]
  exact hk

end SymbolicAlgebra
