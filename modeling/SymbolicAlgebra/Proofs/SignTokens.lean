import SymbolicAlgebra.Proofs.CallArity

set_option autoImplicit false

/-!
# The signs among the tokens of a text

What a sign stands for is settled when it is read, from the token before it: behind an operand it
is an operation or an update, at the start of one it negates (`Token.SignFits`). Later lexemes may
take back tokens and put a complex literal in their place. But they take back tokens from the end
only, and never push an operator in doing so (`Lexeme.Spells`); so every sign still stands behind
the token that it was settled by. `signs_of_tokenize` states this for the signs and negations among
the tokens of every text.
-/

namespace SymbolicAlgebra

open Text (Cursor isBlank isNameStart isNameChar)

variable {R : Type}

/-! ## Operators of a text -/

namespace Lexeme

/-- An operator is spelled at the cursor, as a word or as a symbol. -/
inductive SpelledAt (c : Cursor) : Operator → Prop where
  | word {op : Operator}
      (h : Operator.ofWord? (String.ofList (c.span isNameChar).1) = some op) : SpelledAt c op
  | symbol {op : Operator} {c' : Cursor} (h : operator? c = some (op, c')) : SpelledAt c op

/-- The symbol of an operator at the cursor is the text ahead, and consists of characters of
operators. -/
theorem exists_take_of_operator? {c c' : Cursor} {op : Operator}
    (h : operator? c = some (op, c')) : ∃ n, (c.rest.take n).all isOperatorChar = true ∧
      Operator.ofSymbol? (String.ofList (c.rest.take n)) = some op := by
  obtain ⟨n, -, hn⟩ := List.exists_of_findSome?_eq_some h
  unfold operatorOfLength? at hn
  dsimp only at hn
  split at hn
  · rename_i hw
    obtain ⟨op', hop, heq⟩ := Option.map_eq_some_iff.1 hn
    rw [← (Prod.mk.inj heq).1]
    exact ⟨n, hw.2, hop⟩
  · cases hn

end Lexeme

/-- An operator is found by its symbol, or it is a definition. -/
theorem Operator.symbol_of_ofSymbol? {s : String} {op : Operator}
    (h : Operator.ofSymbol? s = some op) : op = .assign ∨ op.symbol = s := by
  unfold ofSymbol? at h
  split at h
  · exact .inl (Option.some.inj h).symm
  · exact .inr (by simpa using List.find?_some h)

/-- A word that spells an operator is listed, in small letters. -/
theorem Operator.mem_words_of_ofWord? {w : String} {op : Operator}
    (h : Operator.ofWord? w = some op) : (smallLetters w, op) ∈ words := by
  obtain ⟨ps, qs, hwords, -⟩ := List.lookup_eq_some_iff.1 h
  rw [hwords]
  exact List.mem_append_right _ List.mem_cons_self

/-- The sign of a negative operand is not spelled: it comes from a minus sign. -/
theorem Lexeme.SpelledAt.ne_negate {c : Cursor} {op : Operator} (h : SpelledAt c op) :
    op ≠ .negate := by
  rintro rfl
  cases h with
  | word h =>
    have hmem := Operator.mem_words_of_ofWord? h
    simp [Operator.words] at hmem
  | symbol h =>
    obtain ⟨n, hchars, hop⟩ := exists_take_of_operator? h
    rcases Operator.symbol_of_ofSymbol? hop with hassign | hsymbol
    · cases hassign
    · -- The symbol would be a word of letters.
      rw [← String.toList_ofList (l := c.rest.take n), ← hsymbol] at hchars
      revert hchars
      decide

/-! ## Tokens that are replaced -/

/-- Whether the token is an operator. -/
def Token.isOperator : Token R → Bool
  | .operator _ => true
  | _ => false

/-- The second draft has tokens in place of some of the last tokens of the first one, none of
them an operator, and the same brackets are open. -/
structure Draft.Rewrites (d d' : Draft R) : Prop where
  /-- The tokens. -/
  tokens : ∃ gone new old, d.tokens = gone ++ old ∧ d'.tokens = new ++ old ∧
    ∀ t ∈ new, t.token.isOperator = false
  /-- The open brackets. -/
  opened : d'.opened = d.opened

namespace Draft

theorem Rewrites.refl (d : Draft R) : d.Rewrites d := ⟨⟨[], [], d.tokens, rfl, rfl, nofun⟩, rfl⟩

theorem Rewrites.push {d d' : Draft R} (h : d.Rewrites d') {t : Token R}
    (ht : t.isOperator = false) (o : Nat) : d.Rewrites (d'.push t o) where
  tokens := by
    obtain ⟨gone, new, old, hd, hd', hnew⟩ := h.tokens
    refine ⟨gone, ⟨t, o⟩ :: new, old, hd, congrArg (_ :: ·) hd', fun u hu => ?_⟩
    rcases List.mem_cons.1 hu with rfl | hu
    · exact ht
    · exact hnew u hu
  opened := h.opened

theorem rewrites_push (d : Draft R) {t : Token R} (ht : t.isOperator = false) (o : Nat) :
    d.Rewrites (d.push t o) :=
  (Rewrites.refl d).push ht o

variable [Scalar R] {d : Draft R}

/-- Merging puts a literal in the place of a literal and its signs. -/
theorem rewrites_merged {m : Merge R} (hm : d.mergeable? = some m) {t : Token R}
    (ht : t.isOperator = false) : d.Rewrites (m.before.push t m.offset) := by
  obtain ⟨gone, hd, ho, -, -⟩ := mergeable?_eq_some hm
  have h : d.Rewrites m.before := ⟨⟨gone, [], m.before.tokens, hd, rfl, nofun⟩, ho⟩
  exact h.push ht m.offset

theorem rewrites_pushImaginary (d : Draft R) (v : R) (o : Nat) (mayMerge : Bool) :
    d.Rewrites (d.pushImaginary v o mayMerge) := by
  unfold pushImaginary
  split
  · rename_i m _ hm
    exact rewrites_merged hm rfl
  · exact d.rewrites_push rfl o

end Draft

namespace Lexeme

variable [Scalar R] {d d' : Draft R} {start c : Cursor}

/-- A number with what follows it pushes literals and units only. -/
theorem IsNumber.rewrites (h : IsNumber d start d' c) : d.Rewrites d' := by
  cases h with
  | plain hv => exact d.rewrites_push rfl _
  | imaginary hv hi => exact d.rewrites_pushImaginary _ _ _
  | quantity hv hu => exact (d.rewrites_push rfl _).push rfl _
  | polar hv hsign hdigits hnext ha => exact d.rewrites_push rfl _
  | degrees hv hsign hm => exact Draft.rewrites_merged hm rfl

/-- A word is an operator, or pushes a literal or a name. -/
theorem rewrites_pushWord (d : Draft R) (w : String) (o : Nat) (c : Cursor) :
    (∃ op, Operator.ofWord? w = some op ∧
      pushWord d w o c = d.pushOperator op o (operandFollows c)) ∨
    d.Rewrites (pushWord d w o c) := by
  unfold pushWord
  split
  · rename_i op hop
    exact .inl ⟨op, hop, rfl⟩
  · exact .inr (d.rewrites_push rfl o)
  · exact .inr (d.rewrites_push rfl o)
  · refine .inr ?_
    split
    · exact d.rewrites_push rfl o
    split
    · exact d.rewrites_pushImaginary _ _ _
    · exact d.rewrites_push rfl o

/-- What a lexeme does to the operators among the tokens. -/
inductive Spells (d : Draft R) (start : Cursor) (x : Char) : Draft R → Cursor → Prop where
  /-- It is an operator, which is settled. -/
  | operator {op : Operator} {c : Cursor} (hop : SpelledAt start op) :
      Spells d start x (d.pushOperator op start.offset (operandFollows c)) c
  /-- It is a bracket or comma, which is pushed. -/
  | delimiter {b : Delimiter} {d' : Draft R} (hb : Delimiter.ofChar? x = some b)
      (ht : d'.tokens = ⟨.delimiter b, start.offset⟩ :: d.tokens)
      (ho : ∀ bo ∈ d'.opened, bo = (b, start.offset) ∨ bo ∈ d.opened) (c : Cursor) :
      Spells d start x d' c
  /-- It puts tokens that are no operators in the place of the last tokens. -/
  | rewrites {d' : Draft R} (hr : d.Rewrites d') (c : Cursor) : Spells d start x d' c

/-- Every lexeme is one of the three cases. -/
theorem spells_of_step {x : Char} (h : step d start x = .ok (d', c)) :
    Spells d start x d' c := by
  cases isLexeme_of_step h with
  | blank hb => exact .rewrites (Draft.Rewrites.refl d) _
  | number hn => exact .rewrites hn.rewrites c
  | word hb hn hs =>
    rcases rewrites_pushWord d (String.ofList (start.span isNameChar).1) start.offset
      (start.span isNameChar).2 with ⟨op, hop, hd⟩ | hd
    · rw [hd]
      exact .operator (.word hop)
    · exact .rewrites hd _
  | opening hb ho =>
    refine .delimiter hb rfl ?_ _
    intro bo hbo
    exact List.mem_cons.1 hbo
  | closing hb hd =>
    obtain ⟨a, o', rest, hopened, -, rfl⟩ := Draft.closeBracket_eq_ok hd
    refine .delimiter hb rfl ?_ _
    intro bo hbo
    rw [hopened]
    exact .inr (List.mem_cons_of_mem _ hbo)
  | comma hb =>
    refine .delimiter hb rfl ?_ _
    intro bo hbo
    exact .inr hbo
  | temperature hu => exact .rewrites (d.rewrites_push rfl _) c
  | symbol hop => exact .operator (.symbol hop)

end Lexeme

/-! ## Signs behind tokens -/

namespace Token

/-- Whether the token is a sign between two operands or updates the one before it. -/
def followsOperand : Token R → Bool
  | .operator op => op = .plus || op = .minus || op = .increment || op = .decrement
  | _ => false

/-- Whether the token is the sign of a negative operand. -/
def isNegation : Token R → Bool
  | .operator op => op = .negate
  | _ => false

/-- A sign stands where it should, given the token before it, if there is one: an operation or
update behind an operand, a negation elsewhere. -/
structure SignFits (before? : Option (Token R)) (t : Token R) : Prop where
  /-- What follows an operand. -/
  operation : t.followsOperand = true → before?.any endsValue = true
  /-- What starts an operand. -/
  negation : t.isNegation = true → before?.any endsValue = false

/-- What is no operator stands anywhere. -/
theorem signFits_of_isOperator {t : Token R} (h : t.isOperator = false)
    (before? : Option (Token R)) : SignFits before? t := by
  cases t with
  | operator op => cases h
  | _ => exact ⟨nofun, nofun⟩

end Token

/-- Every sign among the tokens, the last one first, stands where it should. -/
inductive SignsFit : List (Token R) → Prop where
  | nil : SignsFit []
  | cons {t : Token R} {ts : List (Token R)} (ht : Token.SignFits ts.head? t)
      (h : SignsFit ts) : SignsFit (t :: ts)

theorem signsFit_cons_iff {t : Token R} {ts : List (Token R)} :
    SignsFit (t :: ts) ↔ Token.SignFits ts.head? t ∧ SignsFit ts :=
  ⟨fun h => by cases h with | cons ht h => exact ⟨ht, h⟩, fun h => .cons h.1 h.2⟩

/-- The first tokens stand where they should without the later ones. -/
theorem SignsFit.of_append {ts us : List (Token R)} (h : SignsFit (ts ++ us)) : SignsFit us := by
  induction ts with
  | nil => exact h
  | cons t ts ih => exact ih (signsFit_cons_iff.1 h).2

/-- Tokens that are no operators may be pushed. -/
theorem SignsFit.append {ts us : List (Token R)} (h : SignsFit us)
    (ht : ∀ t ∈ ts, t.isOperator = false) : SignsFit (ts ++ us) := by
  induction ts with
  | nil => exact h
  | cons t ts ih =>
    obtain ⟨ht, hts⟩ := List.forall_mem_cons.1 ht
    exact .cons (Token.signFits_of_isOperator ht _) (ih hts)

namespace Draft

/-- Replacing the last tokens without operators keeps the signs. -/
theorem Rewrites.signsFit {d d' : Draft R} (h : d.Rewrites d') (hd : SignsFit d.behind) :
    SignsFit d'.behind := by
  obtain ⟨gone, new, old, hgone, hnew, hops⟩ := h.tokens
  unfold behind at hd ⊢
  rw [hgone, List.map_append] at hd
  rw [hnew, List.map_append]
  refine hd.of_append.append fun t ht => ?_
  obtain ⟨l, hl, rfl⟩ := List.mem_map.1 ht
  exact hops l hl

/-- The token before the next one ends a value unless an operand starts. -/
theorem any_endsValue_behind (d : Draft R) :
    d.behind.head?.any Token.endsValue = !d.atOperandStart := by
  unfold behind atOperandStart
  cases d.tokens with
  | nil => rfl
  | cons t ts => simp

/-- Settling an operator puts every sign where it should be. -/
theorem signsFit_pushOperator {d : Draft R} (h : SignsFit d.behind) {op : Operator}
    (hop : op ≠ .negate) (o : Nat) (follows : Bool) :
    SignsFit (d.pushOperator op o follows).behind := by
  -- The sign of a negative operand, at the start of an operand or behind a sign.
  have hnegate : ∀ {d : Draft R} {o : Nat}, SignsFit d.behind → d.atOperandStart = true →
      SignsFit (d.push (.operator .negate) o).behind := by
    intro d o h hstart
    refine .cons ⟨nofun, fun _ => ?_⟩ h
    exact (any_endsValue_behind d).trans (by rw [hstart]; rfl)
  -- Any other operator behind an operand.
  have hbehind : ∀ op, op ≠ .negate → d.atOperandStart = false →
      SignsFit (d.push (.operator op) o).behind := by
    intro op hop hstart
    refine .cons ⟨fun _ => ?_, fun hn => absurd (of_decide_eq_true hn) hop⟩ h
    exact (any_endsValue_behind d).trans (by rw [hstart]; rfl)
  unfold pushOperator
  cases hstart : d.atOperandStart with
  | true =>
    cases op with
    | plus | increment => exact h
    | minus => exact hnegate h hstart
    | decrement => exact hnegate (hnegate h hstart) rfl
    | negate => exact absurd rfl hop
    | _ => exact .cons ⟨nofun, nofun⟩ h
  | false =>
    cases op with
    | increment =>
      cases follows with
      | true => exact hbehind .plus nofun hstart
      | false => exact hbehind .increment nofun hstart
    | decrement =>
      cases follows with
      | true => exact hnegate (hbehind .minus nofun hstart) rfl
      | false => exact hbehind .decrement nofun hstart
    | _ => exact hbehind _ hop hstart

end Draft

/-! ## Whole texts -/

section Texts

variable [Scalar R]

/-- Every lexeme keeps the signs. -/
theorem Lexeme.signsFit_step {d d' : Draft R} {start c : Cursor} {x : Char}
    (h : SignsFit d.behind) (hd : step d start x = .ok (d', c)) : SignsFit d'.behind := by
  cases spells_of_step hd with
  | operator hop => exact Draft.signsFit_pushOperator h hop.ne_negate _ _
  | delimiter hb ht ho =>
    unfold Draft.behind
    rw [ht]
    exact .cons (Token.signFits_of_isOperator rfl _) h
  | rewrites hr => exact hr.signsFit h

/-- The signs of every text stand where they should. -/
theorem signsFit_of_readLexemes {d d' : Draft R} {start : Cursor} (h : SignsFit d.behind)
    (hd : readLexemes d start = .ok d') : SignsFit d'.behind := by
  obtain ⟨c, -, hc⟩ := invariant_of_readLexemes (P := fun d _ => SignsFit d.behind)
    (fun _ _ _ _ _ _ h _ hd => Lexeme.signsFit_step h hd) h hd
  exact hc

end Texts

/-! ## From left to right -/

/-- The token before the place `i`, if there is one. -/
def before? (ts : List (Token R)) (i : Nat) : Option (Token R) :=
  if i = 0 then none else ts[i - 1]?

/-- The token before a place is the last one of those in front of it. -/
theorem head?_reverse_take {ts : List (Token R)} {i : Nat} (hi : i < ts.length) :
    (ts.take i).reverse.head? = before? ts i := by
  rw [List.head?_reverse, List.getLast?_take, before?]
  split
  · rfl
  · rw [List.getElem?_eq_getElem (by omega), Option.some_or]

/-- A token stands behind the tokens in front of its place, the last one first. -/
theorem cons_suffix_of_getElem? {ts : List (Token R)} {i : Nat} {t : Token R}
    (h : ts[i]? = some t) : t :: (ts.take i).reverse <:+ ts.reverse := by
  obtain ⟨hlt, rfl⟩ := List.getElem?_eq_some_iff.1 h
  refine ⟨(ts.drop (i + 1)).reverse, ?_⟩
  calc (ts.drop (i + 1)).reverse ++ ts[i] :: (ts.take i).reverse
      = (ts.take i ++ ts[i] :: ts.drop (i + 1)).reverse := by
        rw [List.reverse_append, List.reverse_cons, List.append_assoc, List.singleton_append]
    _ = ts.reverse := by rw [List.getElem_cons_drop, List.take_append_drop]

/-- Among tokens that are given from left to right, each sign fits the token before it. -/
theorem SignsFit.signFits {ts : List (Token R)} (h : SignsFit ts.reverse) {i : Nat} {t : Token R}
    (hi : ts[i]? = some t) : Token.SignFits (before? ts i) t := by
  obtain ⟨us, hsplit⟩ := cons_suffix_of_getElem? hi
  rw [← hsplit] at h
  rw [← head?_reverse_take (List.getElem?_eq_some_iff.1 hi).1]
  exact (signsFit_cons_iff.1 h.of_append).1

namespace Token

/-- Settling the numbers of arguments changes nothing but these. -/
theorem getElem?_settleArities (ts : List (Token R)) (i : Nat) :
    (settleArities ts)[i]? = ts[i]?.map (settleArity (ts.drop (i + 1))) := by
  induction ts generalizing i with
  | nil => rfl
  | cons t ts ih =>
    cases i with
    | zero => rfl
    | succ i => exact ih i

/-- Whether an operand may end with a token is not changed. -/
theorem endsValue_settleArity (ts : List (Token R)) (t : Token R) :
    (settleArity ts t).endsValue = t.endsValue := by
  cases t <;> rfl

/-- Whether something to negate may start with a token is not changed. -/
theorem negatable_settleArity (ts : List (Token R)) (t : Token R) :
    negatable (settleArity ts t) = negatable t := by
  cases t <;> rfl

/-- An operator is what it was. -/
theorem settleArity_eq_operator_iff {ts : List (Token R)} {t : Token R} {op : Operator} :
    settleArity ts t = .operator op ↔ t = .operator op := by
  cases t <;> simp [settleArity]

/-- The token before a place ends a value if it did before settling. -/
theorem any_endsValue_before? (ts : List (Token R)) (i : Nat) :
    (before? (settleArities ts) i).any endsValue = (before? ts i).any endsValue := by
  unfold before?
  split
  · rfl
  · rw [getElem?_settleArities, Option.any_map]
    congr 1
    funext t
    exact endsValue_settleArity _ t

end Token

/-- Where no negation is bare, each one has something to negate behind it. -/
theorem negatable_of_bareNot? {ts : List (Located R)} (h : bareNot? ts = none) {i : Nat}
    (hi : (ts.map (·.token))[i]? = some (.operator .not)) :
    ∃ u, (ts.map (·.token))[i + 1]? = some u ∧ negatable u = true := by
  induction ts generalizing i with
  | nil => cases hi
  | cons t ts ih =>
    rw [bareNot?] at h
    split at h
    · cases h
    rename_i hbare
    cases i with
    | succ i => exact ih h hi
    | zero =>
      have ht : t.token = .operator .not := Option.some.inj hi
      rw [ht] at hbare
      cases ts with
      | nil => exact absurd rfl hbare
      | cons u us =>
        refine ⟨u.token, rfl, ?_⟩
        rw [← Bool.not_eq_false]
        intro hu
        exact hbare (by simp [isNot, hu])

/-! ## The tokens of a text -/

/-- The signs and negations among the tokens of a text. An operation that is a sign, or an
update, stands behind a token with which an operand may end. The sign of a negative operand does
not. Behind each negation of a truth value stands a token that is no closing bracket, no comma
and no operator other than a sign of a negative operand or another negation. -/
theorem signs_of_tokenize [Scalar R] {text : String} {ts : List (Token R)}
    (h : tokenize text = .ok ts) (i : Nat) (op : Operator) (hi : ts[i]? = some (.operator op)) :
    (op = .plus ∨ op = .minus ∨ op = .increment ∨ op = .decrement →
      0 < i ∧ ∃ u, ts[i - 1]? = some u ∧ u.endsValue = true) ∧
    (op = .negate → i = 0 ∨ ∃ u, ts[i - 1]? = some u ∧ u.endsValue = false) ∧
    (op = .not → ∃ u, ts[i + 1]? = some u ∧ (∀ b, u = .delimiter b → b.isOpen = true) ∧
      ∀ op', u = .operator op' → op' = .negate ∨ op' = .not) := by
  obtain ⟨d, hd, -, hnot, rfl⟩ := tokenize_eq_ok h
  rw [← Draft.behind] at hi ⊢
  have hlt : i < (Token.settleArities d.behind.reverse).length :=
    (List.getElem?_eq_some_iff.1 hi).1
  -- The operator was there before the numbers of arguments were settled.
  have hop : d.behind.reverse[i]? = some (.operator op) := by
    rw [Token.getElem?_settleArities] at hi
    obtain ⟨t, ht, hop⟩ := Option.map_eq_some_iff.1 hi
    rw [ht, Token.settleArity_eq_operator_iff.1 hop]
  have hfit : Token.SignFits (before? d.behind.reverse i) (.operator op) := by
    refine SignsFit.signFits ?_ hop
    rw [List.reverse_reverse]
    exact signsFit_of_readLexemes (d := Draft.empty) .nil hd
  have hvalue := Token.any_endsValue_before? d.behind.reverse i
  refine ⟨fun hsign => ?_, fun hneg => ?_, fun hnegation => ?_⟩
  · have hany := hvalue.trans (hfit.operation (by rcases hsign with rfl | rfl | rfl | rfl <;> rfl))
    unfold before? at hany
    split at hany
    · cases hany
    · rename_i hpos
      obtain ⟨u, hu, hends⟩ := (Option.any_eq_true _ _).1 hany
      exact ⟨Nat.pos_of_ne_zero hpos, u, hu, hends⟩
  · subst hneg
    have hany := hvalue.trans (hfit.negation rfl)
    unfold before? at hany
    split at hany
    · rename_i hzero
      exact .inl hzero
    · refine .inr ⟨_, List.getElem?_eq_getElem (by omega), ?_⟩
      rw [List.getElem?_eq_getElem (by omega), Option.any_some] at hany
      exact hany
  · subst hnegation
    obtain ⟨u, hu, hnegatable⟩ := negatable_of_bareNot? hnot (i := i) (by
      rw [List.map_reverse]
      exact hop)
    rw [List.map_reverse, ← Draft.behind] at hu
    rw [Token.getElem?_settleArities, hu]
    refine ⟨_, rfl, ?_⟩
    rw [← Token.negatable_settleArity (d.behind.reverse.drop (i + 1 + 1)) u] at hnegatable
    refine ⟨fun b hb => ?_, fun op' hop' => ?_⟩
    · rw [hb] at hnegatable
      exact hnegatable
    · rw [hop'] at hnegatable
      simpa [Token.settleArity, negatable] using hnegatable

/-- In `~(x - -y)` the minus sign stands behind `x`, the sign of `y` behind the minus sign, and
behind the negation a bracket is opened. -/
theorem signs_of_tokenize_negation :
    let ts : List (Token Whole) := [.operator .not, .delimiter .openParen, .name "x",
      .operator .minus, .operator .negate, .name "y", .delimiter .closeParen]
    tokenize "~(x - -y)" = .ok ts ∧
      (∃ u, ts[3 - 1]? = some u ∧ u.endsValue = true) ∧
      (∃ u, ts[4 - 1]? = some u ∧ u.endsValue = false) ∧
      ∃ u, ts[0 + 1]? = some u ∧ (∀ b, u = .delimiter b → b.isOpen = true) ∧
        ∀ op, u = .operator op → op = .negate ∨ op = .not := by
  intro ts
  have hname : ∀ x, isVariableName x = true →
      Atom (R := Whole) FunctionTable.empty x.toList [.name x] (.var x) := fun _ h => .name h
  have hdifference : Phrase (R := Whole) FunctionTable.empty _
      [.name "x", .operator .minus, .operator .negate, .name "y"] _ :=
    .joined (l := .sum) rfl (.atom (hname "x" (by decide +kernel)))
      (.opposite (hname "y" (by decide +kernel)))
  have htokens : tokenize "~(x - -y)" = .ok ts := (Phrase.not (.atom (.group hdifference))).tokenize
  refine ⟨htokens, ?_, ?_, ?_⟩
  · exact ((signs_of_tokenize htokens 3 .minus rfl).1 (.inr (.inl rfl))).2
  · exact ((signs_of_tokenize htokens 4 .negate rfl).2.1 rfl).resolve_left (by decide)
  · exact (signs_of_tokenize htokens 0 .not rfl).2.2 rfl

end SymbolicAlgebra
