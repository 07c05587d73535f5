import SymbolicAlgebra.Token.Tokenize

set_option autoImplicit false

/-!
# What one lexeme makes of the tokens

A lexeme pushes tokens, settles a sign, opens or closes a bracket, or takes back a literal and
a sign and pushes what they are merged to. Everything that holds of the tokens of all texts is
proved from this list of cases, and not from the code that reads the characters.

What this module delivers:

- `isWord`, `isFunctionName` and `isVariableName`, the words that stand for names.
- `Draft.mergeable?_eq_some`, what merging takes back, and `Draft.closeBracket_eq_ok`.
- `Lexeme.IsLexeme`, the kinds of lexemes with the characters they take, and
  `Lexeme.isLexeme_of_step`.
- `Lexeme.Makes`, what they make of the tokens, and `Lexeme.makes_of_step`.
- `readLexemes_nil`, `readLexemes_cons` and `invariant_of_readLexemes`, from one lexeme to a whole
  text, and `tokenize_eq_ok`.
-/

namespace SymbolicAlgebra

open Text (Cursor isBlank isNameStart isNameChar)

/-! ## Words -/

/-- Whether characters form one word: no number and no blank may start it. -/
def isWord : List Char → Bool
  | [] => false
  | c :: cs => !isBlank c && !Numeral.isStart c && isNameStart c && cs.all isNameChar

/-- Whether a word is the name of a function where a bracket follows: it stands for nothing
else. -/
def isFunctionName (f : String) : Bool :=
  isWord f.toList && (Operator.ofWord? f).isNone && (Lexeme.truth? f).isNone &&
    (f != "NaN" && f != "inf")

/-- Whether a word is the name of a variable. -/
def isVariableName (x : String) : Bool := isFunctionName x && x != "i"

theorem isFunctionName_of_isVariableName {x : String} (h : isVariableName x = true) :
    isFunctionName x = true :=
  (Bool.and_eq_true_iff.1 h).1

variable {R : Type}

/-- Whether the token is a number, a complex number or a truth value. -/
def Token.isLiteral : Token R → Bool
  | .number _ | .complex _ | .truth _ => true
  | _ => false

/-! ## Merging -/

/-- Merging takes back a number and operators, down to where an expression starts. -/
theorem Draft.mergeable?_eq_some [Scalar R] {d : Draft R} {m : Merge R}
    (h : d.mergeable? = some m) :
    ∃ ts, d.tokens = ts ++ m.before.tokens ∧ m.before.opened = d.opened ∧
      startsExpression m.before.tokens = true ∧
      ∀ t ∈ ts, (∃ v, t.token = .number v) ∨ ∃ op, t.token = .operator op := by
  unfold mergeable? at h
  split at h
  · rename_i s os v o ts ht
    have hsign : ∀ n, isMinus? s = some n → ∃ op, s = .operator op := by
      intro n hn
      cases s with
      | operator op => exact ⟨op, rfl⟩
      | _ => cases hn
    split at h
    · rename_i n o' ts' hn
      obtain ⟨hs, h⟩ := Option.ite_none_right_eq_some.1 h
      rw [← Option.some.inj h]
      refine ⟨[⟨s, os⟩, ⟨.number v, o⟩, ⟨.operator .negate, o'⟩], ht, rfl, hs, ?_⟩
      exact List.forall_mem_cons.2 ⟨.inr (hsign n hn), by simp⟩
    · rename_i n hn _
      obtain ⟨hs, h⟩ := Option.ite_none_right_eq_some.1 h
      rw [← Option.some.inj h]
      refine ⟨[⟨s, os⟩, ⟨.number v, o⟩], ht, rfl, hs, ?_⟩
      exact List.forall_mem_cons.2 ⟨.inr (hsign n hn), by simp⟩
    · cases h
  · cases h

/-! ## Brackets -/

/-- A closing bracket takes its partner from the open ones. -/
theorem Draft.closeBracket_eq_ok {d d' : Draft R} {b : Delimiter} {o : Nat}
    (h : d.closeBracket b o = .ok d') : ∃ a o' rest, d.opened = (a, o') :: rest ∧
      a.closing? = some b ∧ d' = { d.push (.delimiter b) o with opened := rest } := by
  unfold closeBracket at h
  split at h
  · rename_i a o' rest hopened
    split at h
    · rename_i hab
      exact ⟨a, o', rest, hopened, hab, (Except.ok.inj h).symm⟩
    · cases h
  · cases h

/-- A closing bracket without its partner is refused. -/
theorem Draft.closeBracket_eq_error {d : Draft R} {b : Delimiter} {o : Nat} {e : LexError}
    (h : d.closeBracket b o = .error e) : e = .unbalancedBracket b.char o := by
  unfold closeBracket at h
  split at h
  · split at h
    · cases h
    · exact (Except.error.inj h).symm
  · exact (Except.error.inj h).symm

/-! ## The kinds of lexemes -/

namespace Lexeme

variable [Scalar R]

/-- A numeral is read with what follows it: the draft with both and the cursor behind them. -/
inductive IsNumber (d : Draft R) (start : Cursor) : Draft R → Cursor → Prop where
  | plain {v : R} {c : Cursor} (hv : Numeral.scan start = .ok (v, c)) :
      IsNumber d start (d.push (.number v) start.offset) c
  | imaginary {v : R} {c : Cursor} (hv : Numeral.scan start = .ok (v, c))
      (hi : imaginaryUnitAt c = true) :
      IsNumber d start (d.pushImaginary v start.offset (summandEnds (c.drop 1))) (c.drop 1)
  | quantity {v : R} {c c' : Cursor} {u : MeasureUnit} (hv : Numeral.scan start = .ok (v, c))
      (hu : UnitSuffix.scan? c = some (u, c')) :
      IsNumber d start ((d.push (.number v) start.offset).push (.unit u) c'.offset) c'
  | polar {v a : R} {c c' digits : Cursor} {negative : Bool}
      (hv : Numeral.scan start = .ok (v, c))
      (hsign : (c.skip isBlank).nextIs (· == angleSign) = true)
      (hdigits : Numeral.sign (((c.skip isBlank).drop 1).skip isBlank) = (negative, digits))
      (hnext : digits.nextIs Numeral.isStart = true) (ha : Numeral.scan digits = .ok (a, c')) :
      IsNumber d start (d.push (polar v (if negative then -a else a)) start.offset)
        (skipDegree c')
  | degrees {v : R} {c : Cursor} {m : Draft.Merge R} (hv : Numeral.scan start = .ok (v, c))
      (hsign : (c.skip isBlank).nextIs (· == UnitSuffix.degreeSign) = true)
      (hm : d.mergeable? = some m) :
      IsNumber d start (m.before.push (polar m.real (if m.negative then -v else v)) m.offset)
        ((c.skip isBlank).drop 1)

/-- One lexeme that starts with the character `x`: the draft with it and the cursor behind it. -/
inductive IsLexeme (d : Draft R) (start : Cursor) (x : Char) : Draft R → Cursor → Prop where
  | blank (hx : isBlank x = true) : IsLexeme d start x d (start.drop 1)
  | number {d' : Draft R} {c : Cursor} (h : IsNumber d start d' c) : IsLexeme d start x d' c
  | word (hb : isBlank x = false) (hn : Numeral.isStart x = false) (hx : isNameStart x = true) :
      IsLexeme d start x (pushWord d (String.ofList (start.span isNameChar).1) start.offset
        (start.span isNameChar).2) (start.span isNameChar).2
  | opening {b : Delimiter} (hb : Delimiter.ofChar? x = some b) (ho : b.isOpen = true) :
      IsLexeme d start x (d.openBracket b start.offset) (start.drop 1)
  | closing {b : Delimiter} {d' : Draft R} (hb : Delimiter.ofChar? x = some b)
      (hd : d.closeBracket b start.offset = .ok d') : IsLexeme d start x d' (start.drop 1)
  | comma (hb : Delimiter.ofChar? x = some .comma) :
      IsLexeme d start x (d.push (.delimiter .comma) start.offset) (start.drop 1)
  | temperature {u : MeasureUnit} {c : Cursor} (hu : UnitSuffix.scan? start = some (u, c))
      (hx : x = UnitSuffix.degreeSign) : IsLexeme d start x (d.push (.unit u) start.offset) c
  | symbol {op : Operator} {c : Cursor} (hop : operator? start = some (op, c)) :
      IsLexeme d start x (d.pushOperator op start.offset (operandFollows c)) c

variable {d d' : Draft R} {start c : Cursor}

/-- A numeral is followed by nothing that belongs to it, by the imaginary unit, by a unit, by an
angle, or by a degree sign. -/
theorem isNumber_of_number (h : number d start = .ok (d', c)) : IsNumber d start d' c := by
  unfold number at h
  split at h
  · cases h
  rename_i v c₁ hv
  split at h
  · rename_i hi
    obtain ⟨rfl, rfl⟩ := Prod.mk.inj (Except.ok.inj h)
    exact .imaginary hv hi
  unfold numberSuffix at h
  split at h
  · rename_i hu
    obtain ⟨rfl, rfl⟩ := Prod.mk.inj (Except.ok.inj h)
    exact .quantity hv hu
  dsimp only at h
  split at h
  · rename_i hsign
    unfold angle at h
    dsimp only at h
    split at h
    · rename_i hnext
      split at h
      · cases h
      · rename_i ha
        obtain ⟨rfl, rfl⟩ := Prod.mk.inj (Except.ok.inj h)
        exact .polar hv hsign rfl hnext ha
    · cases h
  split at h
  · rename_i hsign
    unfold degrees at h
    split at h
    · rename_i hm
      obtain ⟨rfl, rfl⟩ := Prod.mk.inj (Except.ok.inj h)
      exact .degrees hv hsign hm
    · cases h
  · obtain ⟨rfl, rfl⟩ := Prod.mk.inj (Except.ok.inj h)
    exact .plain hv

theorem isLexeme_of_delimiter {x : Char} {b : Delimiter} (hb : Delimiter.ofChar? x = some b)
    (h : delimiter d start b = .ok (d', c)) : IsLexeme d start x d' c := by
  unfold delimiter at h
  split at h
  · rename_i ho
    obtain ⟨rfl, rfl⟩ := Prod.mk.inj (Except.ok.inj h)
    exact .opening hb ho
  rename_i ho
  split at h
  · split at h
    · rename_i hd
      obtain ⟨rfl, rfl⟩ := Prod.mk.inj (Except.ok.inj h)
      exact .closing hb hd
    · cases h
  rename_i hc
  obtain ⟨rfl, rfl⟩ := Prod.mk.inj (Except.ok.inj h)
  cases b with
  | comma => exact .comma hb
  | openParen | openBrace => exact absurd rfl ho
  | closeParen | closeBrace => exact absurd rfl hc

/-- What is read at a character is a lexeme. -/
theorem isLexeme_of_step {x : Char} (h : step d start x = .ok (d', c)) :
    IsLexeme d start x d' c := by
  unfold step at h
  split at h
  · rename_i hb
    obtain ⟨rfl, rfl⟩ := Prod.mk.inj (Except.ok.inj h)
    exact .blank hb
  rename_i hb
  split at h
  · exact .number (isNumber_of_number h)
  rename_i hn
  split at h
  · rename_i hx
    obtain ⟨rfl, rfl⟩ := Prod.mk.inj (Except.ok.inj h)
    exact .word (Bool.not_eq_true _ ▸ hb) (Bool.not_eq_true _ ▸ hn) hx
  split at h
  · rename_i hdelimiter
    exact isLexeme_of_delimiter hdelimiter h
  split at h
  · rename_i hx
    unfold temperature at h
    split at h
    · rename_i hu
      obtain ⟨rfl, rfl⟩ := Prod.mk.inj (Except.ok.inj h)
      exact .temperature hu hx
    · cases h
  split at h
  · cases h
  unfold operator at h
  split at h
  · rename_i hop
    obtain ⟨rfl, rfl⟩ := Prod.mk.inj (Except.ok.inj h)
    exact .symbol hop
  · cases h

end Lexeme

/-! ## What a lexeme makes of the tokens -/

namespace Lexeme

variable [Scalar R]

/-- What a lexeme makes of a draft, given the cursor behind the lexeme. -/
inductive Makes (d : Draft R) : Draft R → Cursor → Prop where
  | blank (c : Cursor) : Makes d d c
  | literal {t : Token R} (ht : t.isLiteral = true) (o : Nat) (c : Cursor) :
      Makes d (d.push t o) c
  | merged {m : Draft.Merge R} (hm : d.mergeable? = some m) (z : ComplexNumber R) (c : Cursor) :
      Makes d (m.before.push (.complex z) m.offset) c
  | quantity (v : R) (o : Nat) (u : MeasureUnit) (o' : Nat) (c : Cursor) :
      Makes d ((d.push (.number v) o).push (.unit u) o') c
  | temperature (u : MeasureUnit) (o : Nat) (c : Cursor) : Makes d (d.push (.unit u) o) c
  | operator (op : Operator) (o : Nat) (c : Cursor) :
      Makes d (d.pushOperator op o (operandFollows c)) c
  | call {f : String} (hf : isFunctionName f = true) (o : Nat) {c : Cursor}
      (hc : c.nextIs UnitSuffix.isCallBracket = true) : Makes d (d.push (.call f 0) o) c
  | name {x : String} (hx : isVariableName x = true) (o : Nat) (c : Cursor) :
      Makes d (d.push (.name x) o) c
  | opening {b : Delimiter} (hb : b.isOpen = true) (o : Nat) (c : Cursor) :
      Makes d (d.openBracket b o) c
  | closing {b : Delimiter} {o : Nat} {d' : Draft R} (hd : d.closeBracket b o = .ok d')
      (c : Cursor) : Makes d d' c
  | comma (o : Nat) (c : Cursor) : Makes d (d.push (.delimiter .comma) o) c

variable {d d' : Draft R} {start c : Cursor}

theorem makes_pushImaginary (d : Draft R) (v : R) (o : Nat) (mayMerge : Bool) (c : Cursor) :
    Makes d (d.pushImaginary v o mayMerge) c := by
  unfold Draft.pushImaginary
  split
  · rename_i m _ hm
    exact .merged hm _ c
  · exact .literal rfl o c

/-- A number pushes a literal, with a unit or without, or is merged. -/
theorem IsNumber.makes (h : IsNumber d start d' c) : Makes d d' c := by
  cases h with
  | plain hv => exact .literal rfl _ c
  | imaginary hv hi => exact makes_pushImaginary d _ _ _ _
  | quantity hv hu => exact .quantity _ _ _ _ c
  | polar hv hsign hdigits hnext ha => exact .literal rfl _ _
  | degrees hv hsign hm => exact .merged hm _ _

/-- A word that stands for no scalar is not the name of one. -/
theorem scalarWord?_eq_none_iff {w : String} :
    (scalarWord? w : Option R) = none ↔ (w != "NaN" && w != "inf") = true := by
  unfold scalarWord?
  split
  · rename_i h
    simp [h]
  · rename_i h
    split
    · rename_i h'
      simp [h']
    · rename_i h'
      simp [h, h']

/-- A word is pushed as a name only where it stands for nothing else. -/
theorem makes_pushWord (d : Draft R) {w : String} (hw : isWord w.toList = true) (o : Nat)
    (c : Cursor) : Makes d (pushWord d w o c) c := by
  unfold pushWord
  split
  · exact .operator _ o c
  · exact .literal rfl o c
  · exact .literal rfl o c
  · rename_i ho ht hs
    have hf : isFunctionName w = true := by
      simp only [isFunctionName, hw, ho, ht, scalarWord?_eq_none_iff.1 hs, Option.isNone_none,
        Bool.and_self]
    split
    · rename_i hc
      exact .call hf o hc
    · split
      · exact makes_pushImaginary d 1 o _ c
      · rename_i hi
        exact .name (by simp [isVariableName, hf, hi]) o c

/-- The longest word at a character that starts one. -/
theorem isWord_span {x : Char} {xs : List Char} (hb : isBlank x = false)
    (hn : Numeral.isStart x = false) (hx : isNameStart x = true) :
    isWord ((x :: xs).takeWhile isNameChar) = true := by
  rw [List.takeWhile_cons_of_pos (Text.isNameChar_of_isNameStart hx)]
  simp [isWord, hb, hn, hx, List.all_takeWhile]

/-- Every lexeme is one of the cases. -/
theorem makes_of_step {x : Char} {xs : List Char} (hx : start.rest = x :: xs)
    (h : step d start x = .ok (d', c)) : Makes d d' c := by
  cases isLexeme_of_step h with
  | blank hb => exact .blank _
  | number hn => exact hn.makes
  | word hb hn hs =>
    refine makes_pushWord d ?_ _ _
    rw [String.toList_ofList, Cursor.span, hx]
    exact isWord_span hb hn hs
  | opening hb ho => exact .opening ho _ _
  | closing hb hd => exact .closing hd _
  | comma hb => exact .comma _ _
  | temperature hu => exact .temperature _ _ c
  | symbol hop => exact .operator _ _ c

/-- The character that a call waits for opens a group. -/
theorem step_of_isCallBracket (d : Draft R) (start : Cursor) {x : Char}
    (hx : UnitSuffix.isCallBracket x = true) :
    ∃ b : Delimiter, b.isOpen = true ∧
      step d start x = .ok (d.openBracket b start.offset, start.drop 1) := by
  obtain rfl | rfl : x = '(' ∨ x = '\x7b' := by
    simpa [UnitSuffix.isCallBracket] using hx
  · exact ⟨.openParen, rfl, rfl⟩
  · exact ⟨.openBrace, rfl, rfl⟩

end Lexeme

/-! ## Whole texts -/

variable [Scalar R]

/-- At its end a text is read. -/
theorem readLexemes_nil (d : Draft R) {c : Cursor} (hx : c.rest = []) :
    readLexemes d c = .ok d := by
  rw [readLexemes]
  split
  · rfl
  · rename_i hx'
    rw [hx] at hx'
    cases hx'

/-- Before its end a text is read lexeme by lexeme. -/
theorem readLexemes_cons (d : Draft R) {c : Cursor} {x : Char} {xs : List Char}
    (hx : c.rest = x :: xs) :
    readLexemes d c = (Lexeme.step d c x).bind fun dc => readLexemes dc.1 dc.2 := by
  rw [readLexemes]
  split
  · rename_i hx'
    rw [hx] at hx'
    cases hx'
  · rename_i y ys hx'
    obtain ⟨rfl, rfl⟩ := List.cons.inj (hx.symm.trans hx')
    split
    · rename_i e he
      rw [he]
      rfl
    · rename_i hs
      dsimp only
      rw [hs]
      rfl

/-- What every lexeme keeps holds at the end of the text. -/
theorem invariant_of_readLexemes {P : Draft R → Cursor → Prop}
    (hstep : ∀ d c x xs d' c', P d c → c.rest = x :: xs → Lexeme.step d c x = .ok (d', c') →
      P d' c')
    {d d' : Draft R} {c : Cursor} (h : P d c) (hd : readLexemes d c = .ok d') :
    ∃ c', c'.rest = [] ∧ P d' c' := by
  fun_induction readLexemes d c with
  | case1 d c hx =>
    rw [← Except.ok.inj hd]
    exact ⟨c, hx, h⟩
  | case2 d c x xs hx e hs => cases hd
  | case3 d c x xs hx d₁ c₁ hs _ ih => exact ih (hstep d c x xs d₁ c₁ h hx hs) hd

/-- The tokens of a text are those of a draft in which no bracket is open, with the numbers of
arguments settled. -/
theorem tokenize_eq_ok {text : String} {ts : List (Token R)} (h : tokenize text = .ok ts) :
    ∃ d, readLexemes Draft.empty (Cursor.start text) = .ok d ∧ d.opened = [] ∧
      bareNot? d.tokens.reverse = none ∧
      ts = Token.settleArities (d.tokens.map (·.token)).reverse := by
  unfold tokenize at h
  split at h
  · cases h
  rename_i d hd
  split at h
  · cases h
  rename_i ho
  simp only at h
  split at h
  · cases h
  rename_i hn
  refine ⟨d, hd, ho, hn, ?_⟩
  rw [← Except.ok.inj h, List.map_reverse]

end SymbolicAlgebra
