import SymbolicAlgebra.Token.Arity
import SymbolicAlgebra.Token.Draft
import SymbolicAlgebra.Token.Numeral
import SymbolicAlgebra.Token.UnitSuffix

set_option autoImplicit false

/-!
# From text to tokens

A text is read from left to right, one lexeme at a time. What a lexeme stands for may
depend on the tokens before it (signs, complex literals) and on the characters behind it
(units, angles, calls, doubled signs). There is one function for each kind of lexeme, from the
tokens so far and the cursor at the lexeme to the tokens with the lexeme and the cursor behind it;
`Lexeme.step` picks the one for the character ahead, and takes at least one character
(`Lexeme.passes_step`).

`tokenize` reads a whole text and then looks for open brackets and for negations with nothing to
negate.
-/

namespace SymbolicAlgebra

open Text (Cursor isBlank isNameStart isNameChar)

namespace Lexeme

variable {R : Type} [Scalar R]

/-! ## Numbers -/

/-- The sign before an angle. -/
def angleSign : Char := '∠'

/-- Whether a character may stand behind a literal that ends an operand of a sum. -/
def endsSummand (c : Char) : Bool := ")\x7d,+-=<>&|".toList.contains c

/-- Whether the text ahead ends an operand of a sum. -/
def summandEnds (c : Cursor) : Bool := (c.skip isBlank).peek?.all endsSummand

/-- Skips a degree sign behind an angle, but not one of a temperature. -/
def skipDegree (c : Cursor) : Cursor :=
  let c' := c.skip isBlank
  if c'.nextIs (· == UnitSuffix.degreeSign) && !(c'.drop 1).nextIs UnitSuffix.isScale then
    c'.drop 1
  else c

/-- The literal with a magnitude and an angle in degrees. -/
def polar (magnitude degrees : R) : Token R :=
  .complex (ComplexNumber.ofPolar magnitude (Scalar.toRadians degrees))

/-- Reads the angle behind a magnitude `v`, from the cursor at the angle sign. -/
def angle (d : Draft R) (start : Cursor) (v : R) (sign : Cursor) :
    Except LexError (Draft R × Cursor) :=
  let (negative, c) := Numeral.sign ((sign.drop 1).skip isBlank)
  if c.nextIs Numeral.isStart then
    match Numeral.scan c with
    | .error e => .error e
    | .ok (a, c) => .ok (d.push (polar v (if negative then -a else a)) start.offset, skipDegree c)
  else .error (Numeral.malformed sign c)

/-- Reads the degree sign behind an angle `v`: the angle belongs to the magnitude and the
sign before it. -/
def degrees (d : Draft R) (v : R) (sign : Cursor) : Except LexError (Draft R × Cursor) :=
  match d.mergeable? with
  | some m =>
    .ok (m.before.push (polar m.real (if m.negative then -v else v)) m.offset, sign.drop 1)
  | none => .error (.ambiguousPhase sign.offset)

/-- Reads what may follow a real literal `v`: a unit, an angle or a degree sign. -/
def numberSuffix (d : Draft R) (start : Cursor) (v : R) (c : Cursor) :
    Except LexError (Draft R × Cursor) :=
  match UnitSuffix.scan? c with
  | some (u, c') => .ok ((d.push (.number v) start.offset).push (.unit u) c'.offset, c')
  | none =>
    let s := c.skip isBlank
    if s.nextIs (· == angleSign) then angle d start v s
    else if s.nextIs (· == UnitSuffix.degreeSign) then degrees d v s
    else .ok (d.push (.number v) start.offset, c)

/-- Whether the imaginary unit is at the cursor, and no longer name. -/
def imaginaryUnitAt (c : Cursor) : Bool :=
  c.nextIs (· == 'i') && !(c.drop 1).nextIs isNameChar

/-- Reads a number with what follows it. -/
def number (d : Draft R) (start : Cursor) : Except LexError (Draft R × Cursor) :=
  match Numeral.scan start with
  | .error e => .error e
  | .ok (v, c) =>
    if imaginaryUnitAt c then
      .ok (d.pushImaginary v start.offset (summandEnds (c.drop 1)), c.drop 1)
    else numberSuffix d start v c

/-! ## Words -/

/-- The truth value that a word spells, in small or capital ASCII letters. -/
def truth? (word : String) : Option Bool :=
  if Operator.smallLetters word = "true" then some true
  else if Operator.smallLetters word = "false" then some false
  else none

/-- The scalar that is written as a word. -/
def scalarWord? (word : String) : Option R :=
  if word = "NaN" then some Scalar.nan
  else if word = "inf" then some Scalar.infinity
  else none

/-- Whether the text ahead starts an operand. -/
def operandFollows (c : Cursor) : Bool :=
  (c.skip isBlank).nextIs fun x => isNameChar x || x == '.' || x == '(' || x == '\x7b'

/-- The draft with a word, given the cursor behind it. -/
def pushWord (d : Draft R) (word : String) (offset : Nat) (c : Cursor) : Draft R :=
  match Operator.ofWord? word, truth? word, scalarWord? word with
  | some op, _, _ => d.pushOperator op offset (operandFollows c)
  | none, some b, _ => d.push (.truth b) offset
  | none, none, some v => d.push (.number v) offset
  | none, none, none =>
    if c.nextIs UnitSuffix.isCallBracket then d.push (.call word 0) offset
    else if word = "i" then d.pushImaginary 1 offset (summandEnds c)
    else d.push (.name word) offset

/-- Reads a word. -/
def word (d : Draft R) (start : Cursor) : Draft R × Cursor :=
  let (w, c) := start.span isNameChar
  (pushWord d (String.ofList w) start.offset c, c)

/-! ## Symbols -/

/-- Whether a character may stand in the symbol of an operator. -/
def isOperatorChar (c : Char) : Bool := "+-*/^%<>=!&|~:".toList.contains c

/-- The operator whose symbol is the next `n` characters. -/
def operatorOfLength? (c : Cursor) (n : Nat) : Option (Operator × Cursor) :=
  let w := c.rest.take n
  if w.length = n ∧ w.all isOperatorChar then
    (Operator.ofSymbol? (String.ofList w)).map (·, c.drop n)
  else none

/-- The operator with the longest symbol at the cursor. -/
def operator? (c : Cursor) : Option (Operator × Cursor) :=
  [3, 2, 1].findSome? (operatorOfLength? c)

/-- Reads an operator. -/
def operator (d : Draft R) (start : Cursor) (first : Char) :
    Except LexError (Draft R × Cursor) :=
  match operator? start with
  | some (op, c) => .ok (d.pushOperator op start.offset (operandFollows c), c)
  | none => .error (.unknownSymbol first start.offset)

/-- Reads a bracket or comma. -/
def delimiter (d : Draft R) (start : Cursor) (b : Delimiter) :
    Except LexError (Draft R × Cursor) :=
  if b.isOpen then .ok (d.openBracket b start.offset, start.drop 1)
  else if b.isClose then
    match d.closeBracket b start.offset with
    | .ok d => .ok (d, start.drop 1)
    | .error e => .error e
  else .ok (d.push (.delimiter b) start.offset, start.drop 1)

/-- Reads the temperature unit at a degree sign that follows no number directly. -/
def temperature (d : Draft R) (start : Cursor) : Except LexError (Draft R × Cursor) :=
  match UnitSuffix.scan? start with
  | some (u, c) => .ok (d.push (.unit u) start.offset, c)
  | none => .error (.missingAngleMagnitude start.offset)

/-- Reads the lexeme that starts with the character `x` at the cursor. -/
def step (d : Draft R) (start : Cursor) (x : Char) : Except LexError (Draft R × Cursor) :=
  if isBlank x then .ok (d, start.drop 1)
  else if Numeral.isStart x then number d start
  else if isNameStart x then .ok (word d start)
  else
    match Delimiter.ofChar? x with
    | some b => delimiter d start b
    | none =>
      if x = UnitSuffix.degreeSign then temperature d start
      else if x = angleSign then .error (.missingAngleMagnitude start.offset)
      else operator d start x

/-! ## Progress -/

theorem reaches_skipDegree (c : Cursor) : c.Reaches (skipDegree c) := by
  unfold skipDegree
  simp only
  split
  · exact (Cursor.reaches_skip c isBlank).trans (Cursor.reaches_drop _ 1)
  · exact Cursor.Reaches.refl c

theorem reaches_angle {d d' : Draft R} {start sign c : Cursor} {v : R}
    (h : angle d start v sign = .ok (d', c)) : sign.Reaches c := by
  unfold angle at h
  simp only at h
  split at h
  · rename_i hs
    split at h
    · contradiction
    · rename_i a c₁ hn
      simp only [Except.ok.injEq, Prod.mk.injEq] at h
      rw [← h.2]
      exact (((Cursor.reaches_drop sign 1).trans (Cursor.reaches_skip _ _)).trans
        (Numeral.reaches_sign _)).trans
        ((Numeral.passes_scan hs hn).1.trans (reaches_skipDegree _))
  · contradiction

theorem reaches_numberSuffix {d d' : Draft R} {start c c' : Cursor} {v : R}
    (h : numberSuffix d start v c = .ok (d', c')) : c.Reaches c' := by
  unfold numberSuffix at h
  split at h
  · rename_i u c₁ hu
    simp only [Except.ok.injEq, Prod.mk.injEq] at h
    rw [← h.2]
    exact (UnitSuffix.passes_scan? hu).1
  · simp only at h
    split at h
    · exact (Cursor.reaches_skip c isBlank).trans (reaches_angle h)
    · split at h
      · unfold degrees at h
        split at h
        · simp only [Except.ok.injEq, Prod.mk.injEq] at h
          rw [← h.2]
          exact (Cursor.reaches_skip c isBlank).trans (Cursor.reaches_drop _ 1)
        · contradiction
      · simp only [Except.ok.injEq, Prod.mk.injEq] at h
        rw [← h.2]
        exact Cursor.Reaches.refl c

theorem passes_number {d d' : Draft R} {start c : Cursor}
    (hs : start.nextIs Numeral.isStart = true) (h : number d start = .ok (d', c)) :
    start.Passes c := by
  unfold number at h
  split at h
  · contradiction
  · rename_i v c₁ hn
    refine (Numeral.passes_scan hs hn).trans_reaches ?_
    split at h
    · simp only [Except.ok.injEq, Prod.mk.injEq] at h
      rw [← h.2]
      exact Cursor.reaches_drop c₁ 1
    · exact reaches_numberSuffix h

theorem passes_operator? {c c' : Cursor} {op : Operator} (hc : c.rest ≠ [])
    (h : operator? c = some (op, c')) : c.Passes c' := by
  obtain ⟨n, hn, h⟩ := List.exists_of_findSome?_eq_some h
  unfold operatorOfLength? at h
  simp only at h
  split at h
  · simp only [Option.map_eq_some_iff, Prod.mk.injEq] at h
    obtain ⟨_, _, _, rfl⟩ := h
    refine Cursor.passes_drop ?_ hc
    simp only [List.mem_cons, List.not_mem_nil, or_false] at hn
    omega
  · contradiction

omit [Scalar R] in
theorem passes_delimiter {d d' : Draft R} {start c : Cursor} {b : Delimiter}
    (hs : start.rest ≠ []) (h : delimiter d start b = .ok (d', c)) : start.Passes c := by
  have hp := Cursor.passes_drop Nat.one_pos hs
  unfold delimiter at h
  split at h
  · simp only [Except.ok.injEq, Prod.mk.injEq] at h
    rw [← h.2]; exact hp
  · split at h
    · split at h
      · simp only [Except.ok.injEq, Prod.mk.injEq] at h
        rw [← h.2]; exact hp
      · contradiction
    · simp only [Except.ok.injEq, Prod.mk.injEq] at h
      rw [← h.2]; exact hp

/-- A lexeme takes at least one character. -/
theorem passes_step {d d' : Draft R} {start c : Cursor} {x : Char} {rest : List Char}
    (hx : start.rest = x :: rest) (h : step d start x = .ok (d', c)) : start.Passes c := by
  have hne : start.rest ≠ [] := by simp [hx]
  have hnext : ∀ p : Char → Bool, p x = true → start.nextIs p = true := by
    intro p hp
    simp [Cursor.nextIs, hx, hp]
  unfold step at h
  split at h
  · simp only [Except.ok.injEq, Prod.mk.injEq] at h
    rw [← h.2]
    exact Cursor.passes_drop Nat.one_pos hne
  · split at h
    · rename_i hn
      exact passes_number (hnext _ hn) h
    · split at h
      · rename_i hw
        simp only [word, Except.ok.injEq, Prod.mk.injEq] at h
        rw [← h.2]
        exact Cursor.passes_span (hnext _ (Text.isNameChar_of_isNameStart hw))
      · split at h
        · exact passes_delimiter hne h
        · split at h
          · unfold temperature at h
            split at h
            · rename_i u c₁ hu
              simp only [Except.ok.injEq, Prod.mk.injEq] at h
              rw [← h.2]
              exact UnitSuffix.passes_scan? hu
            · contradiction
          · split at h
            · contradiction
            · unfold operator at h
              split at h
              · rename_i op c₁ ho
                simp only [Except.ok.injEq, Prod.mk.injEq] at h
                rw [← h.2]
                exact passes_operator? hne ho
              · contradiction

end Lexeme

variable {R : Type} [Scalar R]

/-! ## Whole texts -/

/-- Reads the lexemes from the cursor to the end of the text. -/
def readLexemes (d : Draft R) (c : Cursor) : Except LexError (Draft R) :=
  match hx : c.rest with
  | [] => .ok d
  | x :: _ =>
    match hs : Lexeme.step d c x with
    | .error e => .error e
    | .ok (d', c') =>
      have := (Lexeme.passes_step hx hs).2
      readLexemes d' c'
termination_by c.rest.length

/-- Whether something to negate may start with the token. -/
def negatable : Token R → Bool
  | .delimiter d => d.isOpen
  | .operator op => op = .negate || op = .not
  | _ => true

/-- Whether the token negates a truth value. -/
def isNot : Token R → Bool
  | .operator op => op = .not
  | _ => false

/-- The offset of the first negation of a truth value with nothing to negate. -/
def bareNot? : List (Located R) → Option Nat
  | [] => none
  | t :: ts =>
    if isNot t.token && !ts.head?.any (negatable ·.token) then some t.offset else bareNot? ts

/-- The tokens of a text. -/
def tokenize (text : String) : Except LexError (List (Token R)) :=
  match readLexemes Draft.empty (Cursor.start text) with
  | .error e => .error e
  | .ok d =>
    match d.opened with
    | (b, o) :: _ => .error (.unbalancedBracket b.char o)
    | [] =>
      let ts := d.tokens.reverse
      match bareNot? ts with
      | some o => .error (.missingNotOperand o)
      | none => .ok (Token.settleArities (ts.map (·.token)))

end SymbolicAlgebra
