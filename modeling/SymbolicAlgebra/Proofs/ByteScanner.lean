import SymbolicAlgebra.Proofs.TextSlice
import SymbolicAlgebra.Token.Tokenize

set_option autoImplicit false

/-!
# Reading tokens by offsets in bytes

The tokens of a text read once more, in the way of a program that keeps the text and the tokens
in arrays: words and numerals are slices of the text between offsets that are computed by hand,
tokens and their positions are found by index, and a call gets its number of arguments when its
bracket is closed.

The text and the arrays are accessed by `index` and `slice` only. A slice or an index that does not
exist, and a lexeme that takes no character, stop the scanner with a cause of its own, which is
never the refusal of a text (`ByteScanner.Stop`). There is one function for each kind of lexeme,
and `ByteScanner.run` goes through the text with them.
-/

namespace SymbolicAlgebra

open Text (Cursor isBlank isDigit isLetter isNameStart isNameChar)

namespace ByteScanner

/-! ## Checked accesses -/

/-- Why the scanner stops early. -/
inductive Stop where
  /-- The text is refused. -/
  | refused (e : LexError)
  /-- A slice or an index does not exist. -/
  | outOfRange
  /-- A lexeme took no character. -/
  | stuck
deriving DecidableEq

/-- A result, or the cause to stop. -/
abbrev Checked (α : Type) : Type := Except Stop α

/-- The member of a list at an index. -/
def index {α : Type} (as : List α) (i : Nat) : Checked α :=
  match as[i]? with
  | some a => .ok a
  | none => .error .outOfRange

/-- The part of a text between two offsets. -/
def slice (text : String) (start stop : Nat) : Checked String :=
  match Text.slice? text start stop with
  | some s => .ok s
  | none => .error .outOfRange

theorem index_eq_outOfRange_iff {α : Type} {as : List α} {i : Nat} :
    index as i = .error .outOfRange ↔ as.length ≤ i := by
  rw [index, ← List.getElem?_eq_none_iff]
  cases as[i]? <;> simp

/-- A slice is refused where the offsets are out of order, or where one of them lies beyond the
text or within a character. -/
theorem slice_eq_outOfRange_iff {text : String} {start stop : Nat} :
    slice text start stop = .error .outOfRange ↔ ¬ (start ≤ stop ∧
      (⟨start⟩ : String.Pos.Raw).IsValid text ∧ (⟨stop⟩ : String.Pos.Raw).IsValid text) := by
  rw [slice, ← Text.isSome_slice?_iff]
  cases Text.slice? text start stop <;> simp

/-- The text between two offsets is no number. -/
def malformed {α : Type} (text : String) (start stop : Nat) : Checked α := do
  let s ← slice text start stop
  .error (.refused (.malformedNumber s start stop))

/-- The offset of the next character, or the length of the text at its end. -/
def offset (text : String) (c : Cursor) : Nat :=
  if c.rest.isEmpty then text.utf8ByteSize else c.offset

variable {R : Type} [Scalar R]

/-! ## Numerals -/

/-- The exponent at the end of a decimal numeral, which may be missing. -/
def exponentOf? (w : List Char) : Option Int :=
  if w.isEmpty then some 0
  else (Numeral.exponent? ⟨0, w⟩).bind fun ec => if ec.2.rest.isEmpty then some ec.1 else none

/-- The scalar that a whole text spells as a decimal numeral. -/
def decimal? (text : String) : Option R :=
  let whole := text.toList.takeWhile isDigit
  match text.toList.dropWhile isDigit with
  | '.' :: w =>
    let fraction := w.takeWhile isDigit
    if whole.isEmpty && fraction.isEmpty then none
    else (exponentOf? (w.dropWhile isDigit)).map (Numeral.decimalScalar whole fraction)
  | w => if whole.isEmpty then none else (exponentOf? w).map (Numeral.decimalScalar whole [])

/-- The fraction of the numeral that starts at `start`, if there is one at the cursor: whether
there is, the offset behind it and the cursor there. -/
def fraction (text : String) (start stop : Nat) (c : Cursor) : Checked (Bool × Nat × Cursor) :=
  if c.nextIs (· == '.') then
    let (stop', c) := (c.drop 1).takeWhile (stop + 1) isDigit
    -- No digit stands behind the point.
    if stop' = stop + 1 then malformed text start stop'
    else if c.nextIs (· == '.') then
      malformed text start (c.takeWhile stop' fun x => isDigit x || x == '.').1
    else .ok (true, stop', c)
  else .ok (false, stop, c)

/-- The exponent at the cursor, if there is one: whether there is, the offset behind it and the
cursor there. -/
def exponent (text : String) (stop : Nat) (c : Cursor) : Bool × Nat × Cursor :=
  if c.nextIs fun x => x == 'e' || x == 'E' then
    let digits := (Numeral.sign (c.drop 1)).2
    if digits.nextIs isDigit then (true, digits.takeWhile (offset text digits) isDigit)
    else (false, stop, c)
  else (false, stop, c)

/-- The value of a word in a radix, or the error that covers the numeral. -/
def radixValue (text : String) (radix : Nat) (word : String) (start stop : Nat) (c : Cursor) :
    Checked (R × Cursor) :=
  match Numeral.ofDigits? radix word.toList with
  | some n => .ok (Scalar.ofNat n, c)
  | none => malformed text start stop

/-- Reads the numeral at the cursor, which has the offset `start`: its value and the cursor
behind it. -/
def parseNumber (text : String) (start : Nat) (c : Cursor) : Checked (R × Cursor) :=
  match Numeral.radix? c with
  | some radix => do
    -- The two characters of the prefix take one byte each.
    let (stop, c) := (c.drop 2).takeWhile (start + 2) Numeral.isWordChar
    let word ← slice text (start + 2) stop
    radixValue text radix word start stop c
  | none => do
    let (stop, c) := c.takeWhile start isDigit
    let (hasFraction, stop, c) ← fraction text start stop c
    let (hasExponent, stop, c) := exponent text stop c
    let word ← slice text start stop
    if !hasFraction && !hasExponent && 1 < word.utf8ByteSize && word.toList.head? = some '0' then
      radixValue text 8 word start stop c
    else
      match decimal? word with
      | some v => .ok (v, c)
      | none => malformed text start stop

/-! ## Units -/

/-- The temperature unit at a cursor at the degree sign. -/
def temperature (text : String) (c : Cursor) : Checked (Option (MeasureUnit × Cursor)) :=
  let scale := c.drop 1
  let behind := scale.drop 1
  if scale.nextIs UnitSuffix.isScale && !behind.nextIs isNameChar then do
    let word ← slice text c.offset (scale.offset + 1)
    .ok ((MeasureUnit.ofName? word).map (·, behind))
  else .ok none

/-- The unit with a power, from the offset of its word and the cursor behind the word. -/
def unitPower (text : String) (start : Nat) (c : Cursor) :
    Checked (Option (MeasureUnit × Cursor)) :=
  let digit := c.drop 1
  let behind := digit.drop 1
  if c.nextIs (· == '^') && digit.nextIs (fun n => n == '2' || n == '3') &&
      !behind.nextIs (fun x => isDigit x || x == '.') then do
    let word ← slice text start (digit.offset + 1)
    .ok ((MeasureUnit.ofName? word).map (·, behind))
  else .ok none

/-- The unit that the word at the cursor forms, with or without a power. -/
def unitWord (text : String) (c : Cursor) : Checked (Option (MeasureUnit × Cursor)) := do
  let (stop, behind) := c.takeWhile c.offset isNameChar
  let word ← slice text c.offset stop
  if (Operator.ofWord? word).isSome then .ok none
  else do
    match ← unitPower text c.offset behind with
    | some r => .ok (some r)
    | none =>
      if behind.nextIs UnitSuffix.isCallBracket then .ok none
      else .ok ((MeasureUnit.ofName? word).map (·, behind))

/-- The unit at the cursor, blanks before it skipped. -/
def scanUnit (text : String) (c : Cursor) : Checked (Option (MeasureUnit × Cursor)) :=
  let c := c.skip isBlank
  if c.nextIs (· == UnitSuffix.degreeSign) then temperature text c
  else if c.nextIs isLetter then unitWord text c
  else .ok none

/-! ## Operators -/

/-- The ends of the symbols of at most `n` characters at the cursor, the shortest first. -/
def candidates : Nat → Cursor → List (Nat × Cursor)
  | 0, _ => []
  | n + 1, c =>
    match c.rest with
    | [] => []
    | x :: _ =>
      if Lexeme.isOperatorChar x then
        (c.offset + x.utf8Size, c.drop 1) :: candidates n (c.drop 1)
      else []

/-- The first of the symbols from `start` to the ends given that is one of an operator. -/
def firstOperator (text : String) (start : Nat) :
    List (Nat × Cursor) → Checked (Option (Operator × Cursor))
  | [] => .ok none
  | (stop, c) :: ends => do
    match Operator.ofSymbol? (← slice text start stop) with
    | some op => .ok (some (op, c))
    | none => firstOperator text start ends

/-! ## The state -/

/-- A bracket that waits for its partner. -/
structure Frame where
  /-- The bracket. -/
  symbol : Delimiter
  /-- Its offset in bytes. -/
  position : Nat
  /-- The index of the call whose arguments it opens. -/
  function : Option Nat
  /-- The number of commas passed outside of inner brackets. -/
  commas : Nat
  /-- The number of tokens up to the bracket. -/
  start : Nat

end ByteScanner

/-- A scanner between two lexemes. -/
structure ByteScanner (R : Type) where
  /-- The characters ahead with their offset. -/
  chars : Cursor
  /-- The tokens read so far. -/
  tokens : List (Token R)
  /-- The offset in bytes of every token. -/
  positions : List Nat
  /-- The brackets still open, the innermost first. -/
  frames : List ByteScanner.Frame

namespace ByteScanner

variable {R : Type}

/-- The scanner at the start of a text. -/
def start (text : String) : ByteScanner R := ⟨Cursor.start text, [], [], []⟩

/-- Moves to a cursor. -/
def moveTo (s : ByteScanner R) (c : Cursor) : ByteScanner R := { s with chars := c }

/-- Adds a token at the end. -/
def push (s : ByteScanner R) (t : Token R) (position : Nat) : ByteScanner R :=
  { s with tokens := s.tokens ++ [t], positions := s.positions ++ [position] }

/-- Keeps the first `n` tokens. -/
def truncate (s : ByteScanner R) (n : Nat) : ByteScanner R :=
  { s with tokens := s.tokens.take n, positions := s.positions.take n }

/-- Whether the next token would start an operand. -/
def atOperandStart (s : ByteScanner R) : Bool := !s.tokens.getLast?.any Token.endsValue

/-- Whether an expression starts with the token at an index. -/
def isExpressionStart (ts : List (Token R)) : Nat → Checked Bool
  | 0 => .ok true
  | i + 1 => do .ok (← index ts i).opensExpression

/-- The real literal that a token is. -/
def real? : Token R → Option R
  | .number v => some v
  | _ => none

/-- Whether the token at an index is the sign of a negative operand with which an expression
starts. -/
def isLeadingSign (ts : List (Token R)) (i : Nat) : Checked Bool := do
  match ← index ts i with
  | .operator .negate => isExpressionStart ts i
  | _ => .ok false

/-- The call that waits for its bracket at the end of the tokens, if one does. -/
def lastCall? (ts : List (Token R)) : Option Nat :=
  match ts.getLast? with
  | some (.call _ _) => some (ts.length - 1)
  | _ => none

/-- Pushes an operator, with the signs settled as in `Draft.pushOperator`; the second one of two
signs stands one byte behind the first. -/
def pushOperator (s : ByteScanner R) (op : Operator) (position : Nat) : ByteScanner R :=
  match op, s.atOperandStart, Lexeme.operandFollows s.chars with
  | .plus, true, _ | .increment, true, _ => s
  | .minus, true, _ => s.push (.operator .negate) position
  | .decrement, true, _ =>
    (s.push (.operator .negate) position).push (.operator .negate) (position + 1)
  | .increment, false, true => s.push (.operator .plus) position
  | .decrement, false, true =>
    (s.push (.operator .minus) position).push (.operator .negate) (position + 1)
  | op, _, _ => s.push (.operator op) position

/-- Pushes an opening bracket. -/
def openBracket (s : ByteScanner R) (b : Delimiter) (position : Nat) : ByteScanner R :=
  let s' := s.push (.delimiter b) position
  { s' with frames := ⟨b, position, lastCall? s.tokens, 0, s'.tokens.length⟩ :: s.frames }

/-- Writes a number of arguments into the call at an index, if there is one. -/
def setArity (ts : List (Token R)) (n : Nat) : Option Nat → Checked (List (Token R))
  | none => .ok ts
  | some i => do
    match ← index ts i with
    | .call f _ => .ok (ts.set i (.call f n))
    | _ => .ok ts

/-- Pushes a closing bracket, which must be the partner of the innermost open one. -/
def closeBracket (s : ByteScanner R) (b : Delimiter) (position : Nat) : Checked (ByteScanner R) :=
  match s.frames with
  | [] => .error (.refused (.unbalancedBracket b.char position))
  | frame :: frames =>
    if frame.symbol.closing? = some b then do
      -- Nothing between the brackets is no argument, not one.
      let count := if frame.start < s.tokens.length then frame.commas + 1 else 0
      let ts ← setArity s.tokens count frame.function
      .ok ({ s with tokens := ts, frames := frames }.push (.delimiter b) position)
    else .error (.refused (.unbalancedBracket b.char position))

/-- Pushes a comma, which the innermost open bracket counts. -/
def comma (s : ByteScanner R) (position : Nat) : ByteScanner R :=
  { s with frames := s.frames.modifyHead fun f => { f with commas := f.commas + 1 } }.push
    (.delimiter .comma) position

/-! ## Lexemes -/

variable [Scalar R]

/-- The index from which a real literal and a sign at the end of the tokens can be merged with
the next literal, the real literal with its own sign, and whether the other sign is a minus
sign. -/
def mergeablePrefix (ts : List (Token R)) : Checked (Option (Nat × R × Bool)) :=
  let n := ts.length
  if n < 2 then .ok none
  else do
    match Draft.isMinus? (← index ts (n - 1)) with
    | none => .ok none
    | some negative => do
      match real? (← index ts (n - 2)) with
      | none => .ok none
      | some v => do
        if ← (if 3 ≤ n then isLeadingSign ts (n - 3) else .ok false) then
          .ok (some (n - 3, -v, negative))
        else if ← isExpressionStart ts (n - 2) then .ok (some (n - 2, v, negative))
        else .ok none

/-- Puts a literal in the place of the tokens from an index on. -/
def merge (s : ByteScanner R) (start : Nat) (t : Token R) : Checked (ByteScanner R) := do
  let position ← index s.positions start
  .ok ((s.truncate start).push t position)

/-- Pushes an imaginary literal, merged with a real part before it where there is one and the
text ahead ends an operand of a sum. -/
def pushImaginary (s : ByteScanner R) (v : R) (position : Nat) : Checked (ByteScanner R) :=
  if Lexeme.summandEnds s.chars then do
    match ← mergeablePrefix s.tokens with
    | some (start, re, negative) => s.merge start (.complex ⟨re, if negative then -v else v⟩)
    | none => .ok (s.push (.complex ⟨0, v⟩) position)
  else .ok (s.push (.complex ⟨0, v⟩) position)

/-- Reads the angle behind the magnitude at the end of the tokens, from the cursor at the angle
sign. -/
def angle (text : String) (s : ByteScanner R) (sign : Cursor) : Checked (ByteScanner R) :=
  let (negative, c) := Numeral.sign ((sign.drop 1).skip isBlank)
  let start := offset text c
  if c.nextIs Numeral.isStart then do
    let (a, c) ← parseNumber text start c
    let s := s.moveTo (Lexeme.skipDegree c)
    -- The magnitude was pushed as a number before the angle sign was seen.
    match s.tokens.getLast?.bind real? with
    | some v => do
      let position ← index s.positions (s.positions.length - 1)
      .ok ((s.truncate (s.tokens.length - 1)).push
        (Lexeme.polar v (if negative then -a else a)) position)
    | none => .ok s
  else malformed text sign.offset start

/-- Reads the degree sign behind the angle at the end of the tokens, which belongs to the
magnitude and the sign before it. -/
def degrees (s : ByteScanner R) (sign : Cursor) : Checked (ByteScanner R) :=
  match s.tokens.getLast?.bind real? with
  | none => .error (.refused (.missingAngleMagnitude sign.offset))
  | some a => do
    -- The angle was pushed as a number before its sign was seen.
    let s := (s.moveTo (sign.drop 1)).truncate (s.tokens.length - 1)
    match ← mergeablePrefix s.tokens with
    | some (start, v, negative) => s.merge start (Lexeme.polar v (if negative then -a else a))
    | none => .error (.refused (.ambiguousPhase sign.offset))

/-- Reads what may follow the real literal at the end of the tokens. -/
def afterNumber (text : String) (s : ByteScanner R) : Checked (ByteScanner R) := do
  match ← scanUnit text s.chars with
  | some (u, c) => .ok ((s.moveTo c).push (.unit u) (offset text c))
  | none =>
    let sign := s.chars.skip isBlank
    if sign.nextIs (· == Lexeme.angleSign) then angle text s sign
    else if sign.nextIs (· == UnitSuffix.degreeSign) then s.degrees sign
    else .ok s

/-- Reads a number with what follows it. -/
def number (text : String) (s : ByteScanner R) : Checked (ByteScanner R) := do
  let start := s.chars.offset
  let (v, c) ← parseNumber text start s.chars
  if Lexeme.imaginaryUnitAt c then (s.moveTo (c.drop 1)).pushImaginary v start
  else afterNumber text ((s.moveTo c).push (.number v) start)

/-- Reads a word. -/
def word (text : String) (s : ByteScanner R) : Checked (ByteScanner R) := do
  let start := s.chars.offset
  let (stop, c) := s.chars.takeWhile start isNameChar
  let word ← slice text start stop
  let s := s.moveTo c
  match Operator.ofWord? word, Lexeme.truth? word, Lexeme.scalarWord? word with
  | some op, _, _ => .ok (s.pushOperator op start)
  | none, some b, _ => .ok (s.push (.truth b) start)
  | none, none, some v => .ok (s.push (.number v) start)
  | none, none, none =>
    if c.nextIs UnitSuffix.isCallBracket then .ok (s.push (.call word 0) start)
    else if word = "i" then s.pushImaginary 1 start
    else .ok (s.push (.name word) start)

/-- Reads the operator with the longest symbol at the cursor. -/
def operator (text : String) (s : ByteScanner R) (first : Char) : Checked (ByteScanner R) := do
  let start := s.chars.offset
  match ← firstOperator text start (candidates 3 s.chars).reverse with
  | some (op, c) => .ok ((s.moveTo c).pushOperator op start)
  | none => .error (.refused (.unknownSymbol first start))

/-- Reads a bracket or comma. -/
def delimiter (s : ByteScanner R) (b : Delimiter) : Checked (ByteScanner R) :=
  let start := s.chars.offset
  let s := s.moveTo (s.chars.drop 1)
  if b.isOpen then .ok (s.openBracket b start)
  else if b.isClose then s.closeBracket b start
  else .ok (s.comma start)

/-- Reads the temperature unit at a degree sign that follows no number directly. -/
def degreeSign (text : String) (s : ByteScanner R) : Checked (ByteScanner R) := do
  let start := s.chars.offset
  match ← scanUnit text s.chars with
  | some (u, c) => .ok ((s.moveTo c).push (.unit u) start)
  | none => .error (.refused (.missingAngleMagnitude start))

/-- Reads the lexeme that starts with the character `x` at the cursor. -/
def step (text : String) (s : ByteScanner R) (x : Char) : Checked (ByteScanner R) :=
  if isBlank x then .ok (s.moveTo (s.chars.drop 1))
  else if Numeral.isStart x then number text s
  else if isNameStart x then word text s
  else
    match Delimiter.ofChar? x with
    | some b => s.delimiter b
    | none =>
      if x = UnitSuffix.degreeSign then degreeSign text s
      else if x = Lexeme.angleSign then .error (.refused (.missingAngleMagnitude s.chars.offset))
      else operator text s x

/-! ## Whole texts -/

/-- Reads lexemes to the end of the text. -/
def run (text : String) (s : ByteScanner R) : Checked (ByteScanner R) :=
  match s.chars.rest with
  | [] => .ok s
  | x :: _ =>
    match step text s x with
    | .error e => .error e
    | .ok s' =>
      if _h : s'.chars.rest.length < s.chars.rest.length then run text s' else .error .stuck
termination_by s.chars.rest.length

omit [Scalar R] in
/-- Looks for something to negate behind each negation of truth values from an index on. -/
def checkNegations (s : ByteScanner R) : Nat → List (Token R) → Checked Unit
  | _, [] => .ok ()
  | i, t :: ts =>
    if isNot t && !s.tokens[i + 1]?.any negatable then do
      let position ← index s.positions i
      .error (.refused (.missingNotOperand position))
    else s.checkNegations (i + 1) ts

/-- The tokens of a text. -/
def tokenize (text : String) : Checked (List (Token R)) := do
  let s ← run text (start text)
  match s.frames with
  | frame :: _ => .error (.refused (.unbalancedBracket frame.symbol.char frame.position))
  | [] => do
    s.checkNegations 0 s.tokens
    .ok s.tokens

end ByteScanner

end SymbolicAlgebra
