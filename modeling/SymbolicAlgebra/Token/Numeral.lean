import SymbolicAlgebra.Scalar
import SymbolicAlgebra.Text.Cursor
import SymbolicAlgebra.Text.Numeral
import SymbolicAlgebra.Token.Error

set_option autoImplicit false

/-!
# Numerals: the spellings of real literals

A real literal is written in one of four notations, which `Numeral.scan` tells apart at a cursor.
`0x` and `0b` introduce hexadecimal and binary digits; a leading zero introduces octal digits,
unless a point or an exponent follows; all else is decimal, with an optional fraction and an
optional exponent. An `e` without a digit behind it is no exponent and does not belong to the
literal. A numeral takes at least one character (`Numeral.passes_scan`).

The three notations of integers hold numbers below `2 ^ 64`; a decimal literal may be of any
size.
-/

namespace SymbolicAlgebra.Numeral

open Text (Cursor isDigit)

/-! ## Digit words -/

/-- The value of a digit in a radix up to sixteen. -/
def digitValue? (radix : Nat) (c : Char) : Option Nat :=
  let v? :=
    if c.isDigit then some (c.toNat - '0'.toNat)
    else if 'a' ≤ c ∧ c ≤ 'f' then some (c.toNat - 'a'.toNat + 10)
    else if 'A' ≤ c ∧ c ≤ 'F' then some (c.toNat - 'A'.toNat + 10)
    else none
  v?.filter (· < radix)

/-- The value of a digit word behind digits of the value `acc`. -/
def ofDigitsFrom? (radix : Nat) : (acc : Nat) → List Char → Option Nat
  | acc, [] => some acc
  | acc, c :: cs => do ofDigitsFrom? radix (radix * acc + (← digitValue? radix c)) cs

/-- The bound of the integers written in a notation other than decimal. -/
def wordBound : Nat := Nat.pow 2 64

/-- The value of a digit word that has a digit, holds digits only and is not too great. -/
def ofDigits? (radix : Nat) (w : List Char) : Option Nat :=
  if w.isEmpty then none else (ofDigitsFrom? radix 0 w).filter (· < wordBound)

/-- The value of a word of decimal digits, of any size. -/
def decimalValue (w : List Char) : Nat := (ofDigitsFrom? 10 0 w).getD 0

/-! ## Scanning -/

/-- The error that covers the text from one cursor to another. -/
def malformed (c c' : Cursor) : LexError := .malformedNumber (c.upTo c') c.offset c'.offset

/-- Whether a character may stand in a digit word behind a radix prefix. -/
def isWordChar (c : Char) : Bool := c.isAlphanum

/-- The radix that a prefix announces at the cursor. -/
def radix? (c : Cursor) : Option Nat :=
  match c.rest with
  | '0' :: x :: _ =>
    if x = 'x' ∨ x = 'X' then some 16 else if x = 'b' ∨ x = 'B' then some 2 else none
  | _ => none

/-- The fraction behind the whole part of the numeral that starts at `start`: no text, or
a point and its digits. A point must have digits behind it, and only one may stand in a
numeral. -/
def fraction? (start c : Cursor) : Except LexError (Option (List Char) × Cursor) :=
  if c.nextIs (· == '.') then
    let (w, c') := (c.drop 1).span isDigit
    if w.isEmpty then .error (malformed start c')
    else if c'.nextIs (· == '.') then
      .error (malformed start (c'.skip fun x => isDigit x || x == '.'))
    else .ok (some w, c')
  else .ok (none, c)

/-- An optional sign at the cursor: whether it is a minus sign, and the cursor behind
it. -/
def sign (c : Cursor) : Bool × Cursor :=
  if c.nextIs (· == '-') then (true, c.drop 1)
  else if c.nextIs (· == '+') then (false, c.drop 1)
  else (false, c)

/-- The exponent at the cursor, if there is one, and the cursor behind it. -/
def exponent? (c : Cursor) : Option (Int × Cursor) :=
  if c.nextIs fun x => x == 'e' || x == 'E' then
    let (negative, c) := sign (c.drop 1)
    if c.nextIs isDigit then
      let (w, c') := c.span isDigit
      some (if negative then -decimalValue w else decimalValue w, c')
    else none
  else none

variable {R : Type} [Scalar R]

/-- The scalar of a decimal numeral. -/
def decimalScalar (whole fraction : List Char) (exponent : Int) : R :=
  Scalar.ofDecimal (decimalValue (whole ++ fraction)) (exponent - fraction.length)

/-- The scalar of an integer in the notation given, or the error that covers it. -/
def radixScalar (radix : Nat) (w : List Char) (start stop : Cursor) :
    Except LexError (R × Cursor) :=
  match ofDigits? radix w with
  | some n => .ok (Scalar.ofNat n, stop)
  | none => .error (malformed start stop)

/-- Reads the numeral at the cursor: its value and the cursor behind it. -/
def scan (start : Cursor) : Except LexError (R × Cursor) :=
  match radix? start with
  | some radix =>
    let (w, c) := (start.drop 2).span isWordChar
    radixScalar radix w start c
  | none =>
    let (whole, c) := start.span isDigit
    match fraction? start c with
    | .error e => .error e
    | .ok (fraction, c) =>
      match fraction, exponent? c with
      | none, none =>
        if 1 < whole.length ∧ whole.head? = some '0' then radixScalar 8 whole start c
        else .ok (decimalScalar whole [] 0, c)
      | _, some (e, c) => .ok (decimalScalar whole (fraction.getD []) e, c)
      | some f, none => .ok (decimalScalar whole f 0, c)

/-! ## Progress -/

/-- Whether a character may start a numeral. -/
def isStart (c : Char) : Bool := isDigit c || c == '.'

theorem reaches_sign (c : Cursor) : c.Reaches (sign c).2 := by
  unfold sign
  split
  · exact Cursor.reaches_drop c 1
  · split
    · exact Cursor.reaches_drop c 1
    · exact Cursor.Reaches.refl c

theorem reaches_exponent {c c' : Cursor} {e : Int} (h : exponent? c = some (e, c')) :
    c.Reaches c' := by
  unfold exponent? at h
  split at h
  · simp only at h
    split at h
    · simp only [Option.some.injEq, Prod.mk.injEq] at h
      rw [← h.2]
      exact ((Cursor.reaches_drop c 1).trans (reaches_sign _)).trans (Cursor.reaches_span _ _)
    · contradiction
  · contradiction

theorem reaches_fraction {start c c' : Cursor} {f : Option (List Char)}
    (h : fraction? start c = .ok (f, c')) : c.Reaches c' := by
  unfold fraction? at h
  split at h
  · simp only at h
    split at h
    · contradiction
    · split at h
      · contradiction
      · simp only [Except.ok.injEq, Prod.mk.injEq] at h
        rw [← h.2]
        exact (Cursor.reaches_drop c 1).trans (Cursor.reaches_span _ _)
  · simp only [Except.ok.injEq, Prod.mk.injEq] at h
    rw [← h.2]
    exact Cursor.Reaches.refl c

/-- A fraction that starts with a point takes at least one character. -/
theorem passes_fraction {start c c' : Cursor} {f : Option (List Char)}
    (h : fraction? start c = .ok (f, c')) (hc : c.nextIs (· == '.') = true) :
    c.Passes c' := by
  have hne : c.rest ≠ [] := by
    rintro hn
    simp [Cursor.nextIs, hn] at hc
  unfold fraction? at h
  rw [if_pos hc] at h
  simp only at h
  split at h
  · contradiction
  · split at h
    · contradiction
    · simp only [Except.ok.injEq, Prod.mk.injEq] at h
      rw [← h.2]
      exact (Cursor.passes_drop Nat.one_pos hne).trans_reaches (Cursor.reaches_span _ _)

theorem eq_of_radixScalar {radix : Nat} {w : List Char} {start stop c : Cursor} {v : R}
    (h : radixScalar radix w start stop = .ok (v, c)) : c = stop := by
  unfold radixScalar at h
  split at h
  · simp only [Except.ok.injEq, Prod.mk.injEq] at h
    exact h.2.symm
  · contradiction

/-- A numeral takes at least one character. -/
theorem passes_scan {start c : Cursor} {v : R} (hs : start.nextIs isStart = true)
    (h : scan start = .ok (v, c)) : start.Passes c := by
  unfold scan at h
  split at h
  · rename_i radix hr
    have hne : start.rest ≠ [] := by
      rintro hn
      simp [radix?, hn] at hr
    simp only at h
    rw [eq_of_radixScalar h]
    exact (Cursor.passes_drop Nat.two_pos hne).trans_reaches (Cursor.reaches_span _ _)
  · simp only at h
    split at h
    · contradiction
    · rename_i f c₁ hf
      -- the whole part or the point takes a character
      have hp : start.Passes c₁ := by
        by_cases hd : start.nextIs isDigit = true
        · exact (Cursor.passes_span hd).trans_reaches (reaches_fraction hf)
        · have hrest : (start.span isDigit).2.rest = start.rest := by
            obtain ⟨o, rest⟩ := start
            cases rest with
            | nil => rfl
            | cons x xs =>
              simp only [Cursor.nextIs, List.head?_cons, Option.any_some,
                Bool.not_eq_true] at hd
              simp [Cursor.span, hd]
          have hdot : (start.span isDigit).2.nextIs (· == '.') = true := by
            simp only [Cursor.nextIs, hrest] at hs hd ⊢
            cases hx : start.rest.head? with
            | none => simp [hx] at hs
            | some x => simp_all [isStart]
          exact (Cursor.reaches_span start isDigit).trans_passes (passes_fraction hf hdot)
      split at h
      · split at h
        · rw [eq_of_radixScalar h]; exact hp
        · simp only [Except.ok.injEq, Prod.mk.injEq] at h
          rw [← h.2]; exact hp
      · rename_i e c₂ he
        simp only [Except.ok.injEq, Prod.mk.injEq] at h
        rw [← h.2]
        exact hp.trans_reaches (reaches_exponent he)
      · simp only [Except.ok.injEq, Prod.mk.injEq] at h
        rw [← h.2]; exact hp

end SymbolicAlgebra.Numeral
