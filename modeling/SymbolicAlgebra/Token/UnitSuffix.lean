import SymbolicAlgebra.Token
import SymbolicAlgebra.Text.Blank
import SymbolicAlgebra.Text.Cursor
import SymbolicAlgebra.Text.Numeral

set_option autoImplicit false

/-!
# Units behind numbers

A unit stands behind a number, with or without blanks between (`UnitSuffix.scan?`). It is a word, a
word with the power two or three, or a degree sign with the letter of a temperature scale. A word
that spells an operator is no unit, nor is a word that is called like a function. A unit takes at
least one character (`UnitSuffix.passes_scan?`).
-/

namespace SymbolicAlgebra.UnitSuffix

open Text (Cursor isBlank isLetter isNameChar isDigit)

/-- The degree sign. -/
def degreeSign : Char := '°'

/-- Whether a character is the letter of a temperature scale. -/
def isScale (c : Char) : Bool := c == 'C' || c == 'F'

/-- Whether a character opens the arguments of a call. -/
def isCallBracket (c : Char) : Bool := c == '(' || c == '\x7b'

/-- The temperature unit at a degree sign. -/
def temperature? (c : Cursor) : Option (MeasureUnit × Cursor) :=
  match c.rest with
  | d :: s :: _ =>
    if isScale s && !(c.drop 2).nextIs isNameChar then
      (MeasureUnit.ofName? (String.ofList [d, s])).map (·, c.drop 2)
    else none
  | _ => none

/-- The unit that a word forms with the power behind it. -/
def power? (word : List Char) (c : Cursor) : Option (MeasureUnit × Cursor) :=
  match c.rest with
  | '^' :: n :: _ =>
    if (n == '2' || n == '3') && !(c.drop 2).nextIs (fun x => isDigit x || x == '.') then
      (MeasureUnit.ofName? (String.ofList (word ++ ['^', n]))).map (·, c.drop 2)
    else none
  | _ => none

/-- The unit that the word at the cursor forms, with or without a power. -/
def word? (c : Cursor) : Option (MeasureUnit × Cursor) :=
  let (w, c') := c.span isNameChar
  if (Operator.ofWord? (String.ofList w)).isSome then none
  else
    match power? w c' with
    | some r => some r
    | none =>
      if c'.nextIs isCallBracket then none
      else (MeasureUnit.ofName? (String.ofList w)).map (·, c')

/-- The unit at the cursor, blanks before it skipped. -/
def scan? (c : Cursor) : Option (MeasureUnit × Cursor) :=
  let c := c.skip isBlank
  if c.nextIs (· == degreeSign) then temperature? c
  else if c.nextIs isLetter then word? c
  else none

/-! ## Progress -/

theorem passes_temperature? {c c' : Cursor} {u : MeasureUnit}
    (h : temperature? c = some (u, c')) : c.Passes c' := by
  unfold temperature? at h
  split at h
  · rename_i d s r hr
    split at h
    · simp only [Option.map_eq_some_iff, Prod.mk.injEq] at h
      obtain ⟨_, _, _, rfl⟩ := h
      exact Cursor.passes_drop Nat.two_pos (by simp [hr])
    · contradiction
  · contradiction

theorem reaches_power? {w : List Char} {c c' : Cursor} {u : MeasureUnit}
    (h : power? w c = some (u, c')) : c.Reaches c' := by
  unfold power? at h
  split at h
  · split at h
    · simp only [Option.map_eq_some_iff, Prod.mk.injEq] at h
      obtain ⟨_, _, _, rfl⟩ := h
      exact Cursor.reaches_drop c 2
    · contradiction
  · contradiction

theorem passes_word? {c c' : Cursor} {u : MeasureUnit} (hc : c.nextIs isNameChar = true)
    (h : word? c = some (u, c')) : c.Passes c' := by
  unfold word? at h
  simp only at h
  split at h
  · contradiction
  · refine (Cursor.passes_span hc).trans_reaches ?_
    split at h
    · rename_i r hr
      obtain rfl := Option.some.inj h
      exact reaches_power? hr
    · split at h
      · contradiction
      · simp only [Option.map_eq_some_iff, Prod.mk.injEq] at h
        obtain ⟨_, _, _, rfl⟩ := h
        exact Cursor.Reaches.refl _

/-- A cursor at a letter is a cursor at a character of a name. -/
theorem nextIs_nameChar {c : Cursor} (h : c.nextIs isLetter = true) :
    c.nextIs isNameChar = true := by
  unfold Cursor.nextIs at h ⊢
  cases hx : c.rest.head? with
  | none => simp [hx] at h
  | some x =>
    simp only [hx, Option.any_some] at h ⊢
    simp [isNameChar, h]

/-- A unit takes at least one character. -/
theorem passes_scan? {c c' : Cursor} {u : MeasureUnit} (h : scan? c = some (u, c')) :
    c.Passes c' := by
  unfold scan? at h
  refine (Cursor.reaches_skip c isBlank).trans_passes ?_
  simp only at h
  split at h
  · exact passes_temperature? h
  · split at h
    · rename_i hl
      exact passes_word? (nextIs_nameChar hl) h
    · contradiction

end SymbolicAlgebra.UnitSuffix
