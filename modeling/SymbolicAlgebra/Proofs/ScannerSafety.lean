import SymbolicAlgebra.Proofs.ByteScannerRun
import SymbolicAlgebra.Proofs.ErrorPlaces

set_option autoImplicit false

/-!
# Scanning is safe

The scanner that computes its offsets by hand is safe on every text (`ByteScanner.scanning_safe`):
each lexeme takes a character from it, finds every slice and index that it asks for, and leaves a
place for every token. When it stops before the end, it refuses the text and points at what it
refuses. All of this is kept along the scanners that are met in a text
(`ByteScanner.Reached.invariant`).
-/

namespace SymbolicAlgebra.ByteScanner

open Text (Cursor)

variable {R : Type} [Scalar R] {text : String} {s s' : ByteScanner R} {x : Char} {xs : List Char}

/-- A scanner that is met between two lexemes of a text. -/
inductive Reached (text : String) : ByteScanner R → Prop where
  /-- At the start of the text. -/
  | start : Reached text (start text)
  /-- Behind a lexeme. -/
  | step {s s' : ByteScanner R} {x : Char} {xs : List Char} (h : Reached text s)
    (hx : s.chars.rest = x :: xs) (hs : step text s x = .ok s') : Reached text s'

/-- Every scanner that is met represents what has been read of the text. -/
theorem Reached.invariant (h : Reached text s) : ∃ d, Invariant text s d := by
  induction h with
  | start => exact ⟨Draft.empty, invariant_start text⟩
  | step h hx hs ih =>
    obtain ⟨d, hd⟩ := ih
    obtain ⟨d', -, hd', -⟩ := hd.step hx hs
    exact ⟨d', hd'⟩

/-- A lexeme is read, or the text is refused for a cause that points into it. -/
theorem Invariant.pointsInto {d : Draft R} {stop : Stop} (h : Invariant text s d)
    (hx : s.chars.rest = x :: xs) (hs : ByteScanner.step text s x = .error stop) :
    ∃ e, stop = .refused e ∧ e.PointsInto text := by
  have hagrees := agrees_step h.represents h.reaches h.bracketed hx
  rw [hs] at hagrees
  generalize hd : Lexeme.step d s.chars x = o at hagrees
  cases hagrees with
  | refused e => exact ⟨e, rfl, Lexeme.pointsInto_step h.reaches hx hd⟩

/-- Scanning by offsets is safe on every text. Between two lexemes there are as many positions as
tokens; a lexeme takes at least one character, and stops only because the text is refused, never
for a slice or an index that does not exist. The scanner as a whole ends with the tokens of the
text or with its refusal. A refusal points at what it refuses: at the character or the slice of
the text that it carries, at a degree or angle sign, or at a negation. -/
theorem scanning_safe (text : String) :
    (∀ s : ByteScanner R, Reached text s → s.positions.length = s.tokens.length ∧
      ∀ x xs, s.chars.rest = x :: xs →
        (∀ s', step text s x = .ok s' → s.chars.Passes s'.chars) ∧
        ∀ stop, step text s x = .error stop → ∃ e, stop = .refused e ∧ e.PointsInto text) ∧
    (tokenize text : Checked (List (Token R))) = lift (SymbolicAlgebra.tokenize text) ∧
    ∀ e, (SymbolicAlgebra.tokenize text : Except LexError (List (Token R))) = .error e →
      e.PointsInto text := by
  refine ⟨fun s hs => ?_, tokenize_eq text, fun e => pointsInto_of_tokenize⟩
  obtain ⟨d, hd⟩ := hs.invariant
  refine ⟨hd.represents.length_positions, fun x xs hx => ⟨fun s' hstep => ?_, fun stop => ?_⟩⟩
  · obtain ⟨-, -, -, hpasses⟩ := hd.step hx hstep
    exact hpasses
  · exact hd.pointsInto hx

/-- A blank of two bytes is passed, then the angle sign behind it is refused at offset 2. -/
theorem scanning_safe_wideBlank :
    ∃ s : ByteScanner Whole, Reached "\u00a0∠" s ∧ s.positions.length = s.tokens.length ∧
      (start "\u00a0∠" : ByteScanner Whole).chars.Passes s.chars ∧
      (∃ e, Stop.refused (.missingAngleMagnitude 2) = .refused e ∧ e.PointsInto "\u00a0∠") ∧
      (tokenize "\u00a0∠" : Checked (List (Token Whole))) =
        .error (.refused (.missingAngleMagnitude 2)) ∧
      (LexError.missingAngleMagnitude 2).PointsInto "\u00a0∠" := by
  let s : ByteScanner Whole := (start "\u00a0∠").moveTo ⟨2, ['∠']⟩
  have hblank : step "\u00a0∠" (start "\u00a0∠") '\u00a0' = .ok s := if_pos (by decide)
  have hstart : (Cursor.start "\u00a0∠").rest = ['\u00a0', '∠'] := rfl
  have hreached : Reached "\u00a0∠" s := .step .start hstart hblank
  have hsign : step "\u00a0∠" s '∠' = .error (.refused (.missingAngleMagnitude 2)) := by
    unfold step
    rw [if_neg (by decide +kernel), if_neg (by decide +kernel), if_neg (by decide +kernel)]
    rfl
  have hlexeme : Lexeme.step (Draft.empty : Draft Whole) ⟨2, ['∠']⟩ '∠' =
      .error (.missingAngleMagnitude 2) := by
    unfold Lexeme.step
    rw [if_neg (by decide +kernel), if_neg (by decide +kernel), if_neg (by decide +kernel)]
    rfl
  have hspace : Lexeme.step (Draft.empty : Draft Whole) (Cursor.start "\u00a0∠") '\u00a0' =
      .ok (Draft.empty, ⟨2, ['∠']⟩) := if_pos (by decide)
  have hrefused : (SymbolicAlgebra.tokenize "\u00a0∠" : Except LexError (List (Token Whole))) =
      .error (.missingAngleMagnitude 2) := by
    have hsecond : (⟨2, ['∠']⟩ : Cursor).rest = ['∠'] := rfl
    rw [SymbolicAlgebra.tokenize, readLexemes_cons Draft.empty hstart, hspace, Except.bind,
      readLexemes_cons Draft.empty hsecond, hlexeme]
    rfl
  obtain ⟨hsafe, heq, hpoints⟩ := scanning_safe (R := Whole) "\u00a0∠"
  obtain ⟨hlength, hstop⟩ := hsafe s hreached
  refine ⟨s, hreached, hlength, ((hsafe _ .start).2 _ _ hstart).1 s hblank, ?_, ?_, ?_⟩
  · exact (hstop '∠' [] rfl).2 _ hsign
  · rw [heq, hrefused]
    rfl
  · exact hpoints _ hrefused

end SymbolicAlgebra.ByteScanner
