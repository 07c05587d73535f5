import Mathlib.Algebra.Ring.Nat
import Mathlib.Data.List.Forall2
import SymbolicAlgebra.Proofs.DecimalText
import SymbolicAlgebra.Proofs.TextSlice
import SymbolicAlgebra.Scalar.SignedFloat

set_option autoImplicit false

/-!
# The spellings of an integer

A natural number can be written in decimal, in hexadecimal or binary digits behind a prefix, and
in octal digits behind a zero (`Numeral.IsSpelling`). The scanner tells the notations apart by
looking ahead, and each of them is converted in its own way. This module shows that the spellings
of one number give one token (`tokenize_integer_spellings`).

A digit word may start with superfluous zeros and may have letters of both cases
(`Numeral.IsDigitWord`). Its value does not depend on them, and it has no end but the end of the
text, so that one run of the scanner serves the three notations with a radix
(`Numeral.scan_of_isRadixSpelling`). The notation decides only about what is too great: these three
hold numbers below `2 ^ 64`.
-/

namespace SymbolicAlgebra

open Text (Cursor byteLength byteLength_cons byteLength_nil isDigit)

namespace Numeral

/-! ## Digit words -/

/-- The character is the digit of the value `d`, in either case. -/
def IsDigitOf (d : Nat) (c : Char) : Prop := c = d.digitChar ∨ c = d.digitChar.toUpper

/-- The word consists of zeros and the digits of a number, each letter in either case. -/
def IsDigitWord (radix n : Nat) (w : List Char) : Prop :=
  ∃ k ds, w = List.replicate k '0' ++ ds ∧
    List.Forall₂ (fun c x => c = x ∨ c = x.toUpper) ds (Nat.toDigits radix n)

/-- A digit has its value in every radix above it. -/
theorem digitValue?_of_isDigitOf {radix d : Nat} {c : Char} (hd : d < radix) (hradix : radix ≤ 16)
    (h : IsDigitOf d c) : digitValue? radix c = some d := by
  have hall : ∀ d < 16, digitValue? 16 d.digitChar = some d ∧
      digitValue? 16 d.digitChar.toUpper = some d := by decide
  have hsixteen : digitValue? 16 c = some d := by
    rcases h with rfl | rfl
    · exact (hall d (by omega)).1
    · exact (hall d (by omega)).2
  simp only [digitValue?, Option.filter_eq_some_iff] at hsixteen ⊢
  exact ⟨hsixteen.1, decide_eq_true hd⟩

/-- A digit may stand in a word behind a prefix. -/
theorem isWordChar_of_isDigitOf {d : Nat} {c : Char} (hd : d < 16) (h : IsDigitOf d c) :
    isWordChar c = true := by
  have hall : ∀ d < 16, isWordChar d.digitChar = true ∧ isWordChar d.digitChar.toUpper = true := by
    decide
  rcases h with rfl | rfl
  · exact (hall d hd).1
  · exact (hall d hd).2

/-- A digit below ten is a decimal digit. -/
theorem isDigit_of_isDigitOf {d : Nat} {c : Char} (hd : d < 10) (h : IsDigitOf d c) :
    isDigit c = true := by
  have hall : ∀ d < 10, isDigit d.digitChar = true ∧ isDigit d.digitChar.toUpper = true := by
    decide
  rcases h with rfl | rfl
  · exact (hall d hd).1
  · exact (hall d hd).2

/-- Digits behind digits. -/
theorem ofDigitsFrom?_append (radix acc : Nat) (v w : List Char) :
    ofDigitsFrom? radix acc (v ++ w) =
      (ofDigitsFrom? radix acc v).bind fun acc => ofDigitsFrom? radix acc w := by
  induction v generalizing acc with
  | nil => rfl
  | cons c v ih =>
    rw [List.cons_append, ofDigitsFrom?, ofDigitsFrom?]
    cases digitValue? radix c with
    | none => rfl
    | some d => exact ih _

/-- The digits of a number, each letter in either case, have its value. -/
theorem ofDigitsFrom?_toDigits {radix n : Nat} {ds : List Char} (hone : 1 < radix)
    (hradix : radix ≤ 16)
    (h : List.Forall₂ (fun c x => c = x ∨ c = x.toUpper) ds (Nat.toDigits radix n)) :
    ofDigitsFrom? radix 0 ds = some n ∧ ∀ c ∈ ds, ∃ d < radix, IsDigitOf d c := by
  induction n using Nat.strongRecOn generalizing ds with
  | ind n ih =>
    rw [Nat.toDigits_eq_if hone] at h
    split at h
    · rename_i hlt
      cases h with
      | cons hc h =>
        cases h
        have hvalue := digitValue?_of_isDigitOf hlt hradix hc
        refine ⟨by simp [ofDigitsFrom?, hvalue], fun c' hc' => ?_⟩
        rw [List.mem_singleton.1 hc']
        exact ⟨n, hlt, hc⟩
    · rename_i hle
      have hfront := List.forall₂_take_append ds _ _ h
      have hlast := List.forall₂_drop_append ds _ _ h
      obtain ⟨hvalue, hdigits⟩ := ih (n / radix) (Nat.div_lt_self (by omega) hone) hfront
      have hmod : n % radix < radix := Nat.mod_lt n (by omega)
      obtain ⟨c, hdrop, hc⟩ : ∃ c, ds.drop (Nat.toDigits radix (n / radix)).length = [c] ∧
          IsDigitOf (n % radix) c := by
        obtain ⟨c, tail, hc, htail, hdrop⟩ := List.forall₂_cons_right_iff.1 hlast
        rw [List.forall₂_nil_right_iff.1 htail] at hdrop
        exact ⟨c, hdrop, hc⟩
      rw [← List.take_append_drop (Nat.toDigits radix (n / radix)).length ds, hdrop]
      constructor
      · rw [ofDigitsFrom?_append, hvalue]
        simp [ofDigitsFrom?, digitValue?_of_isDigitOf hmod hradix hc, Nat.div_add_mod]
      · intro c' hc'
        rcases List.mem_append.1 hc' with hc' | hc'
        · exact hdigits c' hc'
        · rw [List.mem_singleton.1 hc']
          exact ⟨n % radix, hmod, hc⟩

/-- Superfluous zeros add nothing. -/
theorem ofDigitsFrom?_zeros {radix : Nat} (hradix : 0 < radix) (k : Nat) :
    ofDigitsFrom? radix 0 (List.replicate k '0') = some 0 := by
  have hzero : digitValue? radix '0' = some 0 := by
    simp [digitValue?, hradix]
  induction k with
  | zero => rfl
  | succ k ih =>
    rw [List.replicate_succ, ofDigitsFrom?, hzero]
    exact ih

/-- A digit word of a number has its value and consists of digits. -/
theorem IsDigitWord.ofDigitsFrom? {radix n : Nat} {w : List Char} (hone : 1 < radix)
    (hradix : radix ≤ 16) (h : IsDigitWord radix n w) :
    w ≠ [] ∧ Numeral.ofDigitsFrom? radix 0 w = some n ∧ ∀ c ∈ w, ∃ d < radix, IsDigitOf d c := by
  obtain ⟨k, ds, rfl, hds⟩ := h
  obtain ⟨hvalue, hdigits⟩ := ofDigitsFrom?_toDigits hone hradix hds
  refine ⟨fun hnil => ?_, ?_, fun c hc => ?_⟩
  · rw [(List.append_eq_nil_iff.1 hnil).2, List.forall₂_nil_left_iff] at hds
    exact Nat.toDigits_ne_nil hds
  · rw [ofDigitsFrom?_append, ofDigitsFrom?_zeros (by omega), Option.bind_some, hvalue]
  · rcases List.mem_append.1 hc with hc | hc
    · exact ⟨0, by omega, .inl (List.eq_of_mem_replicate hc)⟩
    · exact hdigits c hc

/-- A digit word is accepted where its number is not too great. -/
theorem IsDigitWord.ofDigits? {radix n : Nat} {w : List Char} (hone : 1 < radix)
    (hradix : radix ≤ 16) (h : IsDigitWord radix n w) :
    Numeral.ofDigits? radix w = if n < wordBound then some n else none := by
  obtain ⟨hne, hvalue, -⟩ := h.ofDigitsFrom? hone hradix
  rw [Numeral.ofDigits?, if_neg (by simpa using hne), hvalue, Option.filter_some]
  simp

/-! ## Spellings -/

/-- The spellings of a number in a notation with a radix. -/
inductive IsRadixSpelling (n : Nat) : List Char → Prop where
  /-- Hexadecimal digits behind a prefix. -/
  | hexadecimal {x : Char} {w : List Char} (hx : x = 'x' ∨ x = 'X') (h : IsDigitWord 16 n w) :
    IsRadixSpelling n ('0' :: x :: w)
  /-- Binary digits behind a prefix. -/
  | binary {x : Char} {w : List Char} (hx : x = 'b' ∨ x = 'B') (h : IsDigitWord 2 n w) :
    IsRadixSpelling n ('0' :: x :: w)
  /-- Octal digits behind a zero. -/
  | octal {w : List Char} (h : IsDigitWord 8 n w) : IsRadixSpelling n ('0' :: w)

/-- The spellings of a number. -/
inductive IsSpelling (n : Nat) : List Char → Prop where
  /-- Decimal digits without superfluous zeros. -/
  | decimal : IsSpelling n (Nat.toDigits 10 n)
  /-- A notation with a radix. -/
  | radix {s : List Char} (h : IsRadixSpelling n s) : IsSpelling n s

/-! ## The scanner -/

variable {R : Type} [Scalar R]

/-- The number of a digit word, at the end of the text `s`, unless it is too great. -/
def wordOutcome (n : Nat) (s : List Char) : Except LexError (R × Cursor) :=
  if n < wordBound then .ok (Scalar.ofNat n, ⟨byteLength s, []⟩)
  else .error (.malformedNumber (String.ofList s) 0 (byteLength s))

/-- A digit word that ends the text gives its number. -/
theorem radixScalar_of_isDigitWord {radix n : Nat} {w s : List Char} (hone : 1 < radix)
    (hradix : radix ≤ 16) (h : IsDigitWord radix n w) :
    radixScalar (R := R) radix w ⟨0, s⟩ ⟨byteLength s, []⟩ = wordOutcome n s := by
  rw [radixScalar, h.ofDigits? hone hradix, wordOutcome]
  split <;> rename_i hn
  · split at hn
    · cases hn
      rw [if_pos ‹_›]
    · cases hn
  · split at hn
    · cases hn
    · rw [if_neg ‹_›, malformed, Cursor.upTo_eq (w := s) (by simp)]

/-- A text of characters of one kind is spanned to the end. -/
theorem span_all {w : List Char} {p : Char → Bool} (hw : ∀ c ∈ w, p c = true) (o : Nat) :
    (⟨o, w⟩ : Cursor).span p = (w, ⟨o + byteLength w, []⟩) := by
  have h := span_append hw (show ([] : List Char).head?.all (fun c => !p c) = true from rfl) o
  rwa [List.append_nil] at h

/-- A digit word behind a prefix is scanned to the end. -/
theorem scan_of_prefix {radix n : Nat} {x : Char} {w : List Char} (hone : 1 < radix)
    (hradix : radix ≤ 16) (hx : radix? ⟨0, '0' :: x :: w⟩ = some radix)
    (h : IsDigitWord radix n w) :
    scan (R := R) ⟨0, '0' :: x :: w⟩ = wordOutcome n ('0' :: x :: w) := by
  obtain ⟨-, -, hdigits⟩ := h.ofDigitsFrom? hone hradix
  have hword : ∀ c ∈ w, isWordChar c = true := fun c hc => by
    obtain ⟨d, hd, hc⟩ := hdigits c hc
    exact isWordChar_of_isDigitOf (by omega) hc
  have hspan : ((⟨0, '0' :: x :: w⟩ : Cursor).drop 2).span isWordChar =
      (w, ⟨byteLength ('0' :: x :: w), []⟩) := by
    rw [show byteLength ('0' :: x :: w) = 0 + byteLength ['0', x] + byteLength w by
      simp only [byteLength_cons, byteLength_nil]; omega]
    exact span_all hword (0 + byteLength ['0', x])
  rw [scan, hx]
  dsimp only
  rw [hspan]
  exact radixScalar_of_isDigitWord hone hradix h

/-- Octal digits behind a zero are scanned to the end. -/
theorem scan_of_octal {n : Nat} {w : List Char} (h : IsDigitWord 8 n w) :
    scan (R := R) ⟨0, '0' :: w⟩ = wordOutcome n ('0' :: w) := by
  obtain ⟨hne, -, hdigits⟩ := h.ofDigitsFrom? (by decide) (by decide)
  have hdigit : ∀ c ∈ '0' :: w, isDigit c = true := by
    refine List.forall_mem_cons.2 ⟨rfl, fun c hc => ?_⟩
    obtain ⟨d, hd, hc⟩ := hdigits c hc
    exact isDigit_of_isDigitOf (by omega) hc
  have hzero : IsDigitWord 8 n ('0' :: w) := by
    obtain ⟨k, ds, rfl, hds⟩ := h
    exact ⟨k + 1, ds, rfl, hds⟩
  have hradix : radix? ⟨0, '0' :: w⟩ = none := by
    obtain ⟨y, ys, rfl⟩ := List.exists_cons_of_ne_nil hne
    have hy := hdigit y (by simp)
    have hnot : ∀ c ∈ ['x', 'X', 'b', 'B'], isDigit c = false := by
      simp only [List.forall_mem_cons]
      exact ⟨rfl, rfl, rfl, rfl, nofun⟩
    have hy' : y ∉ ['x', 'X', 'b', 'B'] := fun hmem => by
      rw [hnot y hmem] at hy
      cases hy
    simp only [List.mem_cons, List.not_mem_nil, or_false, not_or] at hy'
    simp [radix?, hy']
  have hspan : (⟨0, '0' :: w⟩ : Cursor).span isDigit =
      ('0' :: w, ⟨byteLength ('0' :: w), []⟩) := by
    rw [span_all hdigit 0, Nat.zero_add]
  have hlength : 1 < ('0' :: w).length ∧ ('0' :: w).head? = some '0' :=
    ⟨Nat.succ_lt_succ (List.length_pos_iff.2 hne), rfl⟩
  rw [scan, hradix]
  dsimp only
  rw [hspan]
  have hend : ∀ start, fraction? start ⟨byteLength ('0' :: w), []⟩ =
      .ok (none, ⟨byteLength ('0' :: w), []⟩) := fun _ => rfl
  have hexponent : exponent? ⟨byteLength ('0' :: w), []⟩ = none := rfl
  simp only [hend, hexponent]
  rw [if_pos hlength]
  exact radixScalar_of_isDigitWord (by decide) (by decide) hzero

/-- One run of the scanner for the notations with a radix. -/
theorem scan_of_isRadixSpelling {n : Nat} {s : List Char} (h : IsRadixSpelling n s) :
    scan (R := R) ⟨0, s⟩ = wordOutcome n s := by
  cases h with
  | hexadecimal hx h =>
    refine scan_of_prefix (by decide) (by decide) ?_ h
    rcases hx with rfl | rfl <;> rfl
  | binary hx h =>
    refine scan_of_prefix (by decide) (by decide) ?_ h
    rcases hx with rfl | rfl <;> rfl
  | octal h => exact scan_of_octal h

/-- The decimal digits of a number are scanned to the end. -/
theorem scan_toDigits (n : Nat) :
    ∃ o, scan (R := R) ⟨0, Nat.toDigits 10 n⟩ = .ok (Scalar.ofDecimal n 0, ⟨o, []⟩) := by
  obtain ⟨o, h⟩ := scan_plain (R := R) (isPlain_toDigits n) (show ends [] = true from rfl) 0
  refine ⟨o, ?_⟩
  rw [← value_toDigits, ← h]
  simp [plain]

/-- Every spelling starts with a digit. -/
theorem IsSpelling.exists_digit {n : Nat} {s : List Char} (h : IsSpelling n s) :
    ∃ x xs, s = x :: xs ∧ isDigit x = true := by
  cases h with
  | decimal =>
    obtain ⟨x, xs, hx⟩ := List.exists_cons_of_ne_nil (Nat.toDigits_ne_nil (n := n) (b := 10))
    refine ⟨x, xs, hx, isDigit_of_mem_toDigits (n := n) x ?_⟩
    rw [hx]
    exact List.mem_cons_self
  | radix h => cases h <;> exact ⟨'0', _, rfl, rfl⟩

end Numeral

/-! ## Tokens -/

section Tokens

variable {R : Type} [Scalar R] {text : String} {x : Char} {xs : List Char}

/-- A text that is a numeral is one token. -/
theorem tokenize_of_scan (htext : text.toList = x :: xs) (hx : isDigit x = true) {v : R} {o : Nat}
    (h : Numeral.scan ⟨0, text.toList⟩ = .ok (v, ⟨o, []⟩)) : tokenize text = .ok [.number v] := by
  have hstep : Lexeme.step (R := R) Draft.empty ⟨0, x :: xs⟩ x =
      .ok (Draft.empty.push (.number v) 0, ⟨o, []⟩) := by
    rw [Lexeme.step_of_isDigit hx, Lexeme.number, ← htext, h]
    dsimp only
    rw [Lexeme.imaginaryUnitAt_eq_false .nil]
    exact Lexeme.numberSuffix_eq .nil _ _ _ _
  have hread : readLexemes (R := R) Draft.empty (Cursor.start text) =
      .ok (Draft.empty.push (.number v) 0) := by
    rw [Cursor.start, htext, readLexemes_of_step hstep, readLexemes]
  rw [tokenize, hread]
  rfl

/-- A text whose numeral is refused is refused with the same error. -/
theorem tokenize_of_scan_error (htext : text.toList = x :: xs) (hx : isDigit x = true)
    {e : LexError} (h : Numeral.scan (R := R) ⟨0, text.toList⟩ = .error e) :
    tokenize (R := R) text = .error e := by
  have hstep : Lexeme.step (R := R) Draft.empty ⟨0, x :: xs⟩ x = .error e := by
    rw [Lexeme.step_of_isDigit hx, Lexeme.number, ← htext, h]
  have hread : readLexemes (R := R) Draft.empty (Cursor.start text) = .error e := by
    rw [Cursor.start, htext, readLexemes]
    split
    · rename_i hx
      cases hx
    · rename_i y ys hy
      obtain ⟨rfl, rfl⟩ := List.cons.inj hy
      split <;> rename_i hs
      · rw [Except.error.inj (hs.symm.trans hstep)]
      · cases hs.symm.trans hstep
  rw [tokenize, hread]

end Tokens

/-- A natural number below `2 ^ 64` is converted to the same number as a decimal and as a word. -/
theorem SignedFloat.ofDecimal_eq_ofNat {n : Nat} (h : n < 2 ^ 64) :
    (Scalar.ofDecimal n 0 : SignedFloat) = Scalar.ofNat n := by
  have hdigits : Decimal.digitCount n ≤ 20 :=
    (Nat.length_toDigits_le_iff (by decide) (by decide)).2 (Nat.lt_trans h (by decide))
  refine congrArg SignedFloat.ofFloat ?_
  unfold Binary64.ofDecimal
  dsimp only
  by_cases hn : n = 0
  · rw [if_pos (.inl hn), hn]
    rfl
  · rw [if_neg (by omega), if_neg (by omega)]
    rfl

/-- All spellings of an integer agree. Below `2 ^ 64` its decimal digits, its hexadecimal and binary
digits behind a prefix and its octal digits behind a zero, with superfluous zeros and letters of
both cases, give one token, the number nearest to it. From `2 ^ 64` on the three notations with a
radix are refused, with an error that covers the whole text. -/
theorem tokenize_integer_spellings (n : Nat) :
    (n < 2 ^ 64 → ∀ text : String, Numeral.IsSpelling n text.toList →
      tokenize text = .ok [.number (Scalar.ofNat n : SignedFloat)]) ∧
    (2 ^ 64 ≤ n → ∀ text : String, Numeral.IsRadixSpelling n text.toList →
      tokenize (R := SignedFloat) text = .error (.malformedNumber text 0 text.utf8ByteSize)) := by
  constructor
  · intro hn text h
    obtain ⟨x, xs, htext, hx⟩ := h.exists_digit
    generalize hs : text.toList = s at h htext
    cases h with
    | decimal =>
      obtain ⟨o, hscan⟩ := Numeral.scan_toDigits (R := SignedFloat) n
      rw [SignedFloat.ofDecimal_eq_ofNat hn, ← hs] at hscan
      exact tokenize_of_scan (hs.trans htext) hx hscan
    | radix h =>
      have hscan := Numeral.scan_of_isRadixSpelling (R := SignedFloat) h
      rw [Numeral.wordOutcome, if_pos (show n < Numeral.wordBound from hn), ← hs] at hscan
      exact tokenize_of_scan (hs.trans htext) hx hscan
  · intro hn text h
    obtain ⟨x, xs, htext, hx⟩ := (Numeral.IsSpelling.radix h).exists_digit
    refine tokenize_of_scan_error htext hx ?_
    rw [Numeral.scan_of_isRadixSpelling h, Numeral.wordOutcome,
      if_neg (show ¬n < Numeral.wordBound from Nat.not_lt.2 hn), String.ofList_toList,
      Text.byteLength_toList]

/-- The number `255` in four notations, and `2 ^ 64` in hexadecimal digits. -/
theorem tokenize_integer_spellings_words :
    (∀ text ∈ ["255", "0xFf", "0B0011111111", "0377"],
      tokenize text = .ok [.number (Scalar.ofNat 255 : SignedFloat)]) ∧
    tokenize (R := SignedFloat) "0X10000000000000000" =
      .error (.malformedNumber "0X10000000000000000" 0 19) := by
  have hsame : ∀ ds : List Char, List.Forall₂ (fun c x => c = x ∨ c = x.toUpper) ds ds := fun _ =>
    List.forall₂_same.2 fun _ _ => .inl rfl
  have hdecimal : Numeral.IsSpelling 255 "255".toList := .decimal
  have hhexadecimal : Numeral.IsSpelling 255 "0xFf".toList :=
    .radix (.hexadecimal (.inl rfl) ⟨0, ['F', 'f'], rfl, .cons (.inr rfl) (.cons (.inl rfl) .nil)⟩)
  have hbinary : Numeral.IsSpelling 255 "0B0011111111".toList :=
    .radix (.binary (.inr rfl) ⟨2, List.replicate 8 '1', rfl, hsame _⟩)
  have hoctal : Numeral.IsSpelling 255 "0377".toList :=
    .radix (.octal ⟨0, ['3', '7', '7'], rfl, hsame _⟩)
  have hgreat : Numeral.IsRadixSpelling (2 ^ 64) "0X10000000000000000".toList :=
    .hexadecimal (.inr rfl) ⟨0, '1' :: List.replicate 16 '0', rfl, hsame _⟩
  have hsmall := (tokenize_integer_spellings 255).1 (by decide)
  refine ⟨?_, (tokenize_integer_spellings (2 ^ 64)).2 (Nat.le_refl _) _ hgreat⟩
  simp only [List.forall_mem_cons]
  exact ⟨hsmall _ hdecimal, hsmall _ hhexadecimal, hsmall _ hbinary, hsmall _ hoctal, nofun⟩

end SymbolicAlgebra
