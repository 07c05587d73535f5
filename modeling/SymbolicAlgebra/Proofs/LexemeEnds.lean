import SymbolicAlgebra.Proofs.LexemeSteps
import SymbolicAlgebra.Proofs.TextSlice

set_option autoImplicit false

/-!
# Where lexemes end

A word may follow a numeral or a unit without a blank, as in `2not` and `3 m^2not`. But no lexeme
ends within a word (`Lexeme.clears_step`): where an ASCII letter is next, the last character taken
is neither a letter nor an underscore. A numeral in radix sixteen may end between letters, but not
before one of ASCII. The moves of a cursor that cut no word are put together with
`Text.Cursor.Clears`.
-/

namespace SymbolicAlgebra

open Text (Cursor byteLength isBlank isDigit isLetter isNameStart isNameChar)

namespace Text

/-! ## Characters that start no name -/

/-- Below the first ASCII letter no character starts a name. -/
theorem isNameStart_of_lt {x : Char} (h : x.toNat < 65) : isNameStart x = false := by
  have hne : x ≠ '_' := by
    rintro rfl
    exact absurd h (by decide)
  have halpha : x.isAlpha = false := by
    rw [← Bool.not_eq_true]
    intro hx
    delta Char.isAlpha Char.isUpper Char.isLower at hx
    simp only [Bool.or_eq_true, Bool.and_eq_true, decide_eq_true_eq, ge_iff_le,
      UInt32.le_iff_toNat_le] at hx
    rcases hx with ⟨hx, -⟩ | ⟨hx, -⟩
    · exact absurd (Nat.lt_of_le_of_lt hx h) (by decide)
    · exact absurd (Nat.lt_of_le_of_lt hx h) (by decide)
  rw [isNameStart, isLetter, if_pos (by omega), halpha, Bool.false_or, beq_eq_false_iff_ne]
  exact hne

/-- A digit starts no name. -/
theorem isNameStart_of_isDigit {x : Char} (h : isDigit x = true) : isNameStart x = false := by
  refine isNameStart_of_lt ?_
  delta isDigit Char.isDigit at h
  simp only [Bool.and_eq_true, decide_eq_true_eq, UInt32.le_iff_toNat_le] at h
  exact Nat.lt_of_le_of_lt h.2 (by decide)

/-- A blank starts no name. -/
theorem isNameStart_of_isBlank {x : Char} (h : isBlank x = true) : isNameStart x = false := by
  -- No range of blanks meets one of the letters.
  have hranges : ∀ r ∈ blankRanges, r.2 < 65 ∨
      128 ≤ r.1 ∧ ∀ r' ∈ letterRanges, r.2 < r'.1 ∨ r'.2 < r.1 := by decide +kernel
  obtain ⟨r, hr, hlo, hhi⟩ := inRanges_iff.1 h
  rcases hranges r hr with hsmall | ⟨hgreat, hletters⟩
  · exact isNameStart_of_lt (by omega)
  · have hne : x ≠ '_' := by
      rintro rfl
      exact absurd (Nat.le_trans hgreat hlo) (by decide)
    have hletter : inRanges letterRanges x.toNat = false := by
      rw [← Bool.not_eq_true, inRanges_iff]
      rintro ⟨r', hr', hlo', hhi'⟩
      have := hletters r' hr'
      omega
    rw [isNameStart, isLetter, if_neg (by omega), hletter, Bool.false_or, beq_eq_false_iff_ne]
    exact hne

/-- An ASCII letter may stand in a name. -/
theorem isNameChar_of_isAlpha {x : Char} (h : x.isAlpha = true) : isNameChar x = true := by
  simp [isNameChar, isLetter_of_isAlpha h]

namespace Cursor

variable {a b c c' : Cursor} {p : Char → Bool}

/-! ## Reaching without cutting a word -/

/-- The second cursor is reached from the first one, and if an ASCII letter is next there, the
last character passed starts no name. -/
def Clears (c c' : Cursor) : Prop :=
  ∃ w, c.rest = w ++ c'.rest ∧ c'.offset = c.offset + byteLength w ∧
    (c'.nextIs Char.isAlpha = true → w.getLast?.any isNameStart = false)

theorem Clears.reaches (h : c.Clears c') : c.Reaches c' := by
  obtain ⟨w, hw, ho, -⟩ := h
  exact ⟨w, hw, ho⟩

theorem Clears.refl (c : Cursor) : c.Clears c := ⟨[], rfl, rfl, fun _ => rfl⟩

/-- Behind a cursor the characters that were passed last decide. -/
theorem Reaches.trans_clears (h : a.Reaches b) (h' : b.Clears c) (hp : b.Passes c) :
    a.Clears c := by
  obtain ⟨v, hv, hov⟩ := h
  obtain ⟨w, hw, how, hlast⟩ := h'
  have hne : w ≠ [] := by
    rintro rfl
    exact absurd hp.2 (by rw [hw]; exact Nat.lt_irrefl _)
  refine ⟨v ++ w, ?_, ?_, ?_⟩
  · rw [hv, hw, List.append_assoc]
  · rw [how, hov, byteLength_append, Nat.add_assoc]
  · intro hnext
    rw [List.getLast?_append, List.getLast?_eq_some_getLast hne, Option.some_or,
      ← List.getLast?_eq_some_getLast hne]
    exact hlast hnext

theorem Clears.trans (h : a.Clears b) (h' : b.Clears c) : a.Clears c := by
  by_cases hp : c.rest.length < b.rest.length
  · exact h.reaches.trans_clears h' ⟨h'.reaches, hp⟩
  -- No character was passed between the last two cursors.
  obtain ⟨w, hw, how, -⟩ := h'
  obtain rfl : w = [] := by
    rw [hw, List.length_append] at hp
    exact List.length_eq_zero_iff.1 (by omega)
  have hbc : c = b := by
    cases b
    cases c
    exact congr (congrArg mk how) hw.symm
  rwa [hbc]

/-- No word is cut where no character is next of those among which are the ASCII letters. -/
theorem Reaches.clears (h : c.Reaches c') (hn : c'.nextIs p = false)
    (hp : ∀ x, x.isAlpha = true → p x = true) : c.Clears c' := by
  obtain ⟨w, hw, ho⟩ := h
  refine ⟨w, hw, ho, fun hnext => ?_⟩
  obtain ⟨x, xs, hx, halpha⟩ := exists_cons_of_nextIs hnext
  rw [nextIs_of_rest hx, hp x halpha] at hn
  cases hn

/-- Characters that start no name can be passed. -/
theorem clears_of_forall {w : List Char} (h : c.rest = w ++ c'.rest)
    (ho : c'.offset = c.offset + byteLength w) (hw : ∀ x ∈ w, isNameStart x = false) :
    c.Clears c' := by
  refine ⟨w, h, ho, fun _ => ?_⟩
  cases hlast : w.getLast? with
  | none => rfl
  | some x => exact hw x (List.mem_of_getLast? hlast)

theorem clears_drop_one {x : Char} {xs : List Char} (hx : c.rest = x :: xs)
    (h : isNameStart x = false) : c.Clears (c.drop 1) := by
  refine clears_of_forall (w := [x]) ?_ ?_ (List.forall_mem_singleton.2 h)
  · simp [drop, hx]
  · simp [drop, hx]

theorem clears_span (c : Cursor) (h : ∀ x, p x = true → isNameStart x = false) :
    c.Clears (c.span p).2 :=
  clears_of_forall (c.rest_eq_span p) rfl fun x hx => h x (of_mem_span hx)

theorem clears_skip_blanks (c : Cursor) : c.Clears (c.skip isBlank) :=
  c.clears_span fun _ => isNameStart_of_isBlank

/-- No word is cut where no character of a name is next. -/
theorem Reaches.clears_of_isNameChar (h : c.Reaches c') (hn : c'.nextIs isNameChar = false) :
    c.Clears c' :=
  h.clears hn fun _ => isNameChar_of_isAlpha

end Cursor

end Text

variable {R : Type} [Scalar R]

/-! ## Numerals -/

namespace Numeral

variable {start c c' : Cursor}

theorem clears_fraction {f : Option (List Char)} (h : fraction? start c = .ok (f, c')) :
    c.Clears c' := by
  unfold fraction? at h
  split at h
  · rename_i hdot
    obtain ⟨xs, hx⟩ := Cursor.exists_rest_of_nextIs hdot
    dsimp only at h
    split at h
    · cases h
    split at h
    · cases h
    obtain ⟨-, rfl⟩ := Prod.mk.inj (Except.ok.inj h)
    exact (Cursor.clears_drop_one hx (by decide)).trans
      (Cursor.clears_span _ fun _ => Text.isNameStart_of_isDigit)
  · obtain ⟨-, rfl⟩ := Prod.mk.inj (Except.ok.inj h)
    exact Cursor.Clears.refl c

/-- An exponent starts with a letter, but ends with a digit. -/
theorem clears_exponent {e : Int} (h : exponent? c = some (e, c')) : c.Clears c' := by
  unfold exponent? at h
  split at h
  · dsimp only at h
    split at h
    · rename_i hdigit
      obtain ⟨-, rfl⟩ := Prod.mk.inj (Option.some.inj h)
      exact ((Cursor.reaches_drop c 1).trans (reaches_sign _)).trans_clears
        (Cursor.clears_span _ fun _ => Text.isNameStart_of_isDigit) (Cursor.passes_span hdigit)
    · cases h
  · cases h

/-- A numeral cuts no word. -/
theorem clears_scan {v : R} (h : scan start = .ok (v, c)) : start.Clears c := by
  unfold scan at h
  split at h
  · dsimp only at h
    rw [eq_of_radixScalar h]
    -- The word of digits holds every ASCII letter that follows.
    refine ((start.reaches_drop 2).trans (Cursor.reaches_span _ _)).clears
      (Cursor.nextIs_span _ _) fun x hx => ?_
    simp [isWordChar, Char.isAlphanum, hx]
  have hwhole : start.Clears (start.span isDigit).2 :=
    start.clears_span fun _ => Text.isNameStart_of_isDigit
  dsimp only at h
  split at h
  · cases h
  rename_i f c₁ hf
  have hfraction := hwhole.trans (clears_fraction hf)
  split at h
  · split at h
    · rw [eq_of_radixScalar h]
      exact hfraction
    · obtain ⟨-, rfl⟩ := Prod.mk.inj (Except.ok.inj h)
      exact hfraction
  · rename_i he
    obtain ⟨-, rfl⟩ := Prod.mk.inj (Except.ok.inj h)
    exact hfraction.trans (clears_exponent he)
  · obtain ⟨-, rfl⟩ := Prod.mk.inj (Except.ok.inj h)
    exact hfraction

end Numeral

/-! ## Units -/

namespace UnitSuffix

variable {c c' : Cursor} {u : MeasureUnit}

theorem clears_temperature? (h : temperature? c = some (u, c')) : c.Clears c' := by
  unfold temperature? at h
  split at h
  · split at h
    · rename_i hscale
      obtain ⟨_, -, heq⟩ := Option.map_eq_some_iff.1 h
      obtain ⟨-, rfl⟩ := Prod.mk.inj heq
      refine (c.reaches_drop 2).clears_of_isNameChar ?_
      simpa using (Bool.and_eq_true_iff.1 hscale).2
    · cases h
  · cases h

theorem clears_power? {w : List Char} (h : power? w c = some (u, c')) : c.Clears c' := by
  unfold power? at h
  split at h
  · rename_i n r hr
    split at h
    · rename_i hn
      obtain ⟨_, -, heq⟩ := Option.map_eq_some_iff.1 h
      obtain ⟨-, rfl⟩ := Prod.mk.inj heq
      have hpower : isNameStart n = false := by
        have hdigit := (Bool.and_eq_true_iff.1 hn).1
        rw [Bool.or_eq_true, beq_iff_eq, beq_iff_eq] at hdigit
        rcases hdigit with rfl | rfl <;> exact Text.isNameStart_of_isDigit rfl
      have hnext : (c.drop 1).rest = n :: r := by simp [Cursor.drop, hr]
      rw [← c.drop_drop 1 1]
      exact (Cursor.clears_drop_one hr (by decide +kernel)).trans
        (Cursor.clears_drop_one hnext hpower)
    · cases h
  · cases h

/-- The word of a unit is a whole word. -/
theorem clears_word? (h : word? c = some (u, c')) : c.Clears c' := by
  unfold word? at h
  have hword : c.Clears (c.span isNameChar).2 :=
    (c.reaches_span _).clears_of_isNameChar (c.nextIs_span _)
  dsimp only at h
  split at h
  · cases h
  split at h
  · rename_i hr
    obtain rfl := Option.some.inj h
    exact hword.trans (clears_power? hr)
  split at h
  · cases h
  · obtain ⟨_, -, heq⟩ := Option.map_eq_some_iff.1 h
    obtain ⟨-, rfl⟩ := Prod.mk.inj heq
    exact hword

/-- A unit cuts no word. -/
theorem clears_scan? (h : scan? c = some (u, c')) : c.Clears c' := by
  unfold scan? at h
  refine c.clears_skip_blanks.trans ?_
  dsimp only at h
  split at h
  · exact clears_temperature? h
  split at h
  · exact clears_word? h
  · cases h

end UnitSuffix

/-! ## Lexemes -/

namespace Lexeme

variable {d d' : Draft R} {start sign c c' : Cursor} {v : R}

/-- A degree sign can be passed behind blanks. -/
theorem clears_degreeSign (h : (c.skip isBlank).nextIs (· == UnitSuffix.degreeSign) = true) :
    c.Clears ((c.skip isBlank).drop 1) := by
  obtain ⟨ys, hy⟩ := Cursor.exists_rest_of_nextIs h
  exact c.clears_skip_blanks.trans (Cursor.clears_drop_one hy (by decide +kernel))

theorem isNameStart_char (b : Delimiter) : isNameStart b.char = false := by
  cases b <;> decide +kernel

theorem isNameStart_of_isOperatorChar {x : Char} (h : isOperatorChar x = true) :
    isNameStart x = false := by
  have hchars : ("+-*/^%<>=!&|~:".toList.all fun y => !isNameStart y) = true := by decide +kernel
  simpa using List.all_eq_true.1 hchars x (List.contains_iff_mem.1 h)

theorem clears_skipDegree (c : Cursor) : c.Clears (skipDegree c) := by
  unfold skipDegree
  dsimp only
  split
  · rename_i h
    exact clears_degreeSign (Bool.and_eq_true_iff.1 h).1
  · exact Cursor.Clears.refl c

/-- A numeral with what follows it cuts no word. -/
theorem IsNumber.clears (h : IsNumber d start d' c) : start.Clears c := by
  cases h with
  | plain hv => exact Numeral.clears_scan hv
  | imaginary hv hi =>
    refine (Numeral.clears_scan hv).trans ((Cursor.reaches_drop _ 1).clears_of_isNameChar ?_)
    simpa using (Bool.and_eq_true_iff.1 hi).2
  | quantity hv hu => exact (Numeral.clears_scan hv).trans (UnitSuffix.clears_scan? hu)
  | degrees hv hsign hm => exact (Numeral.clears_scan hv).trans (clears_degreeSign hsign)
  | polar hv hsign hdigits hnext ha =>
    rename_i v a c c' digits negative
    -- The numeral of the angle takes a character, whatever stands before it.
    have hreach : start.Reaches digits := by
      have hskip := ((c.reaches_skip isBlank).trans (Cursor.reaches_drop _ 1)).trans
        ((Cursor.reaches_skip _ isBlank).trans (Numeral.reaches_sign _))
      rw [hdigits] at hskip
      exact (Numeral.clears_scan hv).reaches.trans hskip
    exact hreach.trans_clears ((Numeral.clears_scan ha).trans (clears_skipDegree c'))
      ((Numeral.passes_scan hnext ha).trans_reaches (reaches_skipDegree c'))

omit [Scalar R] in
theorem clears_operator? {op : Operator} (h : operator? start = some (op, c)) :
    start.Clears c := by
  obtain ⟨n, -, hn⟩ := List.exists_of_findSome?_eq_some h
  unfold operatorOfLength? at hn
  dsimp only at hn
  split at hn
  · rename_i hw
    obtain ⟨_, -, heq⟩ := Option.map_eq_some_iff.1 hn
    obtain ⟨-, rfl⟩ := Prod.mk.inj heq
    refine Cursor.clears_of_forall (w := start.rest.take n) ?_ rfl fun x hx => ?_
    · exact (List.take_append_drop n start.rest).symm
    · exact isNameStart_of_isOperatorChar (List.all_eq_true.1 hw.2 x hx)
  · cases hn

/-- A lexeme cuts no word. -/
theorem clears_step {x : Char} {xs : List Char} (hx : start.rest = x :: xs)
    (h : step d start x = .ok (d', c)) : start.Clears c := by
  -- A bracket or comma is one character, which starts no name.
  have hdelimiter : ∀ b, Delimiter.ofChar? x = some b → start.Clears (start.drop 1) := by
    intro b hb
    obtain rfl : b.char = x := by simpa using List.find?_some hb
    exact Cursor.clears_drop_one hx (isNameStart_char b)
  cases isLexeme_of_step h with
  | blank hb => exact Cursor.clears_drop_one hx (Text.isNameStart_of_isBlank hb)
  | number hn => exact hn.clears
  | word hb hn hs => exact (start.reaches_span _).clears_of_isNameChar (start.nextIs_span _)
  | opening hb ho => exact hdelimiter _ hb
  | closing hb hd => exact hdelimiter _ hb
  | comma hb => exact hdelimiter _ hb
  | temperature hu => exact UnitSuffix.clears_scan? hu
  | symbol hop => exact clears_operator? hop

end Lexeme

end SymbolicAlgebra
