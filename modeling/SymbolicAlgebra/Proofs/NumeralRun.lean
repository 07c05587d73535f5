import SymbolicAlgebra.Proofs.LexemeRun

set_option autoImplicit false

/-!
# Reading numerals

A number is the most delicate lexeme: a unit, an angle or the imaginary unit may follow
it, and then the tokens are others. This module says which texts may stand behind an
operand so that nothing of this happens (`EndsOperand`, and `endsPhrase` behind a whole
expression), and what a printed numeral is read as in front of such a text, alone
(`Reads.number`) and with a unit or the imaginary unit behind it (`Reads.quantity`,
`Reads.imaginary`). A printed numeral is plain: it has no exponent and no superfluous zeros in
front (`Numeral.IsPlain`), and is scanned accordingly (`Numeral.scan_plain`).
-/

namespace SymbolicAlgebra

open Text (Cursor isBlank isLetter isNumeral isNameStart isNameChar isDigit byteLength)

/-! ## Numerals -/

namespace Numeral

/-- The text of a numeral: the whole part and, where there is one, the fraction behind a
point. -/
def plain (whole fraction : List Char) : List Char :=
  whole ++ if fraction.isEmpty then [] else '.' :: fraction

/-- Both parts consist of digits, the whole part has one, and it starts with a zero only
where it is zero. -/
structure IsPlain (whole fraction : List Char) : Prop where
  whole_ne : whole ≠ []
  whole_digits : ∀ c ∈ whole, isDigit c = true
  fraction_digits : ∀ c ∈ fraction, isDigit c = true
  leading : whole.head? = some '0' → whole = ['0']

/-- Whether no numeral goes on in the text. -/
def ends (rest : List Char) : Bool :=
  rest.head?.all fun c => !isDigit c && !(['.', 'e', 'E', 'x', 'X', 'b', 'B'].contains c)

variable {whole fraction rest : List Char}

theorem not_digit_of_ends (h : ends rest = true) :
    rest.head?.all (fun c => !isDigit c) = true := by
  cases rest with
  | nil => rfl
  | cons c cs =>
    simp only [ends, List.head?_cons, Option.all_some, Bool.and_eq_true] at h ⊢
    exact h.1

/-- A character that goes on with a numeral is not the next one. -/
theorem ne_of_ends (h : ends rest = true) {x : Char}
    (hx : x ∈ ['.', 'e', 'E', 'x', 'X', 'b', 'B']) : rest.head? ≠ some x := by
  cases rest with
  | nil => exact nofun
  | cons c cs =>
    rintro h'
    obtain rfl := Option.some.inj h'
    simp only [ends, List.head?_cons, Option.all_some, Bool.and_eq_true,
      Bool.not_eq_true', List.contains_eq_mem, decide_eq_false_iff_not] at h
    exact h.2 hx

theorem nextIs_eq_false (h : ends rest = true) {x : Char}
    (hx : x ∈ ['.', 'e', 'E', 'x', 'X', 'b', 'B']) (o : Nat) :
    (⟨o, rest⟩ : Cursor).nextIs (· == x) = false := by
  have hne := ne_of_ends h hx
  cases rest with
  | nil => rfl
  | cons c cs =>
    simp only [Cursor.nextIs, List.head?_cons, Option.any_some, beq_eq_false_iff_ne]
    rintro rfl
    exact hne rfl

/-- No radix is announced where the whole part has no superfluous zero. -/
theorem radix?_plain (hp : IsPlain whole fraction) (hr : ends rest = true) (o : Nat) :
    radix? ⟨o, plain whole fraction ++ rest⟩ = none := by
  unfold radix?
  split
  · rename_i x tl h
    have hx : ['x', 'X', 'b', 'B'].contains x = false := by
      obtain ⟨z, ws, hw⟩ := List.exists_cons_of_ne_nil hp.whole_ne
      subst hw
      simp only [plain, List.cons_append, List.cons.injEq] at h
      obtain ⟨rfl, h⟩ := h
      obtain rfl : ws = [] := (List.cons.inj (hp.leading rfl)).2
      cases fraction with
      | nil =>
        simp only [List.isEmpty_nil, ↓reduceIte, List.nil_append] at h
        subst h
        have hne := fun y hy => ne_of_ends hr (x := y) hy
        simp only [List.head?_cons, ne_eq, Option.some.injEq] at hne
        simp only [List.contains_eq_mem, decide_eq_false_iff_not]
        intro hm
        exact hne x (List.mem_append_right ['.', 'e', 'E'] hm) rfl
      | cons f fs =>
        simp only [List.isEmpty_cons, Bool.false_eq_true, ↓reduceIte, List.nil_append,
          List.cons_append, List.cons.injEq] at h
        rw [← h.1]
        decide
    simp only [List.contains_eq_mem, decide_eq_false_iff_not, List.mem_cons,
      List.not_mem_nil, or_false, not_or] at hx
    simp [hx]
  · rfl

/-- The fraction of a numeral is read up to its end. -/
theorem fraction?_plain (hf : ∀ c ∈ fraction, isDigit c = true) (hr : ends rest = true)
    (start : Cursor) (o : Nat) :
    ∃ o', fraction? start
        ⟨o, (if fraction.isEmpty then [] else '.' :: fraction) ++ rest⟩ =
      .ok (if fraction.isEmpty then none else some fraction, ⟨o', rest⟩) := by
  have hdot : ∀ o, (⟨o, rest⟩ : Cursor).nextIs (· == '.') = false :=
    nextIs_eq_false hr (by simp)
  cases fraction with
  | nil =>
    refine ⟨o, ?_⟩
    unfold fraction?
    simp only [List.isEmpty_nil, ↓reduceIte, List.nil_append, hdot, Bool.false_eq_true]
  | cons f fs =>
    refine ⟨o + 1 + byteLength (f :: fs), ?_⟩
    have hs := span_append hf (not_digit_of_ends hr) (o + 1)
    have hd : (⟨o, '.' :: (f :: fs ++ rest)⟩ : Cursor).drop 1 = ⟨o + 1, f :: fs ++ rest⟩ :=
      rfl
    have hn : (⟨o, '.' :: (f :: fs ++ rest)⟩ : Cursor).nextIs (· == '.') = true := rfl
    unfold fraction?
    simp only [List.isEmpty_cons, Bool.false_eq_true, ↓reduceIte, List.cons_append] at hs hd hn ⊢
    simp only [hn, ↓reduceIte, hd, hs, List.isEmpty_cons, Bool.false_eq_true, hdot]

/-- No exponent starts where the numeral ends. -/
theorem exponent?_eq_none (hr : ends rest = true) (o : Nat) :
    exponent? ⟨o, rest⟩ = none := by
  unfold exponent?
  have h : (⟨o, rest⟩ : Cursor).nextIs (fun x => x == 'e' || x == 'E') = false := by
    have he := nextIs_eq_false hr (x := 'e') (by simp) o
    have hE := nextIs_eq_false hr (x := 'E') (by simp) o
    cases rest with
    | nil => rfl
    | cons c cs =>
      simp only [Cursor.nextIs, List.head?_cons, Option.any_some] at he hE ⊢
      rw [he, hE]
      rfl
  rw [h]
  rfl

variable {R : Type} [Scalar R]

/-- A numeral is scanned up to its end, with the value of its digits. -/
theorem scan_plain (hp : IsPlain whole fraction) (hr : ends rest = true) (o : Nat) :
    ∃ o', scan (R := R) ⟨o, plain whole fraction ++ rest⟩ =
      .ok (decimalScalar whole fraction 0, ⟨o', rest⟩) := by
  have hdigit : ((if fraction.isEmpty then [] else '.' :: fraction) ++ rest).head?.all
      (fun c => !isDigit c) = true := by
    cases fraction with
    | nil => exact not_digit_of_ends hr
    | cons f fs => rfl
  obtain ⟨o', hf⟩ := fraction?_plain hp.fraction_digits hr
    ⟨o, plain whole fraction ++ rest⟩ (o + byteLength whole)
  refine ⟨o', ?_⟩
  have hs : (⟨o, plain whole fraction ++ rest⟩ : Cursor).span isDigit =
      (whole, ⟨o + byteLength whole,
        (if fraction.isEmpty then [] else '.' :: fraction) ++ rest⟩) := by
    rw [plain, List.append_assoc]
    exact span_append hp.whole_digits hdigit o
  unfold scan
  rw [radix?_plain hp hr]
  simp only [hs, hf, exponent?_eq_none hr]
  cases fraction with
  | nil =>
    simp only [List.isEmpty_nil, ↓reduceIte]
    rw [if_neg]
    rintro ⟨hl, hz⟩
    rw [hp.leading hz] at hl
    exact absurd hl (by decide)
  | cons f fs => simp

end Numeral

/-! ## Units -/

namespace UnitSuffix

/-- Behind a space a unit starts at a degree sign or a letter. -/
theorem scan?_space {x : Char} (hb : isBlank x = false) (xs : List Char) (o : Nat) :
    scan? ⟨o, ' ' :: x :: xs⟩ =
      if x == degreeSign then temperature? ⟨o + 1, x :: xs⟩
      else if isLetter x then word? ⟨o + 1, x :: xs⟩ else none := by
  have hs : (⟨o, ' ' :: x :: xs⟩ : Cursor).skip isBlank = ⟨o + 1, x :: xs⟩ := by
    have hw : ∀ c ∈ [' '], isBlank c = true := List.forall_mem_singleton.2 rfl
    have hx : (x :: xs).head?.all (fun c => !isBlank c) = true := by simp [hb]
    have h := span_append hw hx o
    exact congrArg Prod.snd h
  unfold scan?
  rw [hs]
  rfl

/-- A word is looked up as a unit up to the first character that does not belong to it. -/
theorem word?_append {w rest : List Char} (hw : isWord w = true)
    (hr : Lexeme.endsWord rest = true) (o : Nat) :
    word? ⟨o, w ++ rest⟩ =
      if (Operator.ofWord? (String.ofList w)).isSome then none
      else
        match power? w ⟨o + byteLength w, rest⟩ with
        | some r => some r
        | none =>
          if rest.head?.any isCallBracket then none
          else (MeasureUnit.ofName? (String.ofList w)).map (·, ⟨o + byteLength w, rest⟩) := by
  rw [word?, span_append (Lexeme.isNameChar_of_isWord hw) hr]
  rfl

end UnitSuffix

/-- The word that the symbol of a unit starts with. -/
def MeasureUnit.stem (u : MeasureUnit) : List Char := u.symbol.toList.takeWhile isNameChar

/-- How the symbol of a unit is made: a word, a word with a power, or a degree sign with
a letter. -/
inductive UnitShape (u : MeasureUnit) : Prop where
  | word (hs : u.symbol.toList = u.stem) (hw : isWord u.stem = true)
      (hl : u.stem.head?.any isLetter = true)
      (ho : Operator.ofWord? (String.ofList u.stem) = none)
  | power (n : Char) (hs : u.symbol.toList = u.stem ++ ['^', n]) (hn : n = '2' ∨ n = '3')
      (hw : isWord u.stem = true) (hl : u.stem.head?.any isLetter = true)
      (ho : Operator.ofWord? (String.ofList u.stem) = none)
  | temperature (x : Char) (hs : u.symbol.toList = [UnitSuffix.degreeSign, x])
      (hx : UnitSuffix.isScale x = true)

theorem unitShape (u : MeasureUnit) : UnitShape u := by
  cases u <;> first
    | exact .temperature 'C' (by decide) rfl
    | exact .temperature 'F' (by decide) rfl
    | exact .word (by decide) (by decide) (by decide) (by decide +kernel)
    | exact .power '2' (by decide) (.inl rfl) (by decide) (by decide) (by decide +kernel)
    | exact .power '3' (by decide) (.inr rfl) (by decide) (by decide) (by decide +kernel)

/-- The symbol of a unit names the unit. -/
theorem MeasureUnit.ofName?_symbol (u : MeasureUnit) : ofName? u.symbol = some u := by
  cases u <;> decide +kernel

/-! ## Texts behind an operand -/

/-- A text that may stand behind an operand: it starts with no character that an operand
could go on with, and with nothing that a number takes for its own. -/
structure EndsOperand (rest : List Char) : Prop where
  word : Lexeme.endsWord rest = true
  next : ∀ c ∈ ['.', '(', '\x7b', '^'], rest.head? ≠ some c
  unit : ∀ o, UnitSuffix.scan? ⟨o, rest⟩ = none
  angle : ((⟨0, rest⟩ : Cursor).skip isBlank).nextIs (· == Lexeme.angleSign) = false
  degree : ((⟨0, rest⟩ : Cursor).skip isBlank).nextIs (· == UnitSuffix.degreeSign) = false

/-- Whether a whole expression ends in front of the text. -/
def endsPhrase (rest : List Char) : Bool :=
  rest.head?.all fun c => [')', '\x7d', ','].contains c

/-- A whole expression ends before the end of the text, a closing bracket and a comma. -/
theorem eq_of_endsPhrase {rest : List Char} (h : endsPhrase rest = true) :
    rest = [] ∨ ∃ c cs, c ∈ [')', '\x7d', ','] ∧ rest = c :: cs := by
  cases rest with
  | nil => exact .inl rfl
  | cons c cs => exact .inr ⟨c, cs, List.contains_iff_mem.1 h, rfl⟩

namespace EndsOperand

/-- A character that belongs to no name is no digit. -/
theorem isDigit_eq_false {c : Char} (h : isNameChar c = false) : isDigit c = false := by
  cases hd : isDigit c with
  | false => rfl
  | true =>
    have hn : isNumeral c = true := by
      have hlt : c.toNat < 128 := by
        simp only [isDigit, Char.isDigit, Bool.and_eq_true, decide_eq_true_eq,
          UInt32.le_iff_toNat_le] at hd
        exact Nat.lt_of_le_of_lt hd.2 (by decide)
      simp only [isNumeral, hlt, ↓reduceIte]
      exact hd
    simp [isNameChar, hn] at h

/-- No numeral goes on behind an operand. -/
theorem ends {rest : List Char} (h : EndsOperand rest) : Numeral.ends rest = true := by
  cases rest with
  | nil => rfl
  | cons c cs =>
    have hc : isNameChar c = false := by simpa [Lexeme.endsWord] using h.word
    have hdot : c ≠ '.' := by
      rintro rfl
      exact h.next '.' (by simp) rfl
    have hl : ∀ x ∈ ['e', 'E', 'x', 'X', 'b', 'B'], c ≠ x := by
      rintro x hx rfl
      revert hc
      simp only [List.mem_cons, List.not_mem_nil, or_false] at hx
      rcases hx with rfl | rfl | rfl | rfl | rfl | rfl <;> decide
    simp only [Numeral.ends, List.head?_cons, Option.all_some, isDigit_eq_false hc,
      Bool.not_false, Bool.true_and, List.contains_eq_mem, Bool.not_eq_true',
      decide_eq_false_iff_not, List.mem_cons, not_or]
    exact ⟨hdot, fun h => hl _ (by simp) h, fun h => hl _ (by simp) h,
      fun h => hl _ (by simp) h, fun h => hl _ (by simp) h, fun h => hl _ (by simp) h,
      fun h => hl _ (by simp) h, List.not_mem_nil⟩

theorem nil : EndsOperand [] := ⟨rfl, nofun, fun _ => rfl, rfl, rfl⟩

/-- An operand ends before a closing bracket, a comma, and an operator that is written
without a blank before it. -/
theorem of_head {c : Char} (hc : c ∈ [')', '\x7d', ',', '!', '/', '+', '-'])
    (rest : List Char) : EndsOperand (c :: rest) := by
  simp only [List.mem_cons, List.not_mem_nil, or_false] at hc
  rcases hc with rfl | rfl | rfl | rfl | rfl | rfl | rfl <;>
    refine ⟨rfl, ?_, fun _ => rfl, rfl, rfl⟩ <;> simp

/-- An operand ends where a whole expression does. -/
theorem of_endsPhrase {rest : List Char} (h : endsPhrase rest = true) : EndsOperand rest := by
  obtain rfl | ⟨c, cs, hc, rfl⟩ := eq_of_endsPhrase h
  · exact nil
  · exact of_head (List.mem_append_left ['!', '/', '+', '-'] hc) cs

/-- An operand ends before a symbol with a blank before it. -/
theorem of_symbol {op : Operator} (hs : op.symbol.toList.all Lexeme.isOperatorChar = true)
    (rest : List Char) : EndsOperand (' ' :: (op.symbol.toList ++ rest)) := by
  cases op <;> first
    | exact absurd hs (by decide)
    | refine ⟨rfl, ?_, fun _ => rfl, rfl, rfl⟩
      simp

/-- An operand ends before a word of an operator with blanks around it. -/
theorem of_word {op : Operator} (hs : op = .xor ∨ op = .nand ∨ op = .nor)
    (rest : List Char) : EndsOperand (' ' :: (op.symbol.toList ++ ' ' :: rest)) := by
  refine ⟨rfl, by simp, fun o => ?_, ?_, ?_⟩
  · have hw : isWord op.symbol.toList = true ∧
        (Operator.ofWord? (String.ofList op.symbol.toList)).isSome = true := by
      rcases hs with rfl | rfl | rfl <;> decide +kernel
    have hn : UnitSuffix.word? ⟨o + 1, op.symbol.toList ++ ' ' :: rest⟩ = none := by
      rw [UnitSuffix.word?_append hw.1 rfl, if_pos hw.2]
    rcases hs with rfl | rfl | rfl
    all_goals
      refine (UnitSuffix.scan?_space (by decide) _ o).trans ?_
      exact (if_neg (by decide)).trans ((if_pos (by decide)).trans hn)
  · rcases hs with rfl | rfl | rfl <;> rfl
  · rcases hs with rfl | rfl | rfl <;> rfl

end EndsOperand

namespace UnitSuffix

variable {rest : List Char}

/-- A digit or point does not follow an operand. -/
theorem nextIs_number_eq_false (hr : EndsOperand rest) (o : Nat) :
    (⟨o, rest⟩ : Cursor).nextIs (fun x => isDigit x || x == '.') = false := by
  cases rest with
  | nil => rfl
  | cons c cs =>
    have hc : isNameChar c = false := by simpa [Lexeme.endsWord] using hr.word
    have hdot : c ≠ '.' := by
      rintro rfl
      exact hr.next '.' (by simp) rfl
    simp [Cursor.nextIs, EndsOperand.isDigit_eq_false hc, hdot]

/-- No bracket of a call follows an operand. -/
theorem any_isCallBracket_eq_false (hr : EndsOperand rest) :
    rest.head?.any isCallBracket = false := by
  cases rest with
  | nil => rfl
  | cons c cs =>
    have h₁ : c ≠ '(' := by
      rintro rfl
      exact hr.next '(' (by simp) rfl
    have h₂ : c ≠ '\x7b' := by
      rintro rfl
      exact hr.next '\x7b' (by simp) rfl
    simp [isCallBracket, h₁, h₂]

/-- No power follows a unit that ends an operand. -/
theorem power?_eq_none (hr : EndsOperand rest) (w : List Char) (o : Nat) :
    power? w ⟨o, rest⟩ = none := by
  unfold power?
  split
  · rename_i n tl h
    dsimp only at h
    subst h
    exact absurd rfl (hr.next '^' (by simp))
  · rfl

/-- A degree sign and the letter of a scale are the unit with this symbol. -/
theorem temperature?_symbol {u : MeasureUnit} {x : Char}
    (hs : u.symbol.toList = [degreeSign, x]) (hx : isScale x = true) (hr : EndsOperand rest)
    (o : Nat) :
    temperature? ⟨o, degreeSign :: x :: rest⟩ =
      some (u, ⟨o + byteLength [degreeSign, x], rest⟩) := by
  have hname := u.ofName?_symbol
  rw [← String.ofList_toList (s := u.symbol), hs] at hname
  have hn : (⟨o + byteLength [degreeSign, x], rest⟩ : Cursor).nextIs isNameChar = false := by
    have := hr.word
    cases rest with
    | nil => rfl
    | cons c cs => simpa [Cursor.nextIs, Lexeme.endsWord] using this
  refine (if_pos ?_).trans (congrArg _ hname)
  exact Bool.and_eq_true_iff.2 ⟨hx, congrArg not hn⟩

/-- The symbol of a unit is read behind a space as that unit. -/
theorem scan?_symbol (u : MeasureUnit) (hr : EndsOperand rest) (o : Nat) :
    ∃ o', scan? ⟨o, ' ' :: (u.symbol.toList ++ rest)⟩ = some (u, ⟨o', rest⟩) := by
  have hname := u.ofName?_symbol
  rw [← String.ofList_toList (s := u.symbol)] at hname
  -- a word at the cursor is looked up as a unit
  have hscan : ∀ w tl : List Char, isWord w = true → w.head?.any isLetter = true →
      scan? ⟨o, ' ' :: (w ++ tl)⟩ = word? ⟨o + 1, w ++ tl⟩ := by
    intro w tl hw hl
    cases w with
    | nil => cases hw
    | cons x xs =>
      have hx : isLetter x = true := hl
      have hb : isBlank x = false := by
        simp only [isWord, Bool.and_eq_true, Bool.not_eq_true'] at hw
        exact hw.1.1.1
      have hd : (x == degreeSign) = false := by
        cases hxd : x == degreeSign with
        | false => rfl
        | true =>
          rw [eq_of_beq hxd] at hx
          exact absurd hx (by decide +kernel)
      refine (scan?_space hb _ o).trans ?_
      rw [if_neg (by simp [hd]), if_pos hx]
      rfl
  cases unitShape u with
  | word hs hw hl ho =>
    rw [hs] at hname ⊢
    refine ⟨o + 1 + byteLength u.stem, (hscan _ _ hw hl).trans ?_⟩
    rw [word?_append hw hr.word, power?_eq_none hr, any_isCallBracket_eq_false hr, ho, hname]
    rfl
  | power n hs hn hw hl ho =>
    rw [hs] at hname ⊢
    have hp : ∀ k, power? u.stem ⟨k, '^' :: n :: rest⟩ =
        some (u, (⟨k, '^' :: n :: rest⟩ : Cursor).drop 2) := by
      intro k
      have hd := nextIs_number_eq_false hr ((⟨k, '^' :: n :: rest⟩ : Cursor).drop 2).offset
      have hn' : (n == '2' || n == '3') = true := by
        rcases hn with rfl | rfl <;> rfl
      refine (if_pos ?_).trans (congrArg _ hname)
      rw [hn', Bool.true_and]
      exact congrArg not hd
    refine ⟨((⟨o + 1 + byteLength u.stem, '^' :: n :: rest⟩ : Cursor).drop 2).offset, ?_⟩
    rw [List.append_assoc, hscan _ _ hw hl, word?_append hw (by rfl), ho]
    simp only [Option.isSome_none, Bool.false_eq_true, ↓reduceIte, List.cons_append,
      List.nil_append, hp]
    rfl
  | temperature x hs hx =>
    rw [hs]
    have ht := temperature?_symbol hs hx hr (o + 1)
    exact ⟨_, (scan?_space (by decide) _ o).trans ((if_pos (by rfl)).trans ht)⟩

end UnitSuffix

variable {R : Type} [Scalar R]

/-! ## Numbers -/

/-- The scalar that a plain numeral is read as. -/
abbrev Numeral.value (whole fraction : List Char) : R :=
  Numeral.decimalScalar whole fraction 0

namespace Lexeme

variable {whole fraction rest : List Char}

/-- A digit starts a number. -/
theorem step_of_isDigit {x : Char} (hx : isDigit x = true) (d : Draft R) (c : Cursor) :
    step d c x = number d c := by
  have hb : isBlank x = false := by
    simp only [isDigit, Char.isDigit, Bool.and_eq_true, decide_eq_true_eq,
      UInt32.le_iff_toNat_le] at hx
    have h₁ : 48 ≤ x.toNat := hx.1
    have h₂ : x.toNat ≤ 57 := hx.2
    cases hb : isBlank x with
    | false => rfl
    | true =>
      simp only [isBlank, Text.inRanges_iff, Text.blankRanges, List.mem_cons,
        List.not_mem_nil, or_false, exists_eq_or_imp, exists_eq_left] at hb
      omega
  simp [step, hb, Numeral.isStart, hx]

/-- A numeral starts with a digit, which starts a number. -/
theorem step_plain (hp : Numeral.IsPlain whole fraction) (d : Draft R) (c : Cursor) :
    ∃ x xs, Numeral.plain whole fraction = x :: xs ∧ step d c x = number d c := by
  obtain ⟨x, xs, hw⟩ := List.exists_cons_of_ne_nil hp.whole_ne
  have hx : isDigit x = true := hp.whole_digits x (by rw [hw]; exact List.mem_cons_self ..)
  exact ⟨x, _, by rw [Numeral.plain, hw, List.cons_append], step_of_isDigit hx d c⟩

/-- Behind an operand no suffix of a number follows. -/
theorem numberSuffix_eq (hr : EndsOperand rest) (d : Draft R) (start : Cursor) (v : R)
    (o : Nat) :
    numberSuffix d start v ⟨o, rest⟩ = .ok (d.push (.number v) start.offset, ⟨o, rest⟩) := by
  have ha : ((⟨o, rest⟩ : Cursor).skip isBlank).nextIs (· == angleSign) = false := hr.angle
  have hd : ((⟨o, rest⟩ : Cursor).skip isBlank).nextIs (· == UnitSuffix.degreeSign) = false :=
    hr.degree
  simp only [numberSuffix, hr.unit, ha, hd, Bool.false_eq_true, ↓reduceIte]

/-- Behind an operand no imaginary unit follows. -/
theorem imaginaryUnitAt_eq_false (hr : EndsOperand rest) (o : Nat) :
    imaginaryUnitAt ⟨o, rest⟩ = false := by
  have hw := hr.word
  cases rest with
  | nil => rfl
  | cons c cs =>
    have hc : c ≠ 'i' := by
      rintro rfl
      exact absurd hw Bool.false_ne_true
    simp [imaginaryUnitAt, Cursor.nextIs, hc]

end Lexeme

/-- No symbol goes on in front of a numeral. -/
theorem endsSymbol_plain {whole fraction : List Char} (hp : Numeral.IsPlain whole fraction)
    (rest : List Char) : Lexeme.endsSymbol (Numeral.plain whole fraction ++ rest) = true := by
  obtain ⟨x, xs, hw⟩ := List.exists_cons_of_ne_nil hp.whole_ne
  have hx : isDigit x = true := hp.whole_digits x (by rw [hw]; exact List.mem_cons_self ..)
  rw [Numeral.plain, hw]
  simp only [Lexeme.endsSymbol, List.cons_append, List.head?_cons, Option.all_some,
    Bool.not_eq_true']
  cases ho : Lexeme.isOperatorChar x with
  | false => rfl
  | true =>
    have hall : ("+-*/^%<>=!&|~:".toList.all fun y => !isDigit y) = true := by
      decide +kernel
    have hno := List.all_eq_true.1 hall x (by simpa [Lexeme.isOperatorChar] using ho)
    simp [hx] at hno

namespace Reads

variable {whole fraction rest : List Char}

/-- A numeral is read as a number where an operand ends behind it. -/
theorem number (v : View R) (hp : Numeral.IsPlain whole fraction) (hr : EndsOperand rest) :
    Reads v (Numeral.plain whole fraction) rest
      (v.push (.number (Numeral.value whole fraction))) := by
  obtain ⟨x, xs, hx, -⟩ := Lexeme.step_plain hp (Draft.empty : Draft R) ⟨0, []⟩
  have hcons : Numeral.plain whole fraction ++ rest = x :: (xs ++ rest) := by
    rw [hx, List.cons_append]
  refine .of_step hcons fun d o hd => ?_
  obtain ⟨o', hs⟩ := Numeral.scan_plain (R := R) hp hr.ends o
  refine ⟨d.push (.number (Numeral.value whole fraction)) o, o', ?_, by
    rw [Draft.view_push, hd]⟩
  obtain ⟨y, ys, hy, hstep⟩ := Lexeme.step_plain hp d ⟨o, x :: (xs ++ rest)⟩
  obtain ⟨rfl, rfl⟩ := List.cons.inj (hx.symm.trans hy)
  rw [hstep, Lexeme.number, ← List.cons_append, ← hx, hs]
  simp only [Lexeme.imaginaryUnitAt_eq_false hr, Bool.false_eq_true, ↓reduceIte,
    Lexeme.numberSuffix_eq hr]

/-- A numeral, a space and the symbol of a unit are read as a number with its unit. -/
theorem quantity (v : View R) (u : MeasureUnit) (hp : Numeral.IsPlain whole fraction)
    (hr : EndsOperand rest) :
    Reads v (Numeral.plain whole fraction ++ ' ' :: u.symbol.toList) rest
      ((v.push (.number (Numeral.value whole fraction))).push (.unit u)) := by
  obtain ⟨x, xs, hx, -⟩ := Lexeme.step_plain hp (Draft.empty : Draft R) ⟨0, []⟩
  have hcons : Numeral.plain whole fraction ++ ' ' :: u.symbol.toList ++ rest =
      x :: (xs ++ ' ' :: (u.symbol.toList ++ rest)) := by
    rw [hx]
    simp
  refine .of_step hcons fun d o hd => ?_
  have he : Numeral.ends (' ' :: (u.symbol.toList ++ rest)) = true := rfl
  obtain ⟨o₁, hs⟩ := Numeral.scan_plain (R := R) hp he o
  obtain ⟨o₂, hu⟩ := UnitSuffix.scan?_symbol u hr o₁
  refine ⟨(d.push (.number (Numeral.value whole fraction)) o).push (.unit u) o₂, o₂, ?_, by
    rw [Draft.view_push, Draft.view_push, hd]⟩
  obtain ⟨y, ys, hy, hstep⟩ :=
    Lexeme.step_plain hp d ⟨o, x :: (xs ++ ' ' :: (u.symbol.toList ++ rest))⟩
  obtain ⟨rfl, rfl⟩ := List.cons.inj (hx.symm.trans hy)
  have hi : Lexeme.imaginaryUnitAt ⟨o₁, ' ' :: (u.symbol.toList ++ rest)⟩ = false := rfl
  rw [hstep, Lexeme.number, ← List.cons_append, ← hx, hs]
  simp only [hi, Bool.false_eq_true, ↓reduceIte, Lexeme.numberSuffix, hu]

/-- A numeral and the imaginary unit are merged with the real literal and the sign before
them, where an expression starts with that literal. -/
theorem imaginary {v v' : View R} (hp : Numeral.IsPlain whole fraction)
    (hr : endsPhrase rest = true)
    (h : ∀ (d : Draft R) (o : Nat), d.view = v →
      (d.pushImaginary (Numeral.value whole fraction) o true).view = v') :
    Reads v (Numeral.plain whole fraction ++ ['i']) rest v' := by
  obtain ⟨x, xs, hx, -⟩ := Lexeme.step_plain hp (Draft.empty : Draft R) ⟨0, []⟩
  have hcons : Numeral.plain whole fraction ++ ['i'] ++ rest = x :: (xs ++ 'i' :: rest) := by
    rw [hx]
    simp
  refine .of_step hcons fun d o hd => ?_
  have he : Numeral.ends ('i' :: rest) = true := rfl
  obtain ⟨o₁, hs⟩ := Numeral.scan_plain (R := R) hp he o
  refine ⟨d.pushImaginary (Numeral.value whole fraction) o true, o₁ + 1, ?_, h d o hd⟩
  obtain ⟨y, ys, hy, hstep⟩ := Lexeme.step_plain hp d ⟨o, x :: (xs ++ 'i' :: rest)⟩
  obtain ⟨rfl, rfl⟩ := List.cons.inj (hx.symm.trans hy)
  have hd₁ : (⟨o₁, 'i' :: rest⟩ : Cursor).drop 1 = ⟨o₁ + 1, rest⟩ := rfl
  -- the imaginary unit stands alone, and the operand of the sum ends behind it
  have hi : Lexeme.imaginaryUnitAt ⟨o₁, 'i' :: rest⟩ = true ∧
      Lexeme.summandEnds ⟨o₁ + 1, rest⟩ = true := by
    obtain rfl | ⟨c, cs, hc, rfl⟩ := eq_of_endsPhrase hr
    · exact ⟨rfl, rfl⟩
    · simp only [List.mem_cons, List.not_mem_nil, or_false] at hc
      rcases hc with rfl | rfl | rfl <;> exact ⟨rfl, rfl⟩
  rw [hstep, Lexeme.number, ← List.cons_append, ← hx, hs]
  simp only [hi.1, ↓reduceIte, hd₁, hi.2]

end Reads

end SymbolicAlgebra
