import SymbolicAlgebra.Proofs.ByteScanner

set_option autoImplicit false

/-!
# What the scanner by offsets reads from the text

Every offset that is computed by hand is the offset of a cursor in the text, and so are the two
ends of every slice; what is read from a slice is therefore what is read at the cursors
(`ByteScanner.slice_of_reaches`). For numerals this needs that the text of a decimal numeral is
read once more from its slice (`ByteScanner.decimal?_eq_some`). Numerals, units and operators are
then those of the cursor: `ByteScanner.parseNumber_eq`, `ByteScanner.scanUnit_eq` and
`ByteScanner.firstOperator_eq`.
-/

namespace SymbolicAlgebra

open Text (Cursor byteLength isBlank isDigit isLetter isNameStart isNameChar)

namespace ByteScanner

/-! ## Slices between cursors -/

/-- A refusal of the text stops the scanner. -/
def lift {α : Type} (x : Except LexError α) : Checked α := x.mapError .refused

@[simp] theorem lift_ok {α : Type} (a : α) : lift (.ok a) = .ok a := rfl

@[simp] theorem lift_error {α : Type} (e : LexError) :
    (lift (.error e) : Checked α) = .error (.refused e) := rfl

section Slices

variable {text : String} {c c' : Cursor}

theorem slice_of_reaches (h : (Cursor.start text).Reaches c) (h' : c.Reaches c') :
    slice text c.offset c'.offset = .ok (c.upTo c') := by
  rw [slice, Text.slice?_of_reaches h h']

theorem malformed_of_reaches {α : Type} (h : (Cursor.start text).Reaches c)
    (h' : c.Reaches c') : (malformed text c.offset c'.offset : Checked α) =
      .error (.refused (Numeral.malformed c c')) := by
  rw [malformed, slice_of_reaches h h']
  rfl

theorem offset_of_reaches (h : (Cursor.start text).Reaches c) : offset text c = c.offset := by
  unfold offset
  split
  · rename_i hc
    obtain ⟨w, hw, ho⟩ := h
    rw [List.isEmpty_iff.1 hc, List.append_nil] at hw
    rw [ho, ← hw, ← Text.byteLength_toList]
    exact (Nat.zero_add _).symm
  · rfl

end Slices

/-! ## Decimal numerals -/

/-- The text of a fraction, if there is one. -/
def fractionText : Option (List Char) → List Char
  | none => []
  | some w => '.' :: w

variable {R : Type} [Scalar R] {text : String} {c c' start : Cursor}

theorem takeWhile_append_of_stop {p : Char → Bool} {u v : List Char}
    (hu : ∀ x ∈ u, p x = true) (hv : v.head?.any p = false) :
    (u ++ v).takeWhile p = u ∧ (u ++ v).dropWhile p = v := by
  rw [List.takeWhile_append_of_pos hu, List.dropWhile_append_of_pos hu]
  cases v with
  | nil => exact ⟨List.append_nil u, rfl⟩
  | cons x v =>
    have hx : ¬ p x = true := by simpa using hv
    rw [List.takeWhile_cons_of_neg hx, List.dropWhile_cons_of_neg hx, List.append_nil]
    exact ⟨rfl, rfl⟩

/-- A decimal numeral is read from its own text: its digits, its fraction and its exponent. -/
theorem decimal?_eq_some {whole w : List Char} {f : Option (List Char)} {e : Int}
    (hwhole : ∀ x ∈ whole, isDigit x = true) (hf : ∀ x ∈ f.getD [], isDigit x = true)
    (hne : whole ≠ [] ∨ f.getD [] ≠ [])
    (hw : w.head?.any (fun x => isDigit x || x == '.') = false) (he : exponentOf? w = some e) :
    (decimal? (String.ofList (whole ++ (fractionText f ++ w))) : Option R) =
      some (Numeral.decimalScalar whole (f.getD []) e) := by
  have hdigit : w.head?.any isDigit = false := by
    cases w with
    | nil => rfl
    | cons x w => simp_all
  unfold decimal?
  rw [String.toList_ofList]
  cases f with
  | none =>
    obtain ⟨htake, hdrop⟩ := takeWhile_append_of_stop hwhole hdigit
    dsimp only [fractionText, List.nil_append]
    rw [htake, hdrop]
    split
    · rename_i v
      cases hw
    · have hempty : whole.isEmpty = false := by simpa using hne
      rw [hempty, if_neg (by decide), he]
      rfl
  | some f =>
    rw [Option.getD_some] at hf hne ⊢
    have hdot : ('.' :: f ++ w).head?.any isDigit = false := rfl
    obtain ⟨htake, hdrop⟩ := takeWhile_append_of_stop hwhole hdot
    obtain ⟨htake', hdrop'⟩ := takeWhile_append_of_stop hf hdigit
    rw [fractionText, htake, hdrop]
    change (if (whole.isEmpty && ((f ++ w).takeWhile isDigit).isEmpty) = true then none
      else (exponentOf? ((f ++ w).dropWhile isDigit)).map
        (Numeral.decimalScalar whole ((f ++ w).takeWhile isDigit))) = _
    have hempty : (whole.isEmpty && f.isEmpty) = false := by
      rcases hne with h | h <;> simp [h]
    rw [htake', hdrop', he, hempty]
    rfl

/-- The fraction behind the digits of a numeral. -/
theorem fraction?_eq_ok {f : Option (List Char)} (h : Numeral.fraction? start c = .ok (f, c')) :
    c.rest = fractionText f ++ c'.rest ∧ (∀ x ∈ f.getD [], isDigit x = true) ∧
      (f = none → c' = c ∧ c.nextIs (· == '.') = false) ∧
      (f ≠ none → f.getD [] ≠ [] ∧ c'.nextIs (fun x => isDigit x || x == '.') = false) := by
  unfold Numeral.fraction? at h
  split at h
  · rename_i hdot
    obtain ⟨xs, hx⟩ := Cursor.exists_rest_of_nextIs hdot
    dsimp only at h
    split at h
    · cases h
    rename_i hne
    split at h
    · cases h
    rename_i hnext
    obtain ⟨rfl, rfl⟩ := Prod.mk.inj (Except.ok.inj h)
    have hspan := (c.drop 1).rest_eq_span isDigit
    refine ⟨?_, fun x => Cursor.of_mem_span, fun hf => absurd hf (Option.some_ne_none _),
      fun _ => ⟨by simpa using hne, ?_⟩⟩
    · rw [fractionText, List.cons_append, ← hspan]
      simp [Cursor.drop, hx]
    · have hdigit := (c.drop 1).nextIs_span isDigit
      unfold Cursor.nextIs at hdigit hnext ⊢
      cases hr : ((c.drop 1).span isDigit).2.rest with
      | nil => rfl
      | cons y ys => simp_all
  · rename_i hdot
    obtain ⟨rfl, rfl⟩ := Prod.mk.inj (Except.ok.inj h)
    exact ⟨rfl, fun x hx => absurd hx List.not_mem_nil, fun _ => ⟨rfl, Bool.not_eq_true _ ▸ hdot⟩,
      fun hf => absurd rfl hf⟩

/-- An optional sign: the characters of it, and whether it is a minus sign. -/
inductive IsSign : List Char → Bool → Prop where
  | minus : IsSign ['-'] true
  | plus : IsSign ['+'] false
  | none : IsSign [] false

/-- A sign at the cursor. -/
theorem exists_isSign (c : Cursor) : ∃ w, IsSign w (Numeral.sign c).1 ∧
    c.rest = w ++ (Numeral.sign c).2.rest ∧
    (Numeral.sign c).2.offset = c.offset + byteLength w := by
  unfold Numeral.sign
  split
  · rename_i h
    obtain ⟨xs, hx⟩ := Cursor.exists_rest_of_nextIs h
    exact ⟨['-'], .minus, by simp [Cursor.drop, hx], by simp [Cursor.drop, hx]⟩
  split
  · rename_i h
    obtain ⟨xs, hx⟩ := Cursor.exists_rest_of_nextIs h
    exact ⟨['+'], .plus, by simp [Cursor.drop, hx], by simp [Cursor.drop, hx]⟩
  · exact ⟨[], .none, rfl, rfl⟩

/-- The sign before digits is read off them. -/
theorem sign_append {w ds : List Char} {n : Bool} (h : IsSign w n)
    (hd : ds.head?.any isDigit = true) (o : Nat) :
    Numeral.sign ⟨o, w ++ ds⟩ = (n, ⟨o + byteLength w, ds⟩) := by
  cases h with
  | minus | plus => simp [Numeral.sign, Cursor.nextIs, Cursor.drop]
  | none =>
    cases ds with
    | nil => cases hd
    | cons d ds =>
      have hne : ∀ x, isDigit x = false → (d == x) = false := by
        intro x hx
        rw [beq_eq_false_iff_ne]
        rintro rfl
        simp [hx] at hd
      simp [Numeral.sign, Cursor.nextIs, hne '-' rfl, hne '+' rfl]

/-- An exponent is read from its own text. -/
theorem exponentOf?_eq_some {x : Char} (hx : (x == 'e' || x == 'E') = true) {w ds : List Char}
    {n : Bool} (hw : IsSign w n) (hne : ds ≠ []) (hd : ∀ y ∈ ds, isDigit y = true) :
    exponentOf? (x :: (w ++ ds)) =
      some (if n then -(Numeral.decimalValue ds : Int) else Numeral.decimalValue ds) := by
  have hhead : ds.head?.any isDigit = true := by
    cases ds with
    | nil => exact absurd rfl hne
    | cons d ds => exact hd d List.mem_cons_self
  obtain ⟨htake, hdrop⟩ := takeWhile_append_of_stop (v := []) hd rfl
  rw [List.append_nil] at htake hdrop
  unfold exponentOf? Numeral.exponent?
  rw [if_neg (by simp), if_pos (by simpa [Cursor.nextIs] using hx)]
  have hdrop1 : (⟨0, x :: (w ++ ds)⟩ : Cursor).drop 1 = ⟨0 + x.utf8Size, w ++ ds⟩ := by
    simp [Cursor.drop]
  rw [hdrop1, sign_append hw hhead]
  dsimp only
  rw [if_pos (by exact hhead), Cursor.span]
  dsimp only
  rw [htake, hdrop]
  rfl

/-- The exponent at a cursor is read from its own text, which starts with a letter. -/
theorem exponentOf?_of_exponent? {e : Int} (h : Numeral.exponent? c = some (e, c')) :
    ∃ w, c.rest = w ++ c'.rest ∧ w.head?.any (fun x => isDigit x || x == '.') = false ∧
      exponentOf? w = some e := by
  unfold Numeral.exponent? at h
  split at h
  · rename_i he
    obtain ⟨x, xs, hx, he⟩ := Cursor.exists_cons_of_nextIs he
    obtain ⟨w, hw, hrest, -⟩ := exists_isSign (c.drop 1)
    dsimp only at h
    split at h
    · rename_i hd
      obtain ⟨rfl, rfl⟩ := Prod.mk.inj (Option.some.inj h)
      have hspan := (Numeral.sign (c.drop 1)).2.rest_eq_span isDigit
      refine ⟨x :: (w ++ ((Numeral.sign (c.drop 1)).2.span isDigit).1), ?_, ?_, ?_⟩
      · rw [List.cons_append, List.append_assoc, ← hspan, ← hrest]
        simp [Cursor.drop, hx]
      · rcases Bool.or_eq_true_iff.1 he with he | he <;>
        · rw [beq_iff_eq] at he
          subst he
          rfl
      · refine exponentOf?_eq_some he hw ?_ fun y => Cursor.of_mem_span
        intro hnil
        rw [hnil, List.nil_append] at hspan
        have hnext := (Numeral.sign (c.drop 1)).2.nextIs_span isDigit
        rw [Cursor.nextIs, ← hspan] at hnext
        rw [Cursor.nextIs, hnext] at hd
        cases hd
    · cases h
  · cases h

/-! ## Numerals -/

theorem fraction_eq (h : (Cursor.start text).Reaches start) (hc : start.Reaches c) :
    fraction text start.offset c.offset c =
      (lift (Numeral.fraction? start c)).map fun fc => (fc.1.isSome, fc.2.offset, fc.2) := by
  unfold fraction Numeral.fraction?
  split
  · rename_i hdot
    obtain ⟨xs, hx⟩ := Cursor.exists_rest_of_nextIs hdot
    have hone : c.offset + 1 = (c.drop 1).offset := (Cursor.offset_drop_one hx).symm
    have hreach : start.Reaches ((c.drop 1).span isDigit).2 :=
      (hc.trans (Cursor.reaches_drop c 1)).trans (Cursor.reaches_span _ _)
    rw [hone, Cursor.takeWhile_eq]
    dsimp only
    by_cases hw : ((c.drop 1).span isDigit).1.isEmpty = true
    · rw [if_pos ((Cursor.offset_span_eq_iff _ _).2 hw), if_pos hw, malformed_of_reaches h hreach]
      rfl
    · rw [if_neg (mt (Cursor.offset_span_eq_iff _ _).1 hw), if_neg hw]
      split
      · rw [Cursor.takeWhile_eq]
        exact malformed_of_reaches h (hreach.trans (Cursor.reaches_span _ _))
      · rfl
  · rfl

theorem exponent_eq (h : (Cursor.start text).Reaches c) :
    exponent text c.offset c =
      match Numeral.exponent? c with
      | some ec => (true, ec.2.offset, ec.2)
      | none => (false, c.offset, c) := by
  unfold exponent Numeral.exponent?
  split
  · dsimp only
    split
    · rw [offset_of_reaches ((h.trans (Cursor.reaches_drop c 1)).trans (Numeral.reaches_sign _)),
        Cursor.takeWhile_eq]
    · rfl
  · rfl

theorem radixValue_eq (h : (Cursor.start text).Reaches start) (hc : start.Reaches c)
    (radix : Nat) (w : List Char) :
    (radixValue text radix (String.ofList w) start.offset c.offset c : Checked (R × Cursor)) =
      lift (Numeral.radixScalar radix w start c) := by
  unfold radixValue Numeral.radixScalar
  rw [String.toList_ofList]
  cases Numeral.ofDigits? radix w with
  | some n => rfl
  | none => exact malformed_of_reaches h hc

/-- Both characters of a prefix for a radix take one byte. -/
theorem offset_drop_two {radix : Nat} (h : Numeral.radix? c = some radix) :
    (c.drop 2).offset = c.offset + 2 := by
  unfold Numeral.radix? at h
  split at h
  · rename_i x xs hx
    have hsize : x.utf8Size = 1 := by
      split at h
      · rename_i hr
        rcases hr with rfl | rfl <;> rfl
      split at h
      · rename_i hr
        rcases hr with rfl | rfl <;> rfl
      · cases h
    have hzero : '0'.utf8Size = 1 := rfl
    simp [Cursor.drop, hx, hsize, hzero]
  · cases h

/-- A word that starts with a zero has a second character if it takes a second byte. -/
theorem one_lt_utf8ByteSize_iff {w : List Char} (h : w.head? = some '0') :
    1 < (String.ofList w).utf8ByteSize ↔ 1 < w.length := by
  rw [← Text.byteLength_toList, String.toList_ofList]
  cases w with
  | nil => cases h
  | cons x w =>
    obtain rfl : x = '0' := Option.some.inj h
    have hne : byteLength w = 0 ↔ w.length = 0 := by
      rw [Text.byteLength_eq_zero_iff, List.length_eq_zero_iff]
    have hsize : '0'.utf8Size = 1 := rfl
    rw [Text.byteLength_cons, List.length_cons, hsize]
    omega

/-- Where a numeral starts there are digits in front of the fraction or in it. -/
theorem digits_ne_nil {f : Option (List Char)} (hs : start.nextIs Numeral.isStart = true)
    (hf : Numeral.fraction? start (start.span isDigit).2 = .ok (f, c)) :
    (start.span isDigit).1 ≠ [] ∨ f.getD [] ≠ [] := by
  obtain ⟨-, -, hnone, hsome⟩ := fraction?_eq_ok hf
  cases f with
  | some f => exact .inr (hsome nofun).1
  | none =>
    left
    intro hnil
    obtain ⟨-, hdot⟩ := hnone rfl
    have hrest := start.rest_eq_span isDigit
    have hdigit := start.nextIs_span isDigit
    rw [hnil, List.nil_append] at hrest
    unfold Cursor.nextIs at hs hdot hdigit
    rw [← hrest] at hdot hdigit
    cases hx : start.rest.head? with
    | none =>
      rw [hx] at hs
      cases hs
    | some x =>
      rw [hx, Option.any_some] at hs hdot hdigit
      simp [Numeral.isStart, hdot, hdigit] at hs

/-- What the slice of a decimal numeral spells, given the text of its exponent. -/
theorem decimal?_slice (h : (Cursor.start text).Reaches start)
    (hs : start.nextIs Numeral.isStart = true) {f : Option (List Char)}
    (hf : Numeral.fraction? start (start.span isDigit).2 = .ok (f, c)) {w : List Char} {e : Int}
    (hw : c.rest = w ++ c'.rest) (hc : c.Reaches c')
    (hhead : w.head?.any (fun x => isDigit x || x == '.') = false) (he : exponentOf? w = some e) :
    slice text start.offset c'.offset =
      .ok (String.ofList ((start.span isDigit).1 ++ (fractionText f ++ w))) ∧
    (decimal? (String.ofList ((start.span isDigit).1 ++ (fractionText f ++ w))) : Option R) =
      some (Numeral.decimalScalar (start.span isDigit).1 (f.getD []) e) := by
  obtain ⟨hrest, hdigits, -, -⟩ := fraction?_eq_ok hf
  have hstart : start.Reaches c :=
    (Cursor.reaches_span start isDigit).trans (Numeral.reaches_fraction hf)
  constructor
  · rw [slice_of_reaches h (hstart.trans hc), Cursor.upTo_eq]
    rw [start.rest_eq_span isDigit, hrest, hw, List.append_assoc, List.append_assoc]
  · apply decimal?_eq_some (fun _ => Cursor.of_mem_span) hdigits ?_ hhead he
    exact digits_ne_nil hs hf

/-- The numeral at a cursor is the one that is read there. -/
theorem parseNumber_eq (h : (Cursor.start text).Reaches start)
    (hs : start.nextIs Numeral.isStart = true) :
    (parseNumber text start.offset start : Checked (R × Cursor)) = lift (Numeral.scan start) := by
  unfold parseNumber Numeral.scan
  cases hr : Numeral.radix? start with
  | some radix =>
    have hdrop : start.Reaches (start.drop 2) := Cursor.reaches_drop start 2
    have hspan := Cursor.reaches_span (start.drop 2) Numeral.isWordChar
    rw [← offset_drop_two hr, Cursor.takeWhile_eq]
    dsimp only
    rw [slice_of_reaches (h.trans hdrop) hspan, Cursor.upTo_eq (Cursor.rest_eq_span _ _)]
    exact radixValue_eq h (hdrop.trans hspan) radix _
  | none =>
    have hspan := Cursor.reaches_span start isDigit
    rw [Cursor.takeWhile_eq]
    dsimp only
    rw [fraction_eq h hspan]
    cases hf : Numeral.fraction? start (start.span isDigit).2 with
    | error e => rfl
    | ok fc =>
      obtain ⟨f, c⟩ := fc
      have hc : start.Reaches c := hspan.trans (Numeral.reaches_fraction hf)
      simp only [lift_ok, Except.map, bind, Except.bind]
      rw [exponent_eq (h.trans hc)]
      cases he : Numeral.exponent? c with
      | some ec =>
        obtain ⟨e, c'⟩ := ec
        obtain ⟨w, hw, hhead, he'⟩ := exponentOf?_of_exponent? he
        obtain ⟨hslice, hdecimal⟩ :=
          decimal?_slice (R := R) h hs hf hw (Numeral.reaches_exponent he) hhead he'
        dsimp only
        rw [hslice]
        dsimp only
        rw [if_neg (by simp), hdecimal]
        cases f <;> rfl
      | none =>
        obtain ⟨hslice, hdecimal⟩ :=
          decimal?_slice (R := R) (w := []) h hs hf rfl (Cursor.Reaches.refl c) rfl rfl
        dsimp only
        rw [hslice]
        dsimp only
        cases f with
        | some f =>
          rw [if_neg (by simp), hdecimal]
          rfl
        | none =>
          -- Only digits: octal ones where a zero leads.
          rw [fractionText, List.append_nil, List.append_nil] at hdecimal ⊢
          rw [String.toList_ofList]
          by_cases hzero : (start.span isDigit).1.head? = some '0'
          · simp only [Option.isSome_none, Bool.not_false, Bool.true_and, hzero, decide_true,
              Bool.and_true, decide_eq_true_eq, and_true, one_lt_utf8ByteSize_iff hzero]
            split
            · exact radixValue_eq h hc 8 _
            · rw [hdecimal]
              rfl
          · rw [if_neg (by simp [hzero]), if_neg (by simp [hzero]), hdecimal]
            rfl

/-! ## Units -/

/-- The letter of a temperature scale takes one byte. -/
theorem utf8Size_of_isScale {x : Char} (h : UnitSuffix.isScale x = true) : x.utf8Size = 1 := by
  rcases Bool.or_eq_true_iff.1 h with h | h <;>
  · rw [beq_iff_eq] at h
    subst h
    rfl

theorem temperature_eq (h : (Cursor.start text).Reaches c)
    (hc : c.nextIs (· == UnitSuffix.degreeSign) = true) :
    temperature text c = .ok (UnitSuffix.temperature? c) := by
  obtain ⟨x, xs, hx, -⟩ := Cursor.exists_cons_of_nextIs hc
  have hone : (c.drop 1).rest = xs := by simp [Cursor.drop, hx]
  unfold temperature UnitSuffix.temperature?
  dsimp only
  rw [hx, Cursor.drop_drop]
  cases xs with
  | nil =>
    rw [if_neg]
    simp [Cursor.nextIs, hone]
  | cons s ys =>
    dsimp only
    rw [Cursor.nextIs_of_rest hone]
    split
    · rename_i hs
      have hsize := utf8Size_of_isScale (Bool.and_eq_true_iff.1 hs).1
      have htwo := Cursor.offset_drop_one hone
      rw [Cursor.drop_drop, hsize] at htwo
      rw [← htwo, slice_of_reaches h (Cursor.reaches_drop c 2),
        Cursor.upTo_eq (w := [x, s]) (by simp [Cursor.drop, hx])]
      rfl
    · rfl

theorem unitPower_eq {w : List Char} (h : (Cursor.start text).Reaches c) (hc : c.Reaches c')
    (hw : c.rest = w ++ c'.rest) :
    unitPower text c.offset c' = .ok (UnitSuffix.power? w c') := by
  unfold unitPower
  dsimp only
  rw [Cursor.drop_drop]
  split
  · rename_i hpower
    simp only [Bool.and_eq_true] at hpower
    obtain ⟨⟨hcaret, hdigit⟩, hbehind⟩ := hpower
    obtain ⟨xs, hx⟩ := Cursor.exists_rest_of_nextIs hcaret
    have hone : (c'.drop 1).rest = xs := by simp [Cursor.drop, hx]
    obtain ⟨n, ys, hn, hdigit⟩ := Cursor.exists_cons_of_nextIs hdigit
    obtain rfl : xs = n :: ys := hone.symm.trans hn
    have hsize : n.utf8Size = 1 := by
      rcases Bool.or_eq_true_iff.1 hdigit with hd | hd <;>
      · rw [beq_iff_eq] at hd
        subst hd
        rfl
    have htwo := Cursor.offset_drop_one hn
    rw [Cursor.drop_drop, hsize] at htwo
    have hrest : c.rest = (w ++ ['^', n]) ++ (c'.drop 2).rest := by
      simp [hw, Cursor.drop, hx]
    rw [← htwo, slice_of_reaches h (hc.trans (Cursor.reaches_drop c' 2)), Cursor.upTo_eq hrest]
    have hpower : UnitSuffix.power? w c' =
        (MeasureUnit.ofName? (String.ofList (w ++ ['^', n]))).map (·, c'.drop 2) := by
      unfold UnitSuffix.power?
      rw [hx]
      exact if_pos (Bool.and_eq_true_iff.2 ⟨hdigit, hbehind⟩)
    rw [hpower]
    rfl
  · rename_i hpower
    unfold UnitSuffix.power?
    split
    · rename_i n ys hx
      have hone : (c'.drop 1).rest = n :: ys := by simp [Cursor.drop, hx]
      rw [Cursor.nextIs_of_rest hx, Cursor.nextIs_of_rest hone] at hpower
      rw [if_neg]
      simpa using hpower
    · rfl

theorem unitWord_eq (h : (Cursor.start text).Reaches c) :
    unitWord text c = .ok (UnitSuffix.word? c) := by
  have hspan := Cursor.reaches_span c isNameChar
  unfold unitWord UnitSuffix.word?
  rw [Cursor.takeWhile_eq]
  dsimp only
  rw [slice_of_reaches h hspan, Cursor.upTo_eq (Cursor.rest_eq_span _ _)]
  simp only [bind, Except.bind]
  split
  · rfl
  rw [unitPower_eq h hspan (Cursor.rest_eq_span _ _)]
  cases UnitSuffix.power? (c.span isNameChar).1 (c.span isNameChar).2 with
  | some r => rfl
  | none =>
    dsimp only
    split <;> rfl

/-- The unit at a cursor is the one that is read there. -/
theorem scanUnit_eq (h : (Cursor.start text).Reaches c) :
    scanUnit text c = .ok (UnitSuffix.scan? c) := by
  have hskip := h.trans (Cursor.reaches_skip c isBlank)
  unfold scanUnit UnitSuffix.scan?
  dsimp only
  split
  · rename_i hsign
    exact temperature_eq hskip hsign
  split
  · exact unitWord_eq hskip
  · rfl

/-! ## Operators -/

/-- The ends of the symbols at a cursor are the cursors behind its operator characters. -/
theorem candidates_eq (n : Nat) (c : Cursor) :
    candidates n c = (List.range (min n (c.rest.takeWhile Lexeme.isOperatorChar).length)).map
      fun k => ((c.drop (k + 1)).offset, c.drop (k + 1)) := by
  induction n generalizing c with
  | zero => simp [candidates]
  | succ n ih =>
    rw [candidates]
    cases hx : c.rest with
    | nil => rfl
    | cons x xs =>
      dsimp only
      split
      · rename_i hop
        have hone : (c.drop 1).rest = xs := by simp [Cursor.drop, hx]
        rw [ih, hone, List.takeWhile_cons_of_pos hop, List.length_cons, Nat.add_min_add_right,
          List.range_succ_eq_map, List.map_cons, List.map_map, ← Cursor.offset_drop_one hx]
        refine congrArg (_ :: ·) (List.map_congr_left fun k _ => ?_)
        rw [Cursor.drop_drop, Nat.add_comm]
        rfl
      · rename_i hop
        rw [List.takeWhile_cons_of_neg hop]
        rfl

/-- The operator whose symbol is the next `k` characters. -/
def operatorOfPrefix? (c : Cursor) (k : Nat) : Option (Operator × Cursor) :=
  (Operator.ofSymbol? (String.ofList (c.rest.take k))).map (·, c.drop k)

theorem firstOperator_map (h : (Cursor.start text).Reaches c) (ks : List Nat) :
    firstOperator text c.offset (ks.map fun k => ((c.drop k).offset, c.drop k)) =
      .ok (ks.findSome? (operatorOfPrefix? c)) := by
  induction ks with
  | nil => rfl
  | cons k ks ih =>
    have hsplit : c.rest = c.rest.take k ++ (c.drop k).rest := (List.take_append_drop k _).symm
    rw [List.map_cons, firstOperator, slice_of_reaches h (Cursor.reaches_drop c k),
      Cursor.upTo_eq hsplit, List.findSome?_cons, operatorOfPrefix?]
    simp only [bind, Except.bind]
    cases Operator.ofSymbol? (String.ofList (c.rest.take k)) with
    | some op => rfl
    | none => exact ih

/-- The first characters of a list have a property if the run of those that do is long enough. -/
theorem all_take_iff {p : Char → Bool} (w : List Char) (k : Nat) :
    ((w.take k).length = k ∧ (w.take k).all p = true) ↔ k ≤ (w.takeWhile p).length := by
  induction w generalizing k with
  | nil => simp [eq_comm]
  | cons x w ih =>
    cases k with
    | zero => simp
    | succ k =>
      rw [List.take_succ_cons, List.length_cons, List.all_cons, Nat.add_right_cancel_iff,
        Bool.and_eq_true, and_left_comm, ih]
      by_cases hx : p x = true
      · rw [List.takeWhile_cons_of_pos hx, List.length_cons]
        simp [hx]
      · rw [List.takeWhile_cons_of_neg hx]
        simp [hx]

/-- The operator at a cursor is the one that is read there. -/
theorem firstOperator_eq (h : (Cursor.start text).Reaches c) :
    firstOperator text c.offset (candidates 3 c).reverse = .ok (Lexeme.operator? c) := by
  have hlength : ∀ k, Lexeme.operatorOfLength? c k =
      if k ≤ (c.rest.takeWhile Lexeme.isOperatorChar).length then operatorOfPrefix? c k
      else none := by
    intro k
    unfold Lexeme.operatorOfLength?
    dsimp only
    simp only [all_take_iff]
    rfl
  have hends : (candidates 3 c).reverse =
      ((List.range (min 3 (c.rest.takeWhile Lexeme.isOperatorChar).length)).reverse.map
        (· + 1)).map fun k => ((c.drop k).offset, c.drop k) := by
    rw [candidates_eq, List.map_map, List.map_reverse]
    rfl
  rw [hends, firstOperator_map h, Lexeme.operator?]
  simp only [List.findSome?_cons, List.findSome?_nil, hlength]
  generalize (c.rest.takeWhile Lexeme.isOperatorChar).length = n
  -- What lies behind the operator characters is passed over.
  obtain rfl | rfl | rfl | hn : n = 0 ∨ n = 1 ∨ n = 2 ∨ 3 ≤ n := by omega
  · rfl
  · simp only [Nat.reduceLeDiff, if_false, if_true]
    exact congrArg _ (List.findSome?_cons ..)
  · simp only [Nat.reduceLeDiff, if_false, if_true]
    exact congrArg _ (List.findSome?_cons ..)
  · rw [Nat.min_eq_left hn, if_pos hn, if_pos (by omega), if_pos (by omega)]
    exact congrArg _ (List.findSome?_cons ..)

end ByteScanner

end SymbolicAlgebra
