import SymbolicAlgebra.Proofs.LexemeEnds
import SymbolicAlgebra.Proofs.SignTokens

set_option autoImplicit false

/-!
# What the refusal of a text points at

A refusal carries an offset in bytes, or two, and sometimes characters. The characters are those
of the text at these offsets (`LexError.PointsInto`): a symbol or bracket is the one that stands
there, a malformed number is the text between its two offsets, and a sign or negation is found
where it is said to be.

Most refusals are made where a lexeme starts (`Lexeme.pointsInto_step`). An open bracket and a
negation without an operand are found at the end of the text only, from the places that the draft
has kept for them (`Draft.Placed`). So every refusal of a text points into it
(`pointsInto_of_tokenize`).
-/

namespace SymbolicAlgebra

open Text (Cursor byteLength isBlank isDigit isNameStart isNameChar)

namespace Text

/-! ## What is found at an offset -/

/-- The character that starts at an offset in bytes. -/
def charAt? (text : String) (o : Nat) : Option Char :=
  (splitBytes? o text.toList).bind (·.2.head?)

/-- The word that starts at an offset in bytes, the longest one. No word starts behind a letter
or an underscore. -/
def wordAt? (text : String) (o : Nat) : Option String :=
  (splitBytes? o text.toList).bind fun uv =>
    if uv.1.getLast?.any isNameStart then none
    else some (String.ofList (uv.2.takeWhile isNameChar))

/-- A negation of truth values is written at an offset in bytes: its symbol, or its word in small
or capital ASCII letters. -/
def NegationAt (text : String) (o : Nat) : Prop :=
  charAt? text o = some '~' ∨ ∃ w, wordAt? text o = some w ∧ Operator.smallLetters w = "not"

variable {text : String} {c c' : Cursor}

theorem charAt?_of_reaches (h : (Cursor.start text).Reaches c) {x : Char} {xs : List Char}
    (hx : c.rest = x :: xs) : charAt? text c.offset = some x := by
  obtain ⟨w, hw, ho⟩ := h
  have hsplit : splitBytes? c.offset text.toList = some (w, c.rest) :=
    splitBytes?_eq_some_iff.2 ⟨hw, ho.symm ▸ (Nat.zero_add _).symm⟩
  rw [charAt?, hsplit, hx]
  rfl

/-- Where an ASCII letter is next and no word has been cut, a word starts. -/
theorem wordAt?_of_clears (h : (Cursor.start text).Clears c)
    (hnext : c.nextIs Char.isAlpha = true) :
    wordAt? text c.offset = some (String.ofList (c.span isNameChar).1) := by
  obtain ⟨w, hw, ho, hlast⟩ := h
  have hsplit : splitBytes? c.offset text.toList = some (w, c.rest) :=
    splitBytes?_eq_some_iff.2 ⟨hw, ho.symm ▸ (Nat.zero_add _).symm⟩
  rw [wordAt?, hsplit, Option.bind_some, hlast hnext]
  rfl

end Text

/-- The characters that a refusal carries are those of the text at its offsets. -/
def LexError.PointsInto (text : String) : LexError → Prop
  | .unknownSymbol x o => Text.charAt? text o = some x
  | .unbalancedBracket x o => Text.charAt? text o = some x
  | .malformedNumber s start stop => start < stop ∧ Text.slice? text start stop = some s
  | .missingNotOperand o => Text.NegationAt text o
  | .missingAngleMagnitude o | .ambiguousPhase o =>
    Text.charAt? text o = some UnitSuffix.degreeSign ∨
      Text.charAt? text o = some Lexeme.angleSign

/-! ## Malformed numbers -/

namespace Numeral

variable {text : String} {start c c' : Cursor} {e : LexError}

/-- A text that is passed is a slice with at least one character. -/
theorem pointsInto_malformed (h : (Cursor.start text).Reaches c) (hp : c.Passes c') :
    (malformed c c').PointsInto text := by
  refine ⟨?_, Text.slice?_of_reaches h hp.1⟩
  obtain ⟨⟨w, hw, ho⟩, hlt⟩ := hp
  have hne : byteLength w ≠ 0 := by
    rw [ne_eq, Text.byteLength_eq_zero_iff]
    rintro rfl
    rw [hw] at hlt
    exact absurd hlt (Nat.lt_irrefl _)
  omega

/-- A fraction is refused with its point. -/
theorem passes_of_fraction_error (he : fraction? start c = .error e) (h : start.Reaches c) :
    ∃ c', e = malformed start c' ∧ start.Passes c' := by
  unfold fraction? at he
  split at he
  · rename_i hdot
    have hne : c.rest ≠ [] := Cursor.rest_ne_nil hdot
    have hpoint : start.Passes (c.drop 1) := h.trans_passes (Cursor.passes_drop Nat.one_pos hne)
    dsimp only at he
    split at he
    · exact ⟨_, (Except.error.inj he).symm, hpoint.trans_reaches (Cursor.reaches_span _ _)⟩
    split at he
    · exact ⟨_, (Except.error.inj he).symm, (hpoint.trans_reaches (Cursor.reaches_span _ _)
        ).trans_reaches (Cursor.reaches_skip _ _)⟩
    · cases he
  · cases he

variable {R : Type} [Scalar R]

theorem eq_of_radixScalar_error {radix : Nat} {w : List Char}
    (he : (radixScalar radix w start c : Except LexError (R × Cursor)) = .error e) :
    e = malformed start c := by
  unfold radixScalar at he
  split at he
  · cases he
  · exact (Except.error.inj he).symm

/-- A numeral is refused with at least one character. -/
theorem passes_of_scan_error
    (he : (scan start : Except LexError (R × Cursor)) = .error e) :
    ∃ c, e = malformed start c ∧ start.Passes c := by
  unfold scan at he
  split at he
  · rename_i radix hradix
    have hne : start.rest ≠ [] := by
      intro hnil
      simp [radix?, hnil] at hradix
    exact ⟨_, eq_of_radixScalar_error he,
      (Cursor.passes_drop Nat.two_pos hne).trans_reaches (Cursor.reaches_span _ _)⟩
  dsimp only at he
  split at he
  · rename_i e' hf
    cases he
    exact passes_of_fraction_error hf (start.reaches_span isDigit)
  rename_i f c₁ hf
  split at he
  · split at he
    · rename_i hoctal
      -- Octal digits are refused with their leading zero.
      refine ⟨_, eq_of_radixScalar_error he, ?_⟩
      have hwhole : start.Passes (start.span isDigit).2 := by
        refine ⟨start.reaches_span isDigit, ?_⟩
        have hlength := congrArg List.length (start.rest_eq_span isDigit)
        rw [List.length_append] at hlength
        omega
      exact hwhole.trans_reaches (reaches_fraction hf)
    · cases he
  · cases he
  · cases he

theorem pointsInto_of_scan_error (h : (Cursor.start text).Reaches start)
    (he : (scan start : Except LexError (R × Cursor)) = .error e) : e.PointsInto text := by
  obtain ⟨c, rfl, hp⟩ := passes_of_scan_error he
  exact pointsInto_malformed h hp

end Numeral

/-! ## The places that a draft keeps -/

variable {R : Type} {text : String} {d d' : Draft R} {start c : Cursor} {e : LexError}

/-- The negations and the open brackets of the draft are written at their places. -/
structure Draft.Placed (text : String) (d : Draft R) : Prop where
  /-- The negations of truth values. -/
  negations : ∀ t ∈ d.tokens, t.token = .operator .not → Text.NegationAt text t.offset
  /-- The open brackets. -/
  opened : ∀ bo ∈ d.opened, Text.charAt? text bo.2 = some bo.1.char

namespace Draft

theorem placed_empty (text : String) : (empty : Draft R).Placed text := ⟨nofun, nofun⟩

theorem Placed.push (h : d.Placed text) {t : Token R} {o : Nat}
    (ht : t = .operator .not → Text.NegationAt text o) : (d.push t o).Placed text where
  negations := by
    intro u hu hnot
    rcases List.mem_cons.1 hu with rfl | hu
    · exact ht hnot
    · exact h.negations u hu hnot
  opened := h.opened

/-- Replacing the last tokens without operators keeps the places. -/
theorem Rewrites.placed (hr : d.Rewrites d') (h : d.Placed text) : d'.Placed text where
  negations := by
    obtain ⟨gone, new, old, hd, hd', hops⟩ := hr.tokens
    intro t ht hnot
    rw [hd', List.mem_append] at ht
    rcases ht with ht | ht
    · have hop := hops t ht
      rw [hnot] at hop
      cases hop
    · exact h.negations t (hd ▸ List.mem_append_right _ ht) hnot
  opened := hr.opened ▸ h.opened

/-- Settling an operator keeps the places if a negation is placed. -/
theorem Placed.pushOperator (h : d.Placed text) {op : Operator} {o : Nat}
    (hop : op = .not → Text.NegationAt text o) (follows : Bool) :
    (d.pushOperator op o follows).Placed text := by
  -- The signs that an operator is settled to are no negations of truth values.
  have hsign : ∀ {d : Draft R} {op : Operator} {o : Nat}, op ≠ .not → d.Placed text →
      (d.push (.operator op) o).Placed text :=
    fun hne h => h.push fun heq => absurd (Token.operator.inj heq) hne
  unfold Draft.pushOperator
  split
  · exact h
  · exact h
  · exact hsign nofun h
  · exact hsign nofun (hsign nofun h)
  · exact hsign nofun h
  · exact hsign nofun (hsign nofun h)
  · exact h.push fun heq => hop (Token.operator.inj heq)

end Draft

/-! ## Lexemes -/

namespace Lexeme

/-- A word that is a negation in small letters starts with an ASCII letter. -/
theorem isAlpha_of_smallLetters {w : List Char}
    (h : Operator.smallLetters (String.ofList w) = "not") :
    ∃ y ys, w = y :: ys ∧ y.isAlpha = true := by
  have hmap : w.map Char.toLower = ['n', 'o', 't'] := by
    simpa [Operator.smallLetters] using congrArg String.toList h
  obtain ⟨y, ys, rfl, hy, -⟩ := List.map_eq_cons_iff.1 hmap
  refine ⟨y, ys, rfl, ?_⟩
  unfold Char.toLower at hy
  split at hy
  · rename_i hupper
    have hcapital : y.isUpper = true := by
      delta Char.isUpper
      simpa using hupper
    exact Bool.or_eq_true_iff.2 (.inl hcapital)
  · rw [hy]
    rfl

/-- A negation of truth values is written where it is spelled. -/
theorem SpelledAt.negationAt (h : (Cursor.start text).Clears start)
    (hs : SpelledAt start .not) : Text.NegationAt text start.offset := by
  cases hs with
  | word hword =>
    have hsmall : Operator.smallLetters (String.ofList (start.span isNameChar).1) = "not" := by
      have hmem := Operator.mem_words_of_ofWord? hword
      simpa [Operator.words] using hmem
    obtain ⟨y, ys, hy, halpha⟩ := isAlpha_of_smallLetters hsmall
    refine .inr ⟨_, Text.wordAt?_of_clears h ?_, hsmall⟩
    have hrest := start.rest_eq_span isNameChar
    rw [hy, List.cons_append] at hrest
    rw [Cursor.nextIs_of_rest hrest, halpha]
  | symbol hsymbol =>
    obtain ⟨n, -, hop⟩ := exists_take_of_operator? hsymbol
    rcases Operator.symbol_of_ofSymbol? hop with hassign | hsymbol
    · cases hassign
    · have htake : start.rest.take n = ['~'] := by
        rw [← String.toList_ofList (l := start.rest.take n), ← hsymbol]
        rfl
      have hrest := List.take_append_drop n start.rest
      rw [htake] at hrest
      exact .inl (Text.charAt?_of_reaches h.reaches hrest.symm)

variable [Scalar R] {x : Char} {xs : List Char}

/-- A lexeme keeps the places, and has one itself. -/
theorem placed_step (h : d.Placed text) (hc : (Cursor.start text).Clears start)
    (hx : start.rest = x :: xs) (hd : step d start x = .ok (d', c)) : d'.Placed text := by
  cases spells_of_step hd with
  | operator hop => exact h.pushOperator (fun hnot => (hnot ▸ hop).negationAt hc) _
  | rewrites hr => exact hr.placed h
  | delimiter hb ht ho =>
    constructor
    · intro t htoken hnot
      rw [ht] at htoken
      rcases List.mem_cons.1 htoken with rfl | htoken
      · cases hnot
      · exact h.negations t htoken hnot
    · intro bo hbo
      rcases ho bo hbo with rfl | hbo
      · obtain rfl : Delimiter.char _ = x := by simpa using List.find?_some hb
        exact Text.charAt?_of_reaches hc.reaches hx
      · exact h.opened bo hbo

/-! ## Refusals of one lexeme -/

/-- A sign that is found at a cursor is found at its offset. -/
theorem charAt?_of_nextIs (h : (Cursor.start text).Reaches c)
    (hx : c.nextIs (· == x) = true) : Text.charAt? text c.offset = some x := by
  obtain ⟨ys, hy⟩ := Cursor.exists_rest_of_nextIs hx
  exact Text.charAt?_of_reaches h hy

theorem pointsInto_angle {v : R} {sign : Cursor} (h : (Cursor.start text).Reaches sign)
    (hs : sign.nextIs (· == angleSign) = true) (he : angle d start v sign = .error e) :
    e.PointsInto text := by
  have hne : sign.rest ≠ [] := Cursor.rest_ne_nil hs
  have hp : sign.Passes (Numeral.sign ((sign.drop 1).skip isBlank)).2 :=
    ((Cursor.passes_drop Nat.one_pos hne).trans_reaches (Cursor.reaches_skip _ _)).trans_reaches
      (Numeral.reaches_sign _)
  unfold angle at he
  dsimp only at he
  split at he
  · split at he
    · rename_i hscan
      rw [← Except.error.inj he]
      exact Numeral.pointsInto_of_scan_error (h.trans hp.1) hscan
    · cases he
  · rw [← Except.error.inj he]
    exact Numeral.pointsInto_malformed h hp

theorem pointsInto_number (h : (Cursor.start text).Reaches start)
    (he : number d start = .error e) : e.PointsInto text := by
  unfold number at he
  split at he
  · rename_i hscan
    rw [← Except.error.inj he]
    exact Numeral.pointsInto_of_scan_error h hscan
  rename_i v c hscan
  split at he
  · cases he
  have hsign := (h.trans (Numeral.clears_scan hscan).reaches).trans (c.reaches_skip isBlank)
  unfold numberSuffix at he
  split at he
  · cases he
  dsimp only at he
  split at he
  · rename_i hangle
    exact pointsInto_angle hsign hangle he
  split at he
  · rename_i hdegree
    unfold degrees at he
    split at he
    · cases he
    · rw [← Except.error.inj he]
      exact .inl (charAt?_of_nextIs hsign hdegree)
  · cases he

omit [Scalar R] in
theorem eq_of_delimiter_error {b : Delimiter} (he : delimiter d start b = .error e) :
    e = .unbalancedBracket b.char start.offset := by
  unfold delimiter at he
  split at he
  · cases he
  split at he
  · split at he
    · cases he
    · rename_i hclose
      rw [← Except.error.inj he]
      exact Draft.closeBracket_eq_error hclose
  · cases he

/-- The refusal of a lexeme points into the text. -/
theorem pointsInto_step (h : (Cursor.start text).Reaches start) (hx : start.rest = x :: xs)
    (he : step d start x = .error e) : e.PointsInto text := by
  have hchar := Text.charAt?_of_reaches h hx
  unfold step at he
  split at he
  · cases he
  split at he
  · exact pointsInto_number h he
  split at he
  · cases he
  split at he
  · rename_i b hb
    obtain rfl : b.char = x := by simpa using List.find?_some hb
    rw [eq_of_delimiter_error he]
    exact hchar
  split at he
  · rename_i hdegree
    unfold temperature at he
    split at he
    · cases he
    · rw [← Except.error.inj he]
      exact .inl (hdegree ▸ hchar)
  split at he
  · rename_i hangle
    rw [← Except.error.inj he]
    exact .inr (hangle ▸ hchar)
  unfold operator at he
  split at he
  · cases he
  · rw [← Except.error.inj he]
    exact hchar

end Lexeme

/-! ## Refusals of a text -/

variable [Scalar R]

/-- The places are kept to the end of the text. -/
theorem placed_of_readLexemes (h : d.Placed text) (hc : (Cursor.start text).Clears start)
    (hd : readLexemes d start = .ok d') : d'.Placed text := by
  obtain ⟨c, -, hplaced, -⟩ := invariant_of_readLexemes
    (P := fun d c => d.Placed text ∧ (Cursor.start text).Clears c)
    (fun d c x xs d' c' hP hx hd => ⟨Lexeme.placed_step hP.1 hP.2 hx hd,
      hP.2.trans (Lexeme.clears_step hx hd)⟩) ⟨h, hc⟩ hd
  exact hplaced

/-- What is refused before the end of the text points into it. -/
theorem pointsInto_of_readLexemes (h : (Cursor.start text).Reaches start)
    (he : readLexemes d start = .error e) : e.PointsInto text := by
  fun_induction readLexemes d start with
  | case1 d c hx => cases he
  | case2 d c x xs hx e' hs =>
    rw [← Except.error.inj he]
    exact Lexeme.pointsInto_step h hx hs
  | case3 d c x xs hx d₁ c₁ hs _ ih => exact ih (h.trans (Lexeme.passes_step hx hs).1) he

omit [Scalar R] in
/-- A bare negation is one of the tokens. -/
theorem exists_of_bareNot? {ts : List (Located R)} {o : Nat} (h : bareNot? ts = some o) :
    ∃ t ∈ ts, t.token = .operator .not ∧ t.offset = o := by
  induction ts with
  | nil => cases h
  | cons t ts ih =>
    rw [bareNot?] at h
    split at h
    · rename_i hbare
      refine ⟨t, List.mem_cons_self, ?_, Option.some.inj h⟩
      have hnot := (Bool.and_eq_true_iff.1 hbare).1
      cases htoken : t.token with
      | operator op =>
        rw [htoken] at hnot
        rw [of_decide_eq_true hnot]
      | _ => rw [htoken] at hnot; cases hnot
    · obtain ⟨u, hu, hnot, ho⟩ := ih h
      exact ⟨u, List.mem_cons_of_mem t hu, hnot, ho⟩

/-- The refusal of a text points into it. -/
theorem pointsInto_of_tokenize
    (he : (tokenize text : Except LexError (List (Token R))) = .error e) : e.PointsInto text := by
  have hstart := Cursor.Clears.refl (Cursor.start text)
  unfold tokenize at he
  split at he
  · rename_i hread
    rw [← Except.error.inj he]
    exact pointsInto_of_readLexemes hstart.reaches hread
  rename_i d hread
  -- What is refused at the end of the text was placed on the way.
  have hplaced := placed_of_readLexemes (Draft.placed_empty text) hstart hread
  split at he
  · rename_i b o bs hopened
    rw [← Except.error.inj he]
    exact hplaced.opened (b, o) (hopened ▸ List.mem_cons_self)
  dsimp only at he
  split at he
  · rename_i o hbare
    obtain ⟨t, ht, hnot, rfl⟩ := exists_of_bareNot? hbare
    rw [← Except.error.inj he]
    exact hplaced.negations t (List.mem_reverse.1 ht) hnot
  · cases he

end SymbolicAlgebra
