import SymbolicAlgebra.Proofs.GrammarSound
import SymbolicAlgebra.Proofs.PhraseDerivation
import SymbolicAlgebra.Proofs.SignTokens
import SymbolicAlgebra.Proofs.TextSlice

set_option autoImplicit false

/-!
# The units among the tokens of a text

A unit is read in two ways: behind a numeral, together with it, or at a degree sign with the letter
of a temperature scale, and there whatever the last token is. Later lexemes may take back tokens
and put a complex literal in their place, but they take back numbers and operators only
(`Draft.KeepsUnits`). So a unit stays behind the token that it was read behind, and stands behind
something else than a number exactly where the reading came to a degree sign without a number right
before it (`units_of_tokenize`, with `Lexeme.UnitSource` for where a unit comes from). There are
such texts (`not_units_behind_numbers`). No formula is made of such tokens: the grammar has units
behind numbers only (`Grammar.IsAssignment.unitsFit`).
-/

namespace SymbolicAlgebra

open Text (Cursor)

variable {R : Type}

namespace Token

/-- Whether the token is a unit. -/
def isUnit : Token R → Bool
  | .unit _ => true
  | _ => false

/-- Whether the token is a number. -/
def isNumber : Token R → Bool
  | .number _ => true
  | _ => false

theorem isNumber_iff {t : Token R} : t.isNumber = true ↔ ∃ v, t = .number v := by
  cases t <;> simp [isNumber]

end Token

/-! ## Drafts with the same units -/

/-- The second draft has other tokens in place of some of the last tokens of the first one, and
none of these tokens is a unit. -/
def Draft.KeepsUnits (d d' : Draft R) : Prop :=
  ∃ gone new old, d.behind = gone ++ old ∧ d'.behind = new ++ old ∧
    (∀ t ∈ gone, t.isUnit = false) ∧ ∀ t ∈ new, t.isUnit = false

/-- Among tokens, the last one first, the units are not changed by tokens that are none. -/
theorem unit_suffix_append_iff {new old ws : List (Token R)} {u : MeasureUnit}
    (h : ∀ t ∈ new, t.isUnit = false) : .unit u :: ws <:+ new ++ old ↔ .unit u :: ws <:+ old := by
  induction new with
  | nil => exact Iff.rfl
  | cons t new ih =>
    obtain ⟨ht, hnew⟩ := List.forall_mem_cons.1 h
    rw [List.cons_append, List.suffix_cons_iff, ih hnew]
    refine or_iff_right fun heq => ?_
    rw [← (List.cons.inj heq).1] at ht
    cases ht

namespace Draft

/-- A unit stands behind the same tokens in both drafts. -/
theorem KeepsUnits.suffix_iff {d d' : Draft R} (h : d.KeepsUnits d') {u : MeasureUnit}
    {ws : List (Token R)} : .unit u :: ws <:+ d'.behind ↔ .unit u :: ws <:+ d.behind := by
  obtain ⟨gone, new, old, hd, hd', hgone, hnew⟩ := h
  rw [hd, hd', unit_suffix_append_iff hgone, unit_suffix_append_iff hnew]

theorem KeepsUnits.refl (d : Draft R) : d.KeepsUnits d :=
  ⟨[], [], d.behind, rfl, rfl, nofun, nofun⟩

theorem KeepsUnits.push {d d' : Draft R} (h : d.KeepsUnits d') {t : Token R}
    (ht : t.isUnit = false) (o : Nat) : d.KeepsUnits (d'.push t o) := by
  obtain ⟨gone, new, old, hd, hd', hgone, hnew⟩ := h
  exact ⟨gone, t :: new, old, hd, congrArg (t :: ·) hd', hgone, List.forall_mem_cons.2 ⟨ht, hnew⟩⟩

theorem keepsUnits_push (d : Draft R) {t : Token R} (ht : t.isUnit = false) (o : Nat) :
    d.KeepsUnits (d.push t o) :=
  (KeepsUnits.refl d).push ht o

theorem keepsUnits_pushOperator (d : Draft R) (op : Operator) (o : Nat) (follows : Bool) :
    d.KeepsUnits (d.pushOperator op o follows) := by
  unfold pushOperator
  split
  · exact .refl d
  · exact .refl d
  · exact d.keepsUnits_push rfl o
  · exact (d.keepsUnits_push rfl o).push rfl _
  · exact d.keepsUnits_push rfl o
  · exact (d.keepsUnits_push rfl o).push rfl _
  · exact d.keepsUnits_push rfl o

variable [Scalar R]

/-- Merging takes back numbers and operators only. -/
theorem keepsUnits_merged {d : Draft R} {m : Merge R} (hm : d.mergeable? = some m) {t : Token R}
    (ht : t.isUnit = false) : d.KeepsUnits (m.before.push t m.offset) := by
  obtain ⟨gone, hd, -, -, htaken⟩ := mergeable?_eq_some hm
  have hgone : ∀ t ∈ gone.map (·.token), t.isUnit = false := by
    intro t ht
    obtain ⟨l, hl, rfl⟩ := List.mem_map.1 ht
    rcases htaken l hl with ⟨v, hv⟩ | ⟨op, hop⟩
    · rw [hv]
      rfl
    · rw [hop]
      rfl
  have hbefore : d.KeepsUnits m.before := by
    refine ⟨gone.map (·.token), [], m.before.behind, ?_, rfl, hgone, nofun⟩
    rw [behind, hd, List.map_append, behind]
  exact hbefore.push ht m.offset

theorem keepsUnits_pushImaginary (d : Draft R) (v : R) (o : Nat) (mayMerge : Bool) :
    d.KeepsUnits (d.pushImaginary v o mayMerge) := by
  unfold pushImaginary
  split
  · rename_i m _ hm
    exact keepsUnits_merged hm rfl
  · exact d.keepsUnits_push rfl o

end Draft

/-! ## Lexemes -/

/-- Where the temperature unit is read at a degree sign, its symbol is ahead. -/
theorem UnitSuffix.symbol_of_temperature? {c c' : Cursor} {u : MeasureUnit}
    (hc : c.nextIs (· == degreeSign) = true) (h : temperature? c = some (u, c')) :
    u.hasDegreeSign = true ∧ u.symbol.toList <+: c.rest := by
  obtain ⟨xs, hx⟩ := Cursor.exists_rest_of_nextIs hc
  unfold temperature? at h
  rw [hx] at h
  cases xs with
  | nil => cases h
  | cons s xs =>
    dsimp only at h
    obtain ⟨hs, h⟩ := Option.ite_none_right_eq_some.1 h
    obtain ⟨u', hu, heq⟩ := Option.map_eq_some_iff.1 h
    obtain rfl : u' = u := (Prod.mk.inj heq).1
    have hscale : s = 'C' ∨ s = 'F' := by
      simpa [isScale] using (Bool.and_eq_true_iff.1 hs).1
    have hprefix : [degreeSign, s] <+: c.rest := hx ▸ ⟨xs, rfl⟩
    -- Both scales have a unit, and its symbol is the sign with the letter.
    rcases hscale with rfl | rfl
    · have hcelsius : MeasureUnit.ofName? (String.ofList [degreeSign, 'C']) = some .celsius := by
        decide +kernel
      obtain rfl : .celsius = u' := Option.some.inj (hcelsius.symm.trans hu)
      exact ⟨by decide, hprefix⟩
    · have hfahrenheit :
          MeasureUnit.ofName? (String.ofList [degreeSign, 'F']) = some .fahrenheit := by
        decide +kernel
      obtain rfl : .fahrenheit = u' := Option.some.inj (hfahrenheit.symm.trans hu)
      exact ⟨by decide, hprefix⟩

/-- Where a unit is read at a degree sign, its symbol is ahead. -/
theorem UnitSuffix.symbol_of_scan? {c c' : Cursor} {u : MeasureUnit}
    (hc : c.nextIs (· == degreeSign) = true) (h : scan? c = some (u, c')) :
    u.hasDegreeSign = true ∧ u.symbol.toList <+: c.rest := by
  -- No blank stands before the sign.
  have hskip : c.skip Text.isBlank = c := by
    obtain ⟨xs, hx⟩ := Cursor.exists_rest_of_nextIs hc
    have hblank : ¬ Text.isBlank degreeSign = true := by decide +kernel
    have hrest : c.rest.dropWhile Text.isBlank = c.rest := by
      rw [hx, List.dropWhile_cons_of_neg hblank]
    have htake : c.rest.takeWhile Text.isBlank = [] := by
      rw [hx, List.takeWhile_cons_of_neg hblank]
    rw [Cursor.skip, Cursor.span, hrest, htake]
    rfl
  rw [scan?, hskip, if_pos hc] at h
  exact symbol_of_temperature? hc h

namespace Lexeme

variable [Scalar R] {d d' : Draft R} {start c : Cursor} {x : Char} {xs : List Char}
  {u : MeasureUnit} {ws : List (Token R)}

/-- What a lexeme does to the units among the tokens. -/
inductive Measures (d : Draft R) (start : Cursor) (x : Char) : Draft R → Cursor → Prop where
  /-- It leaves them as they are. -/
  | keeps {d' : Draft R} (h : d.KeepsUnits d') (c : Cursor) : Measures d start x d' c
  /-- It is a numeral with its unit. -/
  | quantity (v : R) (o : Nat) (u : MeasureUnit) (o' : Nat) (c : Cursor) :
      Measures d start x ((d.push (.number v) o).push (.unit u) o') c
  /-- It is a degree sign with the letter of a scale. -/
  | scale {u : MeasureUnit} {c : Cursor} (hx : x = UnitSuffix.degreeSign)
      (hu : UnitSuffix.scan? start = some (u, c)) :
      Measures d start x (d.push (.unit u) start.offset) c

theorem IsNumber.measures (h : IsNumber d start d' c) : Measures d start x d' c := by
  cases h with
  | plain hv => exact .keeps (d.keepsUnits_push rfl _) c
  | imaginary hv hi => exact .keeps (d.keepsUnits_pushImaginary _ _ _) _
  | quantity hv hu => exact .quantity _ _ _ _ c
  | polar hv hsign hdigits hnext ha => exact .keeps (d.keepsUnits_push rfl _) _
  | degrees hv hsign hm => exact .keeps (Draft.keepsUnits_merged hm rfl) _

theorem keepsUnits_pushWord (d : Draft R) (w : String) (o : Nat) (c : Cursor) :
    d.KeepsUnits (pushWord d w o c) := by
  unfold pushWord
  split
  · exact d.keepsUnits_pushOperator _ o _
  · exact d.keepsUnits_push rfl o
  · exact d.keepsUnits_push rfl o
  · split
    · exact d.keepsUnits_push rfl o
    split
    · exact d.keepsUnits_pushImaginary 1 o _
    · exact d.keepsUnits_push rfl o

/-- Every lexeme is one of the three cases. -/
theorem measures_of_step (h : step d start x = .ok (d', c)) : Measures d start x d' c := by
  cases isLexeme_of_step h with
  | blank hb => exact .keeps (.refl d) _
  | number hn => exact hn.measures
  | word hb hn hs => exact .keeps (keepsUnits_pushWord d _ _ _) _
  | opening hb ho =>
    exact .keeps ⟨[], [_], d.behind, rfl, rfl, nofun, List.forall_mem_singleton.2 rfl⟩ _
  | closing hb hd =>
    obtain ⟨a, o', rest, -, -, rfl⟩ := Draft.closeBracket_eq_ok hd
    exact .keeps ⟨[], [_], d.behind, rfl, rfl, nofun, List.forall_mem_singleton.2 rfl⟩ _
  | comma hb => exact .keeps (d.keepsUnits_push rfl _) _
  | temperature hu hx => exact .scale hx hu
  | symbol hop => exact .keeps (d.keepsUnits_pushOperator _ _ _) c

omit [Scalar R] in
/-- No lexeme takes a unit from behind the tokens that it was read behind. -/
theorem Measures.suffix (h : Measures d start x d' c) (hu : .unit u :: ws <:+ d.behind) :
    .unit u :: ws <:+ d'.behind := by
  cases h with
  | keeps h => exact h.suffix_iff.2 hu
  | quantity v o u' o' => exact (hu.trans (List.suffix_cons _ _)).trans (List.suffix_cons _ _)
  | scale hx hu' => exact hu.trans (List.suffix_cons _ _)

omit [Scalar R] in
/-- A unit was there before the lexeme, is read with a number, or is read at a degree sign. -/
theorem Measures.unit_cases (h : Measures d start x d' c) (hu : .unit u :: ws <:+ d'.behind) :
    .unit u :: ws <:+ d.behind ∨ ws.head?.any Token.isNumber = true ∨
      (x = UnitSuffix.degreeSign ∧ UnitSuffix.scan? start = some (u, c) ∧ ws = d.behind) := by
  cases h with
  | keeps h => exact .inl (h.suffix_iff.1 hu)
  | quantity v o u' o' =>
    rcases List.suffix_cons_iff.1 hu with heq | hu
    · rw [(List.cons.inj heq).2]
      exact .inr (.inl rfl)
    · have hnew : ∀ t ∈ [Token.number v], t.isUnit = false := List.forall_mem_singleton.2 rfl
      exact .inl ((unit_suffix_append_iff hnew).1 hu)
  | scale hx hu' =>
    rcases List.suffix_cons_iff.1 hu with heq | hu
    · obtain ⟨hunit, hws⟩ := List.cons.inj heq
      obtain rfl := Token.unit.inj hunit
      exact .inr (.inr ⟨hx, hu', hws⟩)
    · exact .inl hu

/-! ## Reading a text -/

/-- A draft and a cursor that are met between two lexemes of a text. -/
inductive Reached (text : String) : Draft R → Cursor → Prop where
  /-- At the start of the text. -/
  | start : Reached text Draft.empty (Cursor.start text)
  /-- Behind a lexeme. -/
  | step {d d' : Draft R} {c c' : Cursor} {x : Char} {xs : List Char} (h : Reached text d c)
      (hx : c.rest = x :: xs) (hs : step d c x = .ok (d', c')) : Reached text d' c'

/-- From every place that is met, the text is read on to the same end. -/
theorem Reached.readLexemes_eq {text : String} (h : Reached text d c) :
    readLexemes d c = readLexemes Draft.empty (Cursor.start text) := by
  induction h with
  | start => rfl
  | step h hx hs ih =>
    rw [← ih, readLexemes_cons _ hx, hs]
    rfl

/-- How a unit comes to stand behind the tokens `ws`, the last one first. -/
inductive UnitSource (text : String) (u : MeasureUnit) (ws : List (Token R)) : Prop where
  /-- Behind a number. -/
  | number (h : ws.head?.any Token.isNumber = true)
  /-- By its symbol, which is met with just these tokens before it. -/
  | symbol {d : Draft R} {c : Cursor} (h : Reached text d c) (hd : d.behind = ws)
      (hu : u.hasDegreeSign = true) (hs : u.symbol.toList <+: c.rest)

/-- Reading one more lexeme, every unit still comes from where units come from. -/
theorem unitSource_step {text : String} (h : Reached text d start)
    (hd : ∀ u ws, .unit u :: ws <:+ d.behind → UnitSource text u ws)
    (hx : start.rest = x :: xs) (hs : step d start x = .ok (d', c))
    (hu : .unit u :: ws <:+ d'.behind) : UnitSource text u ws := by
  rcases (measures_of_step hs).unit_cases hu with hold | hnumber | ⟨rfl, hscan, rfl⟩
  · exact hd u ws hold
  · exact .number hnumber
  · have hnext : start.nextIs (· == UnitSuffix.degreeSign) = true :=
      (Cursor.nextIs_of_rest hx _).trans (by decide)
    obtain ⟨hdegree, hsymbol⟩ := UnitSuffix.symbol_of_scan? hnext hscan
    exact .symbol h rfl hdegree hsymbol

end Lexeme

section Texts

variable [Scalar R] {d d' : Draft R} {c : Cursor} {text : String} {u : MeasureUnit}
  {ws : List (Token R)}

/-- A unit that has been read stays where it is. -/
theorem unit_suffix_of_readLexemes (hd : readLexemes d c = .ok d')
    (hu : .unit u :: ws <:+ d.behind) : .unit u :: ws <:+ d'.behind := by
  obtain ⟨c', -, h⟩ := invariant_of_readLexemes (P := fun d _ => .unit u :: ws <:+ d.behind)
    (fun _ _ _ _ _ _ h _ hs => (Lexeme.measures_of_step hs).suffix h) hu hd
  exact h

/-- Where the units of a text come from. -/
theorem unitSource_of_readLexemes
    (hd : readLexemes Draft.empty (Cursor.start text) = .ok d)
    (hu : .unit u :: ws <:+ d.behind) : Lexeme.UnitSource text u ws := by
  obtain ⟨c, -, -, h⟩ := invariant_of_readLexemes
    (P := fun d c => Lexeme.Reached text d c ∧
      ∀ u ws, .unit u :: ws <:+ d.behind → Lexeme.UnitSource text u ws)
    (fun d c x xs d' c' hP hx hs =>
      ⟨hP.1.step hx hs, fun u ws => Lexeme.unitSource_step hP.1 hP.2 hx hs⟩)
    ⟨.start, fun u ws hu => absurd (List.suffix_nil.1 hu) (List.cons_ne_nil _ _)⟩ hd
  exact h u ws hu

/-- Where a degree sign is met in a text that is read to its end, the next token is a unit. -/
theorem unit_suffix_of_degreeSign (h : Lexeme.Reached text d c)
    (hc : c.nextIs (· == UnitSuffix.degreeSign) = true)
    (hd : readLexemes Draft.empty (Cursor.start text) = .ok d') :
    ∃ u, .unit u :: d.behind <:+ d'.behind := by
  obtain ⟨xs, hx⟩ := Cursor.exists_rest_of_nextIs hc
  rw [← h.readLexemes_eq, readLexemes_cons d hx, Lexeme.step_degreeSign, Lexeme.temperature] at hd
  cases hscan : UnitSuffix.scan? c with
  | none =>
    rw [hscan] at hd
    cases hd
  | some p =>
    obtain ⟨u, c'⟩ := p
    rw [hscan] at hd
    exact ⟨u, unit_suffix_of_readLexemes hd (List.suffix_refl _)⟩

end Texts

/-! ## Places -/

/-- The token before the place is a number. -/
def FollowsNumber (ts : List (Token R)) (i : Nat) : Prop :=
  0 < i ∧ ∃ v, ts[i - 1]? = some (.number v)

theorem followsNumber_iff {ts : List (Token R)} {i : Nat} :
    FollowsNumber ts i ↔ (before? ts i).any Token.isNumber = true := by
  rw [Option.any_eq_true]
  unfold before?
  constructor
  · rintro ⟨hpos, v, hv⟩
    rw [if_neg (Nat.ne_of_gt hpos)]
    exact ⟨.number v, hv, rfl⟩
  · rintro ⟨t, ht, hnumber⟩
    obtain ⟨v, rfl⟩ := Token.isNumber_iff.1 hnumber
    split at ht
    · cases ht
    · rename_i hi
      exact ⟨Nat.pos_of_ne_zero hi, v, ht⟩

theorem FollowsNumber.cons {ts : List (Token R)} {i : Nat} (h : FollowsNumber ts i)
    (t : Token R) : FollowsNumber (t :: ts) (i + 1) := by
  obtain ⟨hpos, v, hv⟩ := h
  refine ⟨i.succ_pos, v, ?_⟩
  obtain ⟨j, rfl⟩ := Nat.exists_eq_succ_of_ne_zero (Nat.ne_of_gt hpos)
  exact hv

/-- What stands behind some tokens, the last one first, has its place among them. -/
theorem getElem?_of_cons_suffix {ts ws : List (Token R)} {t : Token R}
    (h : t :: ws <:+ ts.reverse) :
    ts[ws.length]? = some t ∧ (ts.take ws.length).reverse = ws := by
  obtain ⟨us, hus⟩ := h
  have hts : ts = ws.reverse ++ t :: us.reverse := by
    rw [← List.reverse_reverse ts, ← hus]
    simp
  rw [hts]
  constructor
  · rw [← List.length_reverse, List.getElem?_append_right (Nat.le_refl _), Nat.sub_self]
    rfl
  · rw [← List.length_reverse, List.take_left, List.reverse_reverse]

namespace Token

/-- What is no call is where it was before the numbers of arguments were settled. -/
theorem getElem?_settleArities_eq_some_iff {ts : List (Token R)} {i : Nat} {t : Token R}
    (ht : ∀ f n, t ≠ .call f n) : (settleArities ts)[i]? = some t ↔ ts[i]? = some t := by
  have hsettle : ∀ us (t' : Token R), settleArity us t' = t ↔ t' = t := by
    intro us t'
    cases t' with
    | call f n =>
      exact ⟨fun h => absurd h.symm (ht f _), fun h => absurd h.symm (ht f n)⟩
    | _ => exact Iff.rfl
  simp [getElem?_settleArities, Option.map_eq_some_iff, hsettle]

end Token

theorem followsNumber_settleArities_iff {ts : List (Token R)} {i : Nat} :
    FollowsNumber (Token.settleArities ts) i ↔ FollowsNumber ts i := by
  simp [FollowsNumber, Token.getElem?_settleArities_eq_some_iff]

/-! ## Formulas -/

/-- Each unit of the word stands behind a number. -/
inductive UnitsFit : List (Token R) → Prop where
  | nil : UnitsFit []
  | cons {t : Token R} {w : List (Token R)} (ht : t.isUnit = false) (h : UnitsFit w) :
      UnitsFit (t :: w)
  | quantity (v : R) (u : MeasureUnit) {w : List (Token R)} (h : UnitsFit w) :
      UnitsFit (.number v :: .unit u :: w)

theorem UnitsFit.append {v w : List (Token R)} (h : UnitsFit v) (h' : UnitsFit w) :
    UnitsFit (v ++ w) := by
  induction h with
  | nil => exact h'
  | cons ht _ ih => exact .cons ht ih
  | quantity v u _ ih => exact .quantity v u ih

theorem UnitsFit.followsNumber {w : List (Token R)} (h : UnitsFit w) {i : Nat}
    {u : MeasureUnit} (hi : w[i]? = some (.unit u)) : FollowsNumber w i := by
  induction h generalizing i with
  | nil => cases hi
  | cons ht _ ih =>
    cases i with
    | zero =>
      rw [Option.some.inj hi] at ht
      cases ht
    | succ i => exact (ih hi).cons _
  | quantity v u _ ih =>
    match i with
    | 0 => cases hi
    | 1 => exact ⟨Nat.one_pos, v, rfl⟩
    | i + 2 => exact ((ih hi).cons _).cons _

namespace Grammar

variable [Scalar R] {U : FunctionTable R}

theorem BareLiteral.unitsFit {w : List (Token R)} {e n : Expr R} (h : BareLiteral w e n) :
    UnitsFit w := by
  cases h with
  | number v => exact .cons rfl .nil
  | complex z => exact .cons rfl .nil
  | quantity v u => exact .quantity v u .nil

mutual
/-- In the words of the grammar units stand behind numbers only. -/
theorem IsAssignment.unitsFit {w : List (Token R)} {e : Expr R} :
    IsAssignment U w e → UnitsFit w
  | .chain h => h.unitsFit
  | .assign h h' _ => h.unitsFit.append (.cons rfl h'.unitsFit)
theorem IsChain.unitsFit {l : Level} {w : List (Token R)} {e : Expr R} :
    IsChain U l w e → UnitsFit w
  | .operand h => h.unitsFit
  | .connective _ h h' => h.unitsFit.append (.cons rfl h'.unitsFit)
  | .juxtaposition _ _ _ h h' => h.unitsFit.append h'.unitsFit
theorem IsOperand.unitsFit {l : Level} {w : List (Token R)} {e : Expr R} :
    IsOperand U l w e → UnitsFit w
  | .tighter _ h => h.unitsFit
  | .signed h => h.unitsFit
theorem IsSigned.unitsFit {w : List (Token R)} {e : Expr R} : IsSigned U w e → UnitsFit w
  | .negateLiteral h => .cons rfl h.unitsFit
  | .negate h _ => .cons rfl h.unitsFit
  | .not h => .cons rfl h.unitsFit
  | .power h => h.unitsFit
theorem IsPower.unitsFit {w : List (Token R)} {e : Expr R} : IsPower U w e → UnitsFit w
  | .trailing h => h.unitsFit
  | .power h h' => h.unitsFit.append (.cons rfl h'.unitsFit)
  | .signed h _ h' => h.unitsFit.append (.cons rfl h'.unitsFit)
theorem IsTrailing.unitsFit {w : List (Token R)} {e : Expr R} : IsTrailing U w e → UnitsFit w
  | .primary h => h.unitsFit
  | .trailing h _ => h.unitsFit.append (.cons rfl .nil)
theorem IsPrimary.unitsFit {w : List (Token R)} {e : Expr R} : IsPrimary U w e → UnitsFit w
  | .literal h => h.unitsFit
  | .truth _ => .cons rfl .nil
  | .name _ => .cons rfl .nil
  | .call _ h _ => .cons rfl (.cons rfl (h.unitsFit.append (.cons rfl .nil)))
  | .group h => .cons rfl (h.unitsFit.append (.cons rfl .nil))
  | .list h _ => .cons rfl (h.unitsFit.append (.cons rfl .nil))
theorem IsBody.unitsFit {w : List (Token R)} {es : List (Expr R)} : IsBody U w es → UnitsFit w
  | .empty => .nil
  | .members h => h.unitsFit
theorem IsMembers.unitsFit {w : List (Token R)} {es : List (Expr R)} :
    IsMembers U w es → UnitsFit w
  | .one h => h.unitsFit
  | .cons h h' => h.unitsFit.append (.cons rfl h'.unitsFit)
end

end Grammar

/-! ## The tokens of a text -/

variable [Scalar R]

/-- When a text has been read, each unit stands behind a number or where its symbol was met. -/
theorem followsNumber_or_reached {text : String} {d' : Draft R}
    (hd' : readLexemes Draft.empty (Cursor.start text) = .ok d') {i : Nat} {u : MeasureUnit}
    (hi : d'.behind.reverse[i]? = some (.unit u)) : FollowsNumber d'.behind.reverse i ∨
      ∃ d c, Lexeme.Reached (R := R) text d c ∧ d.tokens.length = i ∧
        u.hasDegreeSign = true ∧ u.symbol.toList <+: c.rest := by
  have hlt := (List.getElem?_eq_some_iff.1 hi).1
  have hsuffix := cons_suffix_of_getElem? hi
  rw [List.reverse_reverse] at hsuffix
  cases unitSource_of_readLexemes hd' hsuffix with
  | number hnumber =>
    rw [head?_reverse_take hlt] at hnumber
    exact .inl (followsNumber_iff.2 hnumber)
  | symbol hreached hd hu hs =>
    rename_i d c
    have hlength := congrArg List.length hd
    rw [List.length_reverse, List.length_take, Nat.min_eq_left (Nat.le_of_lt hlt),
      Draft.behind, List.length_map] at hlength
    exact .inr ⟨d, c, hreached, hlength, hu, hs⟩

/-- When a text has been read, a unit stands where a degree sign was met; it stands behind a
number exactly if the last token so far was one. -/
theorem exists_unit_of_reached {text : String} {d d' : Draft R} {c : Cursor}
    (hd' : readLexemes Draft.empty (Cursor.start text) = .ok d')
    (hreached : Lexeme.Reached text d c) (hc : c.nextIs (· == UnitSuffix.degreeSign) = true) :
    ∃ u, d'.behind.reverse[d.tokens.length]? = some (.unit u) ∧
      (FollowsNumber d'.behind.reverse d.tokens.length ↔
        d.behind.head?.any Token.isNumber = true) := by
  obtain ⟨u, hsuffix⟩ := unit_suffix_of_degreeSign hreached hc hd'
  have hlength : d.behind.length = d.tokens.length := List.length_map _
  rw [← List.reverse_reverse d'.behind] at hsuffix
  obtain ⟨hunit, hbefore⟩ := getElem?_of_cons_suffix hsuffix
  rw [hlength] at hunit hbefore
  refine ⟨u, hunit, ?_⟩
  rw [followsNumber_iff, ← head?_reverse_take (List.getElem?_eq_some_iff.1 hunit).1, hbefore]

/-- The units among the tokens of a text. Each of them stands behind a number, or at the place
that the reading had come to when its symbol, which starts with a degree sign, was next. And
wherever the reading comes to a degree sign between two lexemes, the next token is a unit; it
stands behind a number exactly if the last token so far was one. Where the tokens form an
expression, each unit stands behind a number. -/
theorem units_of_tokenize {text : String} {ts : List (Token R)} (h : tokenize text = .ok ts) :
    (∀ i u, ts[i]? = some (.unit u) → FollowsNumber ts i ∨
      ∃ d c, Lexeme.Reached (R := R) text d c ∧ d.tokens.length = i ∧
        u.hasDegreeSign = true ∧ u.symbol.toList <+: c.rest) ∧
    (∀ d c, Lexeme.Reached (R := R) text d c →
      c.nextIs (· == UnitSuffix.degreeSign) = true →
      ∃ u, ts[d.tokens.length]? = some (.unit u) ∧
        (FollowsNumber ts d.tokens.length ↔ d.behind.head?.any Token.isNumber = true)) ∧
    ∀ U e, parse U ts = .ok e → ∀ i u, ts[i]? = some (.unit u) → FollowsNumber ts i := by
  obtain ⟨d', hd', -, -, rfl⟩ := tokenize_eq_ok h
  rw [← Draft.behind]
  -- Settling the numbers of arguments changes neither units nor numbers.
  have hunit : ∀ (i : Nat) (u : MeasureUnit),
      (Token.settleArities d'.behind.reverse)[i]? = some (Token.unit u) ↔
        d'.behind.reverse[i]? = some (Token.unit u) := fun i u =>
    Token.getElem?_settleArities_eq_some_iff (by simp)
  refine ⟨fun i u hi => ?_, fun d c hreached hc => ?_, fun U e he i u hi => ?_⟩
  · rw [followsNumber_settleArities_iff]
    exact followsNumber_or_reached hd' ((hunit i u).1 hi)
  · obtain ⟨u, hu, hnumber⟩ := exists_unit_of_reached hd' hreached hc
    exact ⟨u, (hunit _ u).2 hu, followsNumber_settleArities_iff.trans hnumber⟩
  · exact (Grammar.isAssignment_of_parse he).unitsFit.followsNumber hi

/-- The symbol of a temperature scale is a text of one token, the unit. -/
theorem tokenize_scale {u : MeasureUnit} (hu : u.hasDegreeSign = true) :
    tokenize (R := R) u.symbol = .ok [.unit u] := by
  rw [← String.ofList_toList (s := u.symbol)]
  exact tokenize_of_reads (Reads.scale .empty hu .nil) (.unit u)

/-- In `20 °C` the unit stands behind the number, and the text `°C` is a unit behind nothing. -/
theorem units_of_tokenize_temperature :
    let ts : List (Token Whole) := [.number ⟨20⟩, .unit .celsius]
    let us : List (Token Whole) := [.unit .celsius]
    tokenize "20 °C" = .ok ts ∧ parse FunctionTable.empty ts = .ok (.quantity ⟨⟨20⟩, .celsius⟩) ∧
      FollowsNumber ts 1 ∧ tokenize "°C" = .ok us ∧
      (∃ d c, Lexeme.Reached (R := Whole) "°C" d c ∧ d.tokens.length = 0 ∧
        "°C".toList <+: c.rest) ∧
      ∃ u, us[0]? = some (.unit u) ∧ ¬ FollowsNumber us 0 := by
  intro ts us
  have hphrase : Phrase (R := Whole) FunctionTable.empty _ ts (.quantity ⟨⟨20⟩, .celsius⟩) :=
    .atom (.quantity (Numeral.isPlain_toDigits 20) .celsius)
  have hts : tokenize "20 °C" = .ok ts := hphrase.tokenize
  have hus : tokenize "°C" = .ok us := tokenize_scale (u := .celsius) (by decide)
  have hstart : ¬ FollowsNumber us 0 := fun h => absurd h.1 (Nat.lt_irrefl 0)
  refine ⟨hts, hphrase.parse, (units_of_tokenize hts).2.2 _ _ hphrase.parse 1 _ rfl, hus, ?_, ?_⟩
  · obtain ⟨d, c, hreached, hd, -, hs⟩ :=
      ((units_of_tokenize hus).1 0 .celsius rfl).resolve_left hstart
    exact ⟨d, c, hreached, hd, hs⟩
  · obtain ⟨u, hu, -⟩ := (units_of_tokenize hus).2.1 _ _ .start rfl
    exact ⟨u, hu, hstart⟩

/-- A unit among the tokens of a text need not stand behind a number. -/
theorem not_units_behind_numbers :
    ¬ ∀ (text : String) (ts : List (Token Whole)), tokenize text = .ok ts →
      ∀ i u, ts[i]? = some (.unit u) → 0 < i ∧ ∃ v, ts[i - 1]? = some (.number v) := by
  intro h
  have hus : tokenize (R := Whole) "°C" = .ok [.unit .celsius] :=
    tokenize_scale (u := .celsius) (by decide)
  exact absurd (h _ _ hus 0 .celsius rfl).1 (Nat.lt_irrefl 0)

end SymbolicAlgebra
