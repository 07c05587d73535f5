import SymbolicAlgebra.Proofs.ByteScannerText
import SymbolicAlgebra.Proofs.OpenFrames

set_option autoImplicit false

/-!
# The scanner by offsets reads the tokens of the text

A scanner represents a draft (`ByteScanner.Represents`) if it holds the same tokens, with the
numbers of arguments already settled, their places, and a frame for each open bracket. One lexeme
keeps this and finds every slice of the text and every index that it asks for
(`ByteScanner.agrees_step`). So does a whole run (`ByteScanner.agrees_run`), which therefore ends
with the tokens of the text or with the refusal of the text, and never for another cause
(`ByteScanner.tokenize_eq`).
-/

namespace SymbolicAlgebra

open Text (Cursor isBlank isDigit isNameStart isNameChar)

namespace ByteScanner

variable {R : Type} {s s' : ByteScanner R} {d d' : Draft R}

/-! ## Representing a draft -/

/-- The scanner holds the tokens of the draft with their places, and a frame for each open
bracket. -/
structure Represents (s : ByteScanner R) (d : Draft R) : Prop where
  /-- The tokens, with the numbers of arguments settled. -/
  tokens : s.tokens = Token.settleArities d.behind.reverse
  /-- The places of the tokens. -/
  positions : s.positions = (d.tokens.map (·.offset)).reverse
  /-- What the frames know of the tokens. -/
  frames : Frames s.frames d.behind.reverse
  /-- The frames are those of the open brackets. -/
  opened : s.frames.map (fun f => (f.symbol, f.position)) = d.opened

theorem represents_start (text : String) :
    (start text : ByteScanner R).Represents Draft.empty where
  tokens := rfl
  positions := rfl
  frames := .nil .nil
  opened := rfl

theorem Represents.moveTo (h : s.Represents d) (c : Cursor) : (s.moveTo c).Represents d :=
  ⟨h.tokens, h.positions, h.frames, h.opened⟩

/-- Every token has its place. -/
theorem Represents.length_positions (h : s.Represents d) :
    s.positions.length = s.tokens.length := by
  rw [h.tokens, h.positions, Token.length_settleArities, List.length_reverse, List.length_reverse,
    Draft.behind, List.length_map, List.length_map]

theorem Represents.length_tokens (h : s.Represents d) : s.tokens.length = d.tokens.length := by
  rw [h.tokens, Token.length_settleArities, List.length_reverse, Draft.behind, List.length_map]

theorem behind_push (d : Draft R) (t : Token R) (o : Nat) :
    (d.push t o).behind.reverse = d.behind.reverse ++ [t] := by
  rw [← List.reverse_cons]
  rfl

/-- Pushing a token that closes no bracket. -/
theorem Represents.tokens_push (h : s.Represents d) {t : Token R}
    (ht : Token.ClosesNothing [t]) (hsettled : Token.settleArity [] t = t) (o : Nat) :
    (s.push t o).tokens = Token.settleArities (d.push t o).behind.reverse := by
  rw [behind_push, Token.settleArities_append ht fun _ => Token.closesNothing_nil,
    Token.settleArities, hsettled, ← h.tokens]
  rfl

theorem Represents.positions_push (h : s.Represents d) (t : Token R) (o : Nat) :
    (s.push t o).positions = ((d.push t o).tokens.map (·.offset)).reverse := by
  have hpush : (d.push t o).tokens.map (·.offset) = o :: d.tokens.map (·.offset) := rfl
  rw [hpush, List.reverse_cons, ← h.positions]
  rfl

theorem Represents.push (h : s.Represents d) {t : Token R} (ht : t.isDelimiter = false)
    (hsettled : Token.settleArity [] t = t) (o : Nat) :
    (s.push t o).Represents (d.push t o) where
  tokens := h.tokens_push (Token.closesNothing_of_nested (.cons
    (Token.isBracket_of_isDelimiter ht) .nil)) hsettled o
  positions := h.positions_push t o
  frames := by
    rw [behind_push]
    exact h.frames.append (.cons ht .nil)
  opened := h.opened

theorem Represents.comma (h : s.Represents d) (o : Nat) :
    (s.comma o).Represents (d.push (.delimiter .comma) o) where
  tokens := h.tokens_push (Token.closesNothing_of_nested (.cons rfl .nil)) rfl o
  positions := h.positions_push _ o
  frames := by
    rw [behind_push]
    exact h.frames.comma
  opened := by
    rw [show (d.push (.delimiter .comma) o).opened = d.opened from rfl, ← h.opened]
    cases hf : s.frames <;> simp [ByteScanner.comma, ByteScanner.push, hf]

theorem Represents.openBracket (h : s.Represents d) {b : Delimiter} (hb : b.isOpen = true)
    (o : Nat) : (s.openBracket b o).Represents (d.openBracket b o) where
  tokens := h.tokens_push (Token.closesNothing_nil.opening hb) rfl o
  positions := h.positions_push _ o
  frames := by
    have hlength : (s.push (.delimiter b) o).tokens.length = d.behind.reverse.length + 1 := by
      rw [ByteScanner.push, List.length_append, h.tokens, Token.length_settleArities]
      rfl
    have hlast : lastCall? s.tokens = lastCall? d.behind.reverse := by
      rw [h.tokens, lastCall?_settleArities]
    unfold ByteScanner.openBracket
    dsimp only
    rw [hlength, hlast]
    exact (behind_push d _ o).symm ▸ h.frames.opening hb o
  opened := congrArg (_ :: ·) h.opened

/-- The token at a place and what is settled of it. -/
theorem Represents.index_tokens (h : s.Represents d) {gone rest : List (Located R)}
    {l : Located R} (hd : d.tokens = gone ++ l :: rest) :
    ∃ ts, index s.tokens rest.length = .ok (Token.settleArity ts l.token) := by
  have hget : d.behind.reverse[rest.length]? = some l.token := by
    rw [Draft.behind, hd, List.map_append, List.map_cons, List.reverse_append, List.reverse_cons,
      List.append_assoc, List.getElem?_append_right (by simp)]
    simp
  unfold index
  rw [h.tokens, Token.getElem?_settleArities, hget]
  exact ⟨_, rfl⟩

theorem Represents.index_positions (h : s.Represents d) {gone rest : List (Located R)}
    {l : Located R} (hd : d.tokens = gone ++ l :: rest) :
    index s.positions rest.length = .ok l.offset := by
  rw [h.positions, hd]
  simp only [List.map_append, List.map_cons, List.reverse_append, List.reverse_cons,
    List.append_assoc, List.singleton_append]
  have := index_append (rest.map (·.offset)).reverse (gone.map (·.offset)).reverse l.offset
  rwa [List.length_reverse, List.length_map] at this

/-- Taking back tokens that are no brackets and no commas. -/
theorem Represents.truncate (h : s.Represents d) {gone : List (Located R)}
    (hd : d.tokens = gone ++ d'.tokens) (hgone : ∀ t ∈ gone, t.token.isDelimiter = false)
    (ho : d'.opened = d.opened) : (s.truncate d'.tokens.length).Represents d' := by
  have hbehind : d.behind.reverse = d'.behind.reverse ++ (gone.map (·.token)).reverse := by
    rw [Draft.behind, hd, List.map_append, List.reverse_append]
    rfl
  have hsegment : ∀ t ∈ (gone.map (·.token)).reverse, t.isDelimiter = false := by
    intro t ht
    obtain ⟨l, hl, rfl⟩ := List.mem_map.1 (List.mem_reverse.1 ht)
    exact hgone l hl
  have hlength : d'.tokens.length = d'.behind.reverse.length := by
    rw [List.length_reverse, Draft.behind, List.length_map]
  constructor
  · have hnested := (segment_of_forall hsegment).nested
    have htail : Token.ClosesNothing (gone.map (·.token)).reverse.tail := by
      refine Token.closesNothing_of_nested (segment_of_forall fun t ht => ?_).nested
      exact hsegment t (List.mem_of_mem_tail ht)
    rw [ByteScanner.truncate, h.tokens, hbehind,
      Token.settleArities_append (Token.closesNothing_of_nested hnested) fun _ => htail, hlength,
      ← Token.length_settleArities, List.take_left]
  · rw [ByteScanner.truncate, h.positions, hd, List.map_append, List.reverse_append]
    dsimp only
    rw [← List.length_map (f := fun l : Located R => l.offset), ← List.length_reverse,
      List.take_left]
  · have hframes := h.frames
    rw [hbehind] at hframes
    exact hframes.of_append hsegment
  · rw [ho]
    exact h.opened

/-! ## Signs and merging -/

theorem Represents.getLast? (h : s.Represents d) :
    s.tokens.getLast? = d.behind.head?.map (Token.settleArity []) := by
  rw [h.tokens, Token.getLast?_settleArities, List.getLast?_reverse]

theorem Represents.atOperandStart (h : s.Represents d) :
    s.atOperandStart = d.atOperandStart := by
  have hany : s.tokens.getLast?.any Token.endsValue = d.behind.head?.any Token.endsValue := by
    rw [h.getLast?, Option.any_map]
    exact congrArg (Option.any · _) (funext (Token.endsValue_settleArity []))
  unfold ByteScanner.atOperandStart
  rw [hany, Draft.any_endsValue_behind, Bool.not_not]

theorem Represents.push_operator (h : s.Represents d) (op : Operator) (o : Nat) :
    (s.push (.operator op) o).Represents (d.push (.operator op) o) :=
  h.push rfl rfl o

/-- Signs are settled in the same way. -/
theorem Represents.pushOperator (h : s.Represents d) (op : Operator) (o : Nat) :
    (s.pushOperator op o).Represents
      (d.pushOperator op o (Lexeme.operandFollows s.chars)) := by
  unfold ByteScanner.pushOperator Draft.pushOperator
  rw [h.atOperandStart]
  cases d.atOperandStart with
  | true =>
    cases op with
    | plus | increment => exact h
    | minus => exact h.push_operator .negate o
    | decrement => exact (h.push_operator .negate o).push_operator .negate (o + 1)
    | _ => exact h.push_operator _ o
  | false =>
    cases Lexeme.operandFollows s.chars <;> cases op with
    | decrement =>
      first
        | exact (h.push_operator .minus o).push_operator .negate (o + 1)
        | exact h.push_operator .decrement o
    | _ => exact h.push_operator _ o

theorem chars_pushOperator (s : ByteScanner R) (op : Operator) (o : Nat) :
    (s.pushOperator op o).chars = s.chars := by
  unfold ByteScanner.pushOperator
  split <;> rfl

/-- Whether an expression starts behind some of the tokens. -/
theorem Represents.isExpressionStart (h : s.Represents d) {gone rest : List (Located R)}
    (hd : d.tokens = gone ++ rest) :
    isExpressionStart s.tokens rest.length = .ok (Draft.startsExpression rest) := by
  cases rest with
  | nil => rfl
  | cons l rest =>
    obtain ⟨ts, hindex⟩ := h.index_tokens hd
    rw [List.length_cons, ByteScanner.isExpressionStart, hindex]
    change Except.ok _ = Except.ok l.token.opensExpression
    cases l.token <;> rfl

variable [Scalar R]

omit [Scalar R] in
theorem real?_settleArity (ts : List (Token R)) (t : Token R) :
    real? (Token.settleArity ts t) = real? t := by
  cases t <;> rfl

omit [Scalar R] in
theorem isMinus?_settleArity (ts : List (Token R)) (t : Token R) :
    Draft.isMinus? (Token.settleArity ts t) = Draft.isMinus? t := by
  cases t <;> rfl

omit [Scalar R] in
/-- Whether an expression starts with the sign of a negative operand. -/
theorem Represents.isLeadingSign (h : s.Represents d) {gone rest : List (Located R)}
    {l : Located R} (hd : d.tokens = gone ++ l :: rest) :
    isLeadingSign s.tokens rest.length =
      .ok (l.token.isNegation && Draft.startsExpression rest) := by
  have hd' : d.tokens = (gone ++ [l]) ++ rest := by
    rw [hd, List.append_assoc]
    rfl
  obtain ⟨ts, hindex⟩ := h.index_tokens hd
  unfold ByteScanner.isLeadingSign
  rw [hindex]
  simp only [bind, Except.bind]
  cases hl : l.token with
  | operator op =>
    cases op with
    | negate => exact h.isExpressionStart hd'
    | _ => rfl
  | _ => rfl

/-- What merging takes back, with the number of the tokens before it. -/
theorem Represents.mergeablePrefix_eq (h : s.Represents d) :
    mergeablePrefix s.tokens =
      .ok (d.mergeable?.map fun m => (m.before.tokens.length, m.real, m.negative)) := by
  unfold mergeablePrefix Draft.mergeable?
  rw [h.length_tokens]
  match ht : d.tokens with
  | [] => rfl
  | [_] => rfl
  | ⟨t, o⟩ :: ⟨u, o'⟩ :: rest =>
    obtain ⟨_, hsign⟩ := h.index_tokens (show d.tokens = [] ++ ⟨t, o⟩ :: ⟨u, o'⟩ :: rest from ht)
    obtain ⟨_, hreal⟩ := h.index_tokens (show d.tokens = [⟨t, o⟩] ++ ⟨u, o'⟩ :: rest from ht)
    have hstart :=
      h.isExpressionStart (show d.tokens = [⟨t, o⟩, ⟨u, o'⟩] ++ rest from ht)
    have hn : ¬ rest.length + 1 + 1 < 2 := by omega
    simp only [List.length_cons] at hsign ⊢
    simp only [if_neg hn, Nat.add_sub_cancel, Nat.reduceSubDiff, hsign, hreal, bind, Except.bind,
      isMinus?_settleArity, real?_settleArity]
    cases u with
    | number v =>
      dsimp only [real?]
      cases Draft.isMinus? t with
      | none => rfl
      | some m =>
        cases rest with
        | nil => rfl
        | cons l rest =>
          have hlead := h.isLeadingSign
            (show d.tokens = [⟨t, o⟩, ⟨.number v, o'⟩] ++ l :: rest from ht)
          obtain ⟨l, o''⟩ := l
          dsimp only
          rw [if_pos (by simp), hstart, List.length_cons, Nat.add_sub_cancel, hlead]
          by_cases hl : l = .operator .negate
          · subst hl
            -- No expression starts behind the sign itself.
            have hsign : (Token.operator .negate : Token R).isNegation = true := rfl
            have hbehind : Draft.startsExpression (⟨.operator .negate, o''⟩ :: rest) = false := rfl
            rw [hsign, hbehind, Bool.true_and]
            dsimp only
            cases Draft.startsExpression rest <;> rfl
          · have hnegation : l.isNegation = false := by
              cases l with
              | operator op => exact decide_eq_false fun hop => hl (congrArg _ hop)
              | _ => rfl
            rw [hnegation]
            cases Draft.startsExpression (⟨l, o''⟩ :: rest) <;> simp [hl]
    | _ => cases Draft.isMinus? t <;> rfl

/-- The literal that is merged stands where the first of the tokens taken back stood. -/
theorem exists_of_mergeable? {m : Draft.Merge R} (h : d.mergeable? = some m) :
    ∃ gone l, d.tokens = gone ++ l :: m.before.tokens ∧ l.offset = m.offset := by
  unfold Draft.mergeable? at h
  split at h
  · rename_i t ot v o ts ht
    split at h
    · rename_i o' ts' _
      obtain ⟨-, h⟩ := Option.ite_none_right_eq_some.1 h
      rw [← Option.some.inj h]
      exact ⟨[⟨t, ot⟩, ⟨.number v, o⟩], ⟨.operator .negate, o'⟩, ht, rfl⟩
    · obtain ⟨-, h⟩ := Option.ite_none_right_eq_some.1 h
      rw [← Option.some.inj h]
      exact ⟨[⟨t, ot⟩], ⟨.number v, o⟩, ht, rfl⟩
    · cases h
  · cases h

/-! ## Outcomes -/

/-- The scanner refuses the text as the lexeme does, or represents the draft at the cursor behind
the lexeme. -/
inductive Agrees : Checked (ByteScanner R) → Except LexError (Draft R × Cursor) → Prop where
  | refused (e : LexError) : Agrees (.error (.refused e)) (.error e)
  | ok {s : ByteScanner R} {d : Draft R} {c : Cursor} (h : s.Represents d) (hc : s.chars = c) :
      Agrees (.ok s) (.ok (d, c))

variable {text : String} {t : Token R}

/-- Merging puts a literal in the place of the tokens taken back. -/
theorem Represents.agrees_merge (h : s.Represents d) {m : Draft.Merge R}
    (hm : d.mergeable? = some m) (z : ComplexNumber R) :
    Agrees (s.merge m.before.tokens.length (.complex z))
      (.ok (m.before.push (.complex z) m.offset, s.chars)) := by
  obtain ⟨gone, l, hd, ho⟩ := exists_of_mergeable? hm
  obtain ⟨ts, hts, hopened, -, htaken⟩ := Draft.mergeable?_eq_some hm
  unfold merge
  rw [h.index_positions hd, ho]
  refine .ok ((h.truncate hts (fun t ht => ?_) hopened).push rfl rfl _) rfl
  rcases htaken t ht with ⟨v, hv⟩ | ⟨op, hop⟩
  · rw [hv]
    rfl
  · rw [hop]
    rfl

theorem Represents.agrees_pushImaginary (h : s.Represents d) (v : R) (o : Nat) :
    Agrees (s.pushImaginary v o)
      (.ok (d.pushImaginary v o (Lexeme.summandEnds s.chars), s.chars)) := by
  unfold ByteScanner.pushImaginary Draft.pushImaginary
  cases Lexeme.summandEnds s.chars with
  | false => exact .ok (h.push rfl rfl o) rfl
  | true =>
    rw [if_pos rfl, h.mergeablePrefix_eq]
    cases hm : d.mergeable? with
    | none => exact .ok (h.push rfl rfl o) rfl
    | some m => exact h.agrees_merge hm _

omit [Scalar R] in
/-- Taking back the last token. -/
theorem truncate_push (h : s.positions.length = s.tokens.length) (t : Token R) (o : Nat) :
    (s.push t o).truncate ((s.push t o).tokens.length - 1) = s := by
  have hlength : (s.push t o).tokens.length - 1 = s.tokens.length := by simp [ByteScanner.push]
  rw [hlength]
  unfold ByteScanner.truncate ByteScanner.push
  dsimp only
  rw [List.take_left, ← h, List.take_left]

omit [Scalar R] in
theorem getLast?_push (s : ByteScanner R) (t : Token R) (o : Nat) :
    (s.push t o).tokens.getLast? = some t :=
  List.getLast?_concat

omit [Scalar R] in
theorem index_push (s : ByteScanner R) (t : Token R) (o : Nat) :
    index (s.push t o).positions ((s.push t o).positions.length - 1) = .ok o := by
  have hlength : (s.push t o).positions.length - 1 = s.positions.length := by
    simp [ByteScanner.push]
  rw [hlength]
  exact index_append s.positions [] o

/-- The angle behind a magnitude. -/
theorem Represents.agrees_angle (h : s.Represents d) {start sign : Cursor} {v : R}
    (hsign : (Cursor.start text).Reaches sign) :
    Agrees (angle text (s.push (.number v) start.offset) sign) (Lexeme.angle d start v sign) := by
  have hc : sign.Reaches (Numeral.sign ((sign.drop 1).skip isBlank)).2 :=
    ((Cursor.reaches_drop sign 1).trans (Cursor.reaches_skip _ _)).trans (Numeral.reaches_sign _)
  unfold ByteScanner.angle Lexeme.angle
  dsimp only
  rw [offset_of_reaches (hsign.trans hc)]
  split
  · rename_i hstart
    rw [parseNumber_eq (hsign.trans hc) hstart]
    cases (Numeral.scan (Numeral.sign ((sign.drop 1).skip isBlank)).2 :
      Except LexError (R × Cursor)) with
    | error e => exact .refused e
    | ok ac =>
      obtain ⟨a, c⟩ := ac
      have hmove := h.moveTo (Lexeme.skipDegree c)
      have hpush : (s.push (.number v) start.offset).moveTo (Lexeme.skipDegree c) =
          (s.moveTo (Lexeme.skipDegree c)).push (.number v) start.offset := rfl
      -- The magnitude is the last token; its place is that of the literal.
      simp only [lift_ok, bind, Except.bind, hpush, getLast?_push, Option.bind_some, real?,
        index_push, truncate_push hmove.length_positions]
      exact .ok (hmove.push rfl rfl _) rfl
  · rw [malformed_of_reaches hsign hc]
    exact .refused _

/-- The degree sign behind an angle. -/
theorem Represents.agrees_degrees (h : s.Represents d) (v : R) (o : Nat) (sign : Cursor) :
    Agrees ((s.push (.number v) o).degrees sign) (Lexeme.degrees d v sign) := by
  have hmove := h.moveTo (sign.drop 1)
  have hpush : (s.push (.number v) o).moveTo (sign.drop 1) =
      (s.moveTo (sign.drop 1)).push (.number v) o := rfl
  have hlength : (s.push (.number v) o).tokens.length =
      ((s.moveTo (sign.drop 1)).push (.number v) o).tokens.length := rfl
  unfold ByteScanner.degrees Lexeme.degrees
  simp only [getLast?_push, Option.bind_some, real?, hpush, hlength, bind, Except.bind,
    truncate_push hmove.length_positions, hmove.mergeablePrefix_eq]
  cases hm : d.mergeable? with
  | none => exact .refused _
  | some m => exact hmove.agrees_merge hm _

/-- What follows a real literal. -/
theorem Represents.agrees_afterNumber (h : s.Represents d) {start : Cursor} (v : R)
    (hc : (Cursor.start text).Reaches s.chars) :
    Agrees (afterNumber text (s.push (.number v) start.offset))
      (Lexeme.numberSuffix d start v s.chars) := by
  have hskip := hc.trans (Cursor.reaches_skip s.chars isBlank)
  have hchars : (s.push (.number v) start.offset).chars = s.chars := rfl
  unfold ByteScanner.afterNumber Lexeme.numberSuffix
  rw [hchars, scanUnit_eq hc]
  cases hu : UnitSuffix.scan? s.chars with
  | some uc =>
    obtain ⟨u, c⟩ := uc
    have hreach : (Cursor.start text).Reaches c := hc.trans (UnitSuffix.passes_scan? hu).1
    simp only [bind, Except.bind, offset_of_reaches hreach]
    exact .ok (((h.moveTo c).push (t := .number v) rfl rfl start.offset).push rfl rfl _) rfl
  | none =>
    simp only [bind, Except.bind]
    by_cases hangle : (s.chars.skip isBlank).nextIs (· == Lexeme.angleSign) = true
    · rw [if_pos hangle, if_pos hangle]
      exact h.agrees_angle hskip
    rw [if_neg hangle, if_neg hangle]
    by_cases hdegree : (s.chars.skip isBlank).nextIs (· == UnitSuffix.degreeSign) = true
    · rw [if_pos hdegree, if_pos hdegree]
      exact h.agrees_degrees v _ _
    · rw [if_neg hdegree, if_neg hdegree]
      exact .ok (h.push (t := .number v) rfl rfl _) rfl

/-- A number with what follows it. -/
theorem Represents.agrees_number (h : s.Represents d)
    (hc : (Cursor.start text).Reaches s.chars) (hs : s.chars.nextIs Numeral.isStart = true) :
    Agrees (number text s) (Lexeme.number d s.chars) := by
  unfold ByteScanner.number Lexeme.number
  dsimp only
  rw [parseNumber_eq hc hs]
  cases hv : (Numeral.scan s.chars : Except LexError (R × Cursor)) with
  | error e => exact .refused e
  | ok vc =>
    obtain ⟨v, c⟩ := vc
    have hreach : (Cursor.start text).Reaches c := hc.trans (Numeral.passes_scan hs hv).1
    simp only [lift_ok, bind, Except.bind]
    by_cases hi : Lexeme.imaginaryUnitAt c = true
    · rw [if_pos hi, if_pos hi]
      exact (h.moveTo (c.drop 1)).agrees_pushImaginary v s.chars.offset
    · rw [if_neg hi, if_neg hi]
      exact (h.moveTo c).agrees_afterNumber v hreach

/-- A word. -/
theorem Represents.agrees_word (h : s.Represents d)
    (hc : (Cursor.start text).Reaches s.chars) :
    Agrees (word text s) (.ok (Lexeme.word d s.chars)) := by
  have hmove := h.moveTo (s.chars.span isNameChar).2
  unfold ByteScanner.word Lexeme.word Lexeme.pushWord
  dsimp only
  rw [Cursor.takeWhile_eq]
  dsimp only
  rw [slice_of_reaches hc (Cursor.reaches_span _ _), Cursor.upTo_eq (Cursor.rest_eq_span _ _)]
  generalize String.ofList (s.chars.span isNameChar).1 = w
  simp only [bind, Except.bind]
  cases Operator.ofWord? w with
  | some op => exact .ok (hmove.pushOperator op _) (chars_pushOperator _ op _)
  | none =>
    cases Lexeme.truth? w with
    | some b => exact .ok (hmove.push (t := .truth b) rfl rfl _) rfl
    | none =>
      cases (Lexeme.scalarWord? w : Option R) with
      | some v => exact .ok (hmove.push (t := .number v) rfl rfl _) rfl
      | none =>
        by_cases hcall : (s.chars.span isNameChar).2.nextIs UnitSuffix.isCallBracket = true
        · simp only [if_pos hcall]
          exact .ok (hmove.push (t := .call w 0) rfl rfl _) rfl
        simp only [if_neg hcall]
        by_cases hi : w = "i"
        · simp only [if_pos hi]
          exact hmove.agrees_pushImaginary 1 s.chars.offset
        · simp only [if_neg hi]
          exact .ok (hmove.push (t := .name w) rfl rfl _) rfl

omit [Scalar R] in
/-- An operator. -/
theorem Represents.agrees_operator (h : s.Represents d)
    (hc : (Cursor.start text).Reaches s.chars) (x : Char) :
    Agrees (operator text s x) (Lexeme.operator d s.chars x) := by
  unfold ByteScanner.operator Lexeme.operator
  dsimp only
  rw [firstOperator_eq hc]
  cases Lexeme.operator? s.chars with
  | some oc => exact .ok ((h.moveTo oc.2).pushOperator oc.1 _) (chars_pushOperator _ _ _)
  | none => exact .refused _

omit [Scalar R] in
/-- A closing bracket settles the call whose arguments it ends. -/
theorem Represents.agrees_closeBracket (h : s.Represents d) (hd : d.Settled) (b : Delimiter)
    (o : Nat) :
    Agrees (s.closeBracket b o) ((d.closeBracket b o).map fun d' => (d', s.chars)) := by
  have hopened := h.opened
  have hframes := h.frames
  unfold ByteScanner.closeBracket Draft.closeBracket
  rw [← hopened]
  cases hf : s.frames with
  | nil => exact .refused _
  | cons f fs =>
    rw [hf] at hframes hopened
    rw [List.map_cons]
    dsimp only
    by_cases hb : f.symbol.closing? = some b
    swap
    · rw [if_neg hb, if_neg hb]
      exact .refused _
    rw [if_pos hb, if_pos hb]
    have hclose := hframes.close hb
    generalize hword : d.behind.reverse = ts at hframes hclose
    cases hframes with
    | cons hts ho hw hfunction hstart =>
      rename_i ts w
      -- Inside the brackets every call has brackets of its own.
      have hcalls : ∀ u g n v, w = u ++ .call g n :: v →
          ∃ b x, b.isOpen = true ∧ v = .delimiter b :: x := by
        rintro u g n v rfl
        refine hd.opens (u := ts ++ .delimiter f.symbol :: u) (f := g) (n := n) ?_
        rw [hword, List.append_assoc]
        rfl
      obtain ⟨us, hset, hus⟩ := setArity_eq ts hb hw hcalls
      have htokens : s.tokens = Token.settleArities (ts ++ .delimiter f.symbol :: w) := by
        rw [h.tokens, hword]
      have hcount : (if f.start < s.tokens.length then f.commas + 1 else 0) =
          if w.isEmpty then 0 else f.commas + 1 := by
        rw [htokens, Token.length_settleArities, hstart, List.length_append, List.length_cons]
        cases w with
        | nil => simp
        | cons x w => simp
      rw [hcount, hfunction, htokens, hset]
      refine .ok ⟨?_, ?_, ?_, ?_⟩ rfl
      · have hbehind := behind_push d (.delimiter b) o
        rw [hword] at hbehind
        exact hus.trans (congrArg _ hbehind.symm)
      · exact h.positions_push _ o
      · have hbehind := behind_push d (.delimiter b) o
        rw [hword] at hbehind
        exact hbehind ▸ hclose
      · rfl

omit [Scalar R] in
/-- A bracket or comma. -/
theorem Represents.agrees_delimiter (h : s.Represents d) {b : Delimiter}
    (hd : b.isClose = true → d.Settled) :
    Agrees (s.delimiter b) (Lexeme.delimiter d s.chars b) := by
  have hmove := h.moveTo (s.chars.drop 1)
  unfold ByteScanner.delimiter Lexeme.delimiter
  dsimp only
  by_cases ho : b.isOpen = true
  · rw [if_pos ho, if_pos ho]
    exact .ok (hmove.openBracket ho _) rfl
  rw [if_neg ho, if_neg ho]
  by_cases hc : b.isClose = true
  · rw [if_pos hc, if_pos hc]
    have hclose := hmove.agrees_closeBracket (hd hc) b s.chars.offset
    cases hb : d.closeBracket b s.chars.offset with
    | error e => rwa [hb] at hclose
    | ok d' => rwa [hb] at hclose
  · rw [if_neg hc, if_neg hc]
    obtain rfl : b = .comma := by cases b <;> first | rfl | exact absurd rfl ho | exact absurd rfl hc
    exact .ok (hmove.comma _) rfl

omit [Scalar R] in
/-- A degree sign that follows no number directly. -/
theorem Represents.agrees_degreeSign (h : s.Represents d)
    (hc : (Cursor.start text).Reaches s.chars) :
    Agrees (degreeSign text s) (Lexeme.temperature d s.chars) := by
  unfold ByteScanner.degreeSign Lexeme.temperature
  dsimp only
  rw [scanUnit_eq hc]
  cases UnitSuffix.scan? s.chars with
  | some uc => exact .ok ((h.moveTo uc.2).push (t := .unit uc.1) rfl rfl _) rfl
  | none => exact .refused _

/-- One lexeme. -/
theorem agrees_step {x : Char} {xs : List Char} (h : s.Represents d)
    (hc : (Cursor.start text).Reaches s.chars) (hb : d.BracketedAt s.chars)
    (hx : s.chars.rest = x :: xs) : Agrees (step text s x) (Lexeme.step d s.chars x) := by
  unfold ByteScanner.step Lexeme.step
  by_cases hblank : isBlank x = true
  · rw [if_pos hblank, if_pos hblank]
    exact .ok (h.moveTo _) rfl
  rw [if_neg hblank, if_neg hblank]
  by_cases hnumber : Numeral.isStart x = true
  · rw [if_pos hnumber, if_pos hnumber]
    exact h.agrees_number hc (by rw [Cursor.nextIs_of_rest hx, hnumber])
  rw [if_neg hnumber, if_neg hnumber]
  by_cases hword : isNameStart x = true
  · rw [if_pos hword, if_pos hword]
    exact h.agrees_word hc
  rw [if_neg hword, if_neg hword]
  cases hdelimiter : Delimiter.ofChar? x with
  | some b =>
    refine h.agrees_delimiter fun hclose => hb.settled ?_
    -- A bracket that closes is none that a call waits for.
    obtain rfl : b.char = x := by simpa using List.find?_some hdelimiter
    rw [Cursor.nextIs_of_rest hx]
    cases b <;> first | rfl | cases hclose
  | none =>
    dsimp only
    by_cases hdegree : x = UnitSuffix.degreeSign
    · rw [if_pos hdegree, if_pos hdegree]
      exact h.agrees_degreeSign hc
    rw [if_neg hdegree, if_neg hdegree]
    by_cases hangle : x = Lexeme.angleSign
    · rw [if_pos hangle, if_pos hangle]
      exact .refused _
    · rw [if_neg hangle, if_neg hangle]
      exact h.agrees_operator hc x

/-! ## Whole texts -/

/-- The outcome of a run: the refusal of the text, or a scanner at its end that represents the
draft. -/
inductive RunAgrees : Checked (ByteScanner R) → Except LexError (Draft R) → Prop where
  | refused (e : LexError) : RunAgrees (.error (.refused e)) (.error e)
  | ok {s : ByteScanner R} {d : Draft R} (h : s.Represents d) : RunAgrees (.ok s) (.ok d)

/-- What a lexeme keeps of the scanner, the draft and the place in the text. -/
structure Invariant (text : String) (s : ByteScanner R) (d : Draft R) : Prop where
  /-- The tokens. -/
  represents : s.Represents d
  /-- The cursor. -/
  reaches : (Cursor.start text).Reaches s.chars
  /-- The brackets. -/
  bracketed : d.BracketedAt s.chars

omit [Scalar R] in
theorem invariant_start (text : String) :
    Invariant text (start text : ByteScanner R) Draft.empty :=
  ⟨represents_start text, Cursor.Reaches.refl _, Draft.settled_empty.bracketedAt _⟩

/-- One lexeme keeps the invariant and takes a character. -/
theorem Invariant.step {x : Char} {xs : List Char} (h : Invariant text s d)
    (hx : s.chars.rest = x :: xs) (hs : ByteScanner.step text s x = .ok s') :
    ∃ d', Lexeme.step d s.chars x = .ok (d', s'.chars) ∧ Invariant text s' d' ∧
      s.chars.Passes s'.chars := by
  have hagrees := agrees_step h.represents h.reaches h.bracketed hx
  rw [hs] at hagrees
  generalize hd : Lexeme.step d s.chars x = o at hagrees
  cases hagrees with
  | ok hrep hc =>
    rename_i d' c
    subst hc
    have hpasses := Lexeme.passes_step hx hd
    exact ⟨d', rfl, ⟨hrep, h.reaches.trans hpasses.1, Lexeme.bracketedAt_step h.bracketed hx hd⟩,
      hpasses⟩

/-- A run comes to the end of the text, or refuses it. -/
theorem agrees_run (h : Invariant text s d) :
    RunAgrees (run text s) (readLexemes d s.chars) := by
  fun_induction run text s generalizing d with
  | case1 s hx =>
    rw [readLexemes_nil d hx]
    exact .ok h.represents
  | case2 s x xs hx e hs =>
    have hagrees := agrees_step h.represents h.reaches h.bracketed hx
    rw [readLexemes_cons d hx]
    rw [hs] at hagrees
    generalize Lexeme.step d s.chars x = o at hagrees
    cases hagrees with
    | refused e => exact .refused e
  | case3 s x xs hx s' hs hlt ih =>
    obtain ⟨d', hd, hinv, -⟩ := h.step hx hs
    rw [readLexemes_cons d hx, hd]
    exact ih hinv
  | case4 s x xs hx s' hs hlt =>
    -- A lexeme takes a character, so the run is never stuck.
    obtain ⟨-, -, -, hpasses⟩ := h.step hx hs
    exact absurd hpasses.2 hlt

omit [Scalar R] in
/-- The token at an index is negatable if it was before the numbers of arguments were settled. -/
theorem Represents.any_negatable (h : s.Represents d) (i : Nat) :
    s.tokens[i]?.any negatable = d.tokens.reverse[i]?.any (negatable ·.token) := by
  rw [h.tokens, Token.getElem?_settleArities, Draft.behind, ← List.map_reverse,
    List.getElem?_map, Option.any_map, Option.any_map]
  exact congrArg (Option.any · _) (funext fun l => Token.negatable_settleArity _ l.token)

omit [Scalar R] in
/-- The search for negations with nothing to negate finds every token and its place. -/
theorem Represents.checkNegations_eq (h : s.Represents d) {ts pre : List (Located R)}
    (hd : d.tokens.reverse = pre ++ ts) :
    s.checkNegations pre.length (Token.settleArities (ts.map (·.token))) =
      match bareNot? ts with
      | some o => .error (.refused (.missingNotOperand o))
      | none => .ok () := by
  induction ts generalizing pre with
  | nil => rfl
  | cons t ts ih =>
    have hnot : isNot (Token.settleArity (ts.map (·.token)) t.token) = isNot t.token := by
      cases t.token <;> rfl
    have hnext : s.tokens[pre.length + 1]?.any negatable = ts.head?.any (negatable ·.token) := by
      rw [h.any_negatable, hd, List.getElem?_append_right (Nat.le_add_right _ _),
        Nat.add_sub_cancel_left, List.getElem?_cons_succ, List.head?_eq_getElem?]
    rw [List.map_cons, Token.settleArities, checkNegations, bareNot?, hnot, hnext]
    by_cases hbare : (isNot t.token && !ts.head?.any (negatable ·.token)) = true
    · have hplace : d.tokens = ts.reverse ++ t :: pre.reverse := by
        rw [← List.reverse_reverse d.tokens, hd]
        simp
      have hindex := h.index_positions hplace
      rw [List.length_reverse] at hindex
      rw [if_pos hbare, if_pos hbare, hindex]
      rfl
    · rw [if_neg hbare, if_neg hbare]
      have htail : d.tokens.reverse = (pre ++ [t]) ++ ts := by
        rw [hd, List.append_assoc]
        rfl
      have hrest := ih htail
      rwa [List.length_append] at hrest

/-- The scanner by offsets finds the tokens of a text or refuses it for the same cause. -/
theorem tokenize_eq (text : String) :
    (tokenize text : Checked (List (Token R))) = lift (SymbolicAlgebra.tokenize text) := by
  have hrun : RunAgrees (run text (start text)) (readLexemes Draft.empty (Cursor.start text)) :=
    agrees_run (R := R) (invariant_start text)
  unfold ByteScanner.tokenize SymbolicAlgebra.tokenize
  generalize (run text (start text) : Checked (ByteScanner R)) = r at hrun ⊢
  generalize (readLexemes Draft.empty (Cursor.start text) : Except LexError (Draft R)) = o at hrun ⊢
  cases hrun with
  | refused e => rfl
  | ok h =>
    rename_i s d
    simp only [bind, Except.bind]
    have hopened := h.opened
    cases hf : s.frames with
    | cons f fs =>
      rw [hf, List.map_cons] at hopened
      rw [← hopened]
      rfl
    | nil =>
      rw [hf, List.map_nil] at hopened
      rw [← hopened]
      have htokens : s.tokens = Token.settleArities (d.tokens.reverse.map (·.token)) := by
        rw [h.tokens, Draft.behind, List.map_reverse]
      have hcheck := h.checkNegations_eq (List.nil_append d.tokens.reverse).symm
      rw [← htokens, List.length_nil] at hcheck
      dsimp only
      rw [hcheck]
      cases bareNot? d.tokens.reverse with
      | some o => rfl
      | none => exact congrArg Except.ok htokens

end ByteScanner

end SymbolicAlgebra
