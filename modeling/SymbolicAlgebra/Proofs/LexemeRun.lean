import SymbolicAlgebra.Proofs.NameTokens

set_option autoImplicit false

/-!
# Reading one lexeme after another

The places of the tokens matter only for messages. Without them the state of the reading
is the word of tokens read so far and the brackets still open (`View R`), and each lexeme moves
from one such state to the next. `Reads v s rest v'` says that in front of the text `rest` the text
`s` moves the view `v` to the view `v'`; two texts are put together by `Reads.trans`.

What a lexeme is read as depends on the text behind it, so each of the rules for blanks, brackets,
commas, symbols of operators and words asks something of that text.
-/

namespace SymbolicAlgebra

open Text (Cursor isBlank isLetter isNumeral isNameStart isNameChar isDigit byteLength)

variable {R : Type}

/-! ## Views of drafts -/

/-- The tokens read so far, the last one first, and the brackets still open, the innermost
first. -/
structure View (R : Type) where
  /-- The tokens. -/
  words : List (Token R)
  /-- The open brackets. -/
  opened : List Delimiter

namespace View

/-- Nothing has been read. -/
def empty : View R := ⟨[], []⟩

/-- The view with one more token. -/
def push (v : View R) (t : Token R) : View R := { v with words := t :: v.words }

/-- The view with a word of tokens behind it. -/
def append (v : View R) (w : List (Token R)) : View R :=
  { v with words := w.reverse ++ v.words }

/-- Whether the next token would start an operand. -/
def atOperandStart (v : View R) : Bool := !v.words.head?.any (·.endsValue)

/-- Whether an expression may start behind the tokens. -/
def startsExpression (v : View R) : Bool := v.words.head?.all (·.opensExpression)

@[simp] theorem words_push (v : View R) (t : Token R) : (v.push t).words = t :: v.words := rfl

@[simp] theorem opened_push (v : View R) (t : Token R) : (v.push t).opened = v.opened := rfl

@[simp] theorem append_nil (v : View R) : v.append [] = v := rfl

@[simp] theorem append_cons (v : View R) (t : Token R) (w : List (Token R)) :
    v.append (t :: w) = (v.push t).append w := by
  simp [append, push]

@[simp] theorem append_append (v : View R) (w w' : List (Token R)) :
    v.append (w ++ w') = (v.append w).append w' := by
  simp [append]

@[simp] theorem opened_append (v : View R) (w : List (Token R)) :
    (v.append w).opened = v.opened := rfl

@[simp] theorem atOperandStart_push (v : View R) (t : Token R) :
    (v.push t).atOperandStart = !t.endsValue := rfl

@[simp] theorem startsExpression_push (v : View R) (t : Token R) :
    (v.push t).startsExpression = t.opensExpression := rfl

/-- A token that opens an expression ends no operand. -/
theorem atOperandStart_of_startsExpression {v : View R} (h : v.startsExpression = true) :
    v.atOperandStart = true := by
  obtain ⟨ws, bs⟩ := v
  cases ws with
  | nil => rfl
  | cons t ws =>
    change t.opensExpression = true at h
    change (!t.endsValue) = true
    cases t with
    | delimiter b => simpa [Token.opensExpression, Token.endsValue] using h
    | operator op => cases op <;> first | rfl | cases h
    | _ => cases h

end View

/-- The tokens of a draft without their places. -/
def Draft.view (d : Draft R) : View R := ⟨d.tokens.map (·.token), d.opened.map (·.1)⟩

namespace Draft

@[simp] theorem view_empty : (empty : Draft R).view = .empty := rfl

@[simp] theorem view_push (d : Draft R) (t : Token R) (o : Nat) :
    (d.push t o).view = d.view.push t := rfl

theorem view_openBracket (d : Draft R) (b : Delimiter) (o : Nat) :
    (d.openBracket b o).view =
      { d.view.push (.delimiter b) with opened := b :: d.view.opened } := rfl

theorem atOperandStart_view (d : Draft R) : d.view.atOperandStart = d.atOperandStart := by
  obtain ⟨ts, bs⟩ := d
  cases ts <;> rfl

theorem startsExpression_eq (ts : List (Located R)) (bs : List Delimiter) :
    startsExpression ts = View.startsExpression ⟨ts.map (·.token), bs⟩ := by
  cases ts <;> rfl

end Draft

/-- A run of characters with a property is read up to the first one without it. -/
theorem span_append {w rest : List Char} {p : Char → Bool} (hw : ∀ c ∈ w, p c = true)
    (hr : rest.head?.all (fun c => !p c) = true) (o : Nat) :
    (⟨o, w ++ rest⟩ : Cursor).span p = (w, ⟨o + byteLength w, rest⟩) := by
  have hnil : rest.takeWhile p = [] ∧ rest.dropWhile p = rest := by
    cases rest with
    | nil => exact ⟨rfl, rfl⟩
    | cons c cs =>
      have hc : p c = false := by simpa using hr
      simp [hc]
  simp only [Cursor.span, List.takeWhile_append_of_pos hw, List.dropWhile_append_of_pos hw,
    hnil, List.append_nil]

variable [Scalar R]

/-! ## Reading a text -/

/-- In front of the text `rest`, the text `s` moves the view `v` to the view `v'`. -/
def Reads (v : View R) (s rest : List Char) (v' : View R) : Prop :=
  ∀ (d : Draft R) (o : Nat), d.view = v →
    ∃ d' o', readLexemes d ⟨o, s ++ rest⟩ = readLexemes d' ⟨o', rest⟩ ∧ d'.view = v'

theorem Reads.nil (v : View R) (rest : List Char) : Reads v [] rest v :=
  fun d o h => ⟨d, o, rfl, h⟩

/-- Two texts are read one after the other. -/
theorem Reads.trans {v v' v'' : View R} {s s' rest : List Char}
    (h : Reads v s (s' ++ rest) v') (h' : Reads v' s' rest v'') :
    Reads v (s ++ s') rest v'' := by
  intro d o hd
  obtain ⟨d', o', he, hv⟩ := h d o hd
  obtain ⟨d'', o'', he', hv'⟩ := h' d' o' hv
  refine ⟨d'', o'', ?_, hv'⟩
  rw [List.append_assoc, he, he']

/-- A lexeme is read before what follows it. -/
theorem readLexemes_of_step {d d' : Draft R} {o : Nat} {x : Char} {xs : List Char}
    {c : Cursor} (h : Lexeme.step d ⟨o, x :: xs⟩ x = .ok (d', c)) :
    readLexemes d ⟨o, x :: xs⟩ = readLexemes d' c := by
  rw [readLexemes_cons d rfl, h]
  rfl

/-- A text that one lexeme takes is read as that lexeme. -/
theorem Reads.of_step {v v' : View R} {s rest : List Char} {x : Char} {xs : List Char}
    (hs : s ++ rest = x :: xs)
    (h : ∀ (d : Draft R) (o : Nat), d.view = v →
      ∃ d' o', Lexeme.step d ⟨o, x :: xs⟩ x = .ok (d', ⟨o', rest⟩) ∧ d'.view = v') :
    Reads v s rest v' := by
  intro d o hd
  obtain ⟨d', o', hstep, hv⟩ := h d o hd
  refine ⟨d', o', ?_, hv⟩
  rw [hs]
  exact readLexemes_of_step hstep

/-! ## Blanks, brackets and commas -/

/-- A space is passed over. -/
theorem Reads.space (v : View R) (rest : List Char) : Reads v [' '] rest v :=
  .of_step rfl fun d o hd => ⟨d, o + 1, rfl, hd⟩

/-- An opening bracket is read as itself. -/
theorem Reads.openBracket (v : View R) {b : Delimiter} (hb : b.isOpen = true)
    (rest : List Char) :
    Reads v [b.char] rest { v.push (.delimiter b) with opened := b :: v.opened } := by
  refine .of_step rfl fun d o hd => ⟨d.openBracket b o, o + 1, ?_, ?_⟩
  · cases b <;> first | rfl | cases hb
  · rw [Draft.view_openBracket, hd]

/-- The partner of the innermost open bracket is read as itself. -/
theorem Reads.closeBracket {v : View R} {a b : Delimiter} {bs : List Delimiter}
    (hv : v.opened = a :: bs) (hab : a.closing? = some b) (rest : List Char) :
    Reads v [b.char] rest { v.push (.delimiter b) with opened := bs } := by
  refine .of_step rfl fun d o hd => ?_
  subst hd
  obtain ⟨ts, os⟩ := d
  match os, hv with
  | (a', k) :: os, hv =>
    obtain ⟨ha, rfl⟩ := List.cons.inj hv
    obtain rfl : a' = a := ha
    refine ⟨⟨⟨.delimiter b, o⟩ :: ts, os⟩, o + 1, ?_, rfl⟩
    cases a' <;> cases hab <;> rfl

/-- A comma is read as itself. -/
theorem Reads.comma (v : View R) (rest : List Char) :
    Reads v [','] rest (v.push (.delimiter .comma)) :=
  .of_step rfl fun d o hd => ⟨d.push (.delimiter .comma) o, o + 1, rfl, by
    rw [Draft.view_push, hd]⟩

/-! ## Symbols -/

namespace Lexeme

/-- Whether no symbol goes on in the text. -/
def endsSymbol (rest : List Char) : Bool := rest.head?.all fun c => !isOperatorChar c

/-- A character of a symbol starts an operator. -/
theorem step_of_isOperatorChar {x : Char} (hx : isOperatorChar x = true) (d : Draft R)
    (c : Cursor) : step d c x = operator d c x := by
  have hm : x ∈ "+-*/^%<>=!&|~:".toList := by
    simpa [isOperatorChar] using hx
  have hl : "+-*/^%<>=!&|~:".toList =
      ['+', '-', '*', '/', '^', '%', '<', '>', '=', '!', '&', '|', '~', ':'] := by decide
  rw [hl] at hm
  simp only [List.mem_cons, List.not_mem_nil, or_false] at hm
  rcases hm with rfl | rfl | rfl | rfl | rfl | rfl | rfl | rfl | rfl | rfl | rfl | rfl |
    rfl | rfl <;> rfl

/-- No symbol is longer than the characters of symbols ahead. -/
theorem operatorOfLength?_eq_none {w rest : List Char} {n o : Nat} (hn : w.length < n)
    (hr : endsSymbol rest = true) : operatorOfLength? ⟨o, w ++ rest⟩ n = none := by
  unfold operatorOfLength?
  rw [if_neg]
  rintro ⟨hl, hall⟩
  obtain ⟨k, rfl⟩ := Nat.exists_eq_add_of_lt hn
  cases rest with
  | nil =>
    rw [List.append_nil, List.length_take] at hl
    dsimp only at hl
    omega
  | cons c cs =>
    have hc : c ∈ (w ++ c :: cs).take (w.length + k + 1) := by
      rw [List.take_append, List.mem_append]
      right
      rw [show w.length + k + 1 - w.length = k + 1 by omega]
      exact List.mem_cons_self ..
    have := List.all_eq_true.1 hall c hc
    simp [endsSymbol, this] at hr

/-- A symbol with no further character of a symbol behind it is read as its operator. -/
theorem operator?_symbol {op : Operator} (hs : op.symbol.toList.all isOperatorChar = true)
    {rest : List Char} (hr : endsSymbol rest = true) (o : Nat) :
    operator? ⟨o, op.symbol.toList ++ rest⟩ =
      some (op, ⟨o + byteLength op.symbol.toList, rest⟩) := by
  have hself : operatorOfLength? ⟨o, op.symbol.toList ++ rest⟩ op.symbol.toList.length =
      some (op, ⟨o + byteLength op.symbol.toList, rest⟩) := by
    have hof : Operator.ofSymbol? op.symbol = some op := by cases op <;> decide
    unfold operatorOfLength?
    simp only [List.take_left', hs, and_self, ↓reduceIte, String.ofList_toList, hof,
      Option.map_some, Cursor.drop, List.drop_left']
  have hlong : ∀ n, op.symbol.toList.length < n →
      operatorOfLength? ⟨o, op.symbol.toList ++ rest⟩ n = none :=
    fun n hn => operatorOfLength?_eq_none hn hr
  have hlen : op.symbol.toList.length = 3 ∨ op.symbol.toList.length = 2 ∨
      op.symbol.toList.length = 1 := by
    cases op <;> first | decide | exact absurd hs (by decide)
  unfold operator?
  rcases hlen with h | h | h
  · rw [h] at hself
    simp [List.findSome?, hself]
  · rw [h] at hself
    simp [List.findSome?, hself, hlong 3 (by omega)]
  · rw [h] at hself
    simp [List.findSome?, hself, hlong 3 (by omega), hlong 2 (by omega)]

/-- In front of the text the symbol of the operator does not go on as a longer one. -/
def SymbolEnds (op : Operator) (rest : List Char) : Prop :=
  ∀ o, operator? ⟨o, op.symbol.toList ++ rest⟩ =
    some (op, ⟨o + byteLength op.symbol.toList, rest⟩)

theorem symbolEnds_of_endsSymbol {op : Operator}
    (hs : op.symbol.toList.all isOperatorChar = true) {rest : List Char}
    (hr : endsSymbol rest = true) : SymbolEnds op rest :=
  operator?_symbol hs hr

/-- A minus sign does not lengthen a negation or the sign of a fraction. -/
theorem symbolEnds_minus {op : Operator} (ho : op = .not ∨ op = .rational)
    {rest : List Char} (hr : endsSymbol rest = true) : SymbolEnds op ('-' :: rest) := by
  intro o
  have hlong : ∀ n, op.symbol.toList.length + 1 < n →
      operatorOfLength? ⟨o, op.symbol.toList ++ '-' :: rest⟩ n = none := by
    intro n hn
    have h := operatorOfLength?_eq_none (w := op.symbol.toList ++ ['-']) (o := o)
      (by simpa using hn) hr
    rwa [List.append_assoc] at h
  -- the symbol itself is found, and with the sign behind it there is none
  have hself : operatorOfLength? ⟨o, op.symbol.toList ++ '-' :: rest⟩
      op.symbol.toList.length = some (op, ⟨o + byteLength op.symbol.toList, '-' :: rest⟩) := by
    rcases ho with rfl | rfl <;> rfl
  have hsigned : operatorOfLength? ⟨o, op.symbol.toList ++ '-' :: rest⟩
      (op.symbol.toList.length + 1) = none := by
    rcases ho with rfl | rfl <;> rfl
  have hlen : op.symbol.toList.length = 1 ∨ op.symbol.toList.length = 2 := by
    rcases ho with rfl | rfl <;> decide
  unfold operator?
  rcases hlen with h | h <;> rw [h] at hself hsigned hlong
  · simp [List.findSome?, hself, hsigned, hlong 3 (by decide)]
  · simp [List.findSome?, hself, hsigned]

end Lexeme

/-- A symbol is read as its operator. -/
theorem Reads.symbol {v v' : View R} {op : Operator} {rest : List Char}
    (hs : op.symbol.toList.all Lexeme.isOperatorChar = true)
    (hr : Lexeme.SymbolEnds op rest)
    (h : ∀ (d : Draft R) (o : Nat), d.view = v →
      (d.pushOperator op o (Lexeme.operandFollows ⟨0, rest⟩)).view = v') :
    Reads v op.symbol.toList rest v' := by
  have hne : op.symbol.toList ≠ [] := by cases op <;> decide
  obtain ⟨x, xs, hx⟩ := List.exists_cons_of_ne_nil hne
  have hxc : Lexeme.isOperatorChar x = true := by
    rw [hx] at hs
    exact (Bool.and_eq_true_iff.1 hs).1
  have hcons : op.symbol.toList ++ rest = x :: (xs ++ rest) := by rw [hx, List.cons_append]
  refine .of_step hcons fun d o hd => ?_
  refine ⟨_, o + byteLength op.symbol.toList, ?_, h d o hd⟩
  rw [Lexeme.step_of_isOperatorChar hxc, Lexeme.operator, ← List.cons_append, ← hx, hr]
  rfl

namespace Draft

omit [Scalar R] in
/-- Behind an operand an operator is pushed as it is, unless it is a doubled sign before
another operand. -/
theorem view_pushOperator {d : Draft R} (hd : d.view.atOperandStart = false)
    {op : Operator} {b : Bool} (h : b = true → op ≠ .increment ∧ op ≠ .decrement) (o : Nat) :
    (d.pushOperator op o b).view = d.view.push (.operator op) := by
  rw [atOperandStart_view] at hd
  unfold pushOperator
  rw [hd]
  cases b
  · cases op <;> rfl
  · obtain ⟨hi, hj⟩ := h rfl
    cases op <;> first | rfl | exact absurd rfl hi | exact absurd rfl hj

end Draft

/-- Behind an operand the symbol of an operator is read as that operator. -/
theorem Reads.infixSymbol {v : View R} (hv : v.atOperandStart = false) {op : Operator}
    {rest : List Char} (hs : op.symbol.toList.all Lexeme.isOperatorChar = true)
    (hr : Lexeme.SymbolEnds op rest)
    (h : Lexeme.operandFollows ⟨0, rest⟩ = true → op ≠ .increment ∧ op ≠ .decrement) :
    Reads v op.symbol.toList rest (v.push (.operator op)) :=
  .symbol hs hr fun d o hd => by
    subst hd
    exact Draft.view_pushOperator hv h o

/-- A minus sign at the start of an operand negates. -/
theorem Reads.minusSign {v : View R} (hv : v.atOperandStart = true) {rest : List Char}
    (hr : Lexeme.endsSymbol rest = true) :
    Reads v ['-'] rest (v.push (.operator .negate)) := by
  have hs : Operator.minus.symbol.toList.all Lexeme.isOperatorChar = true := rfl
  refine .symbol hs (Lexeme.symbolEnds_of_endsSymbol hs hr) fun d o hd => ?_
  subst hd
  rw [Draft.atOperandStart_view] at hv
  unfold Draft.pushOperator
  rw [hv]
  rfl

/-- A negation of truth values is read as itself. -/
theorem Reads.tilde {v : View R} (hv : v.atOperandStart = true) {rest : List Char}
    (hr : Lexeme.SymbolEnds .not rest) :
    Reads v ['~'] rest (v.push (.operator .not)) := by
  have hs : Operator.not.symbol.toList.all Lexeme.isOperatorChar = true := rfl
  refine .symbol hs hr fun d o hd => ?_
  subst hd
  rw [Draft.atOperandStart_view] at hv
  unfold Draft.pushOperator
  rw [hv]
  rfl

/-! ## Words -/

namespace Lexeme

/-- Whether no word goes on in the text. -/
def endsWord (rest : List Char) : Bool := rest.head?.all fun c => !isNameChar c

/-- The characters of a word belong to names. -/
theorem isNameChar_of_isWord {w : List Char} (hw : isWord w = true) :
    ∀ c ∈ w, isNameChar c = true := by
  cases w with
  | nil => exact nofun
  | cons x xs =>
    simp only [isWord, Bool.and_eq_true, List.all_eq_true] at hw
    intro c hc
    rcases List.mem_cons.1 hc with rfl | hc
    · exact Text.isNameChar_of_isNameStart hw.1.2
    · exact hw.2 c hc

/-- A word is read up to the first character that does not belong to it. -/
theorem word_eq {w rest : List Char} (hw : isWord w = true) (hr : endsWord rest = true)
    (d : Draft R) (o : Nat) :
    word d ⟨o, w ++ rest⟩ =
      (pushWord d (String.ofList w) o ⟨o + byteLength w, rest⟩,
        ⟨o + byteLength w, rest⟩) := by
  rw [word, span_append (isNameChar_of_isWord hw) hr]

/-- The first character of a word starts a word. -/
theorem step_of_isWord {x : Char} {xs : List Char} (hw : isWord (x :: xs) = true)
    (d : Draft R) (c : Cursor) : step d c x = .ok (word d c) := by
  simp only [isWord, Bool.and_eq_true, Bool.not_eq_true'] at hw
  obtain ⟨⟨⟨hb, hn⟩, hx⟩, -⟩ := hw
  simp [step, hb, hn, hx]

/-- A word does not start like a symbol. -/
theorem endsSymbol_of_isWord {s : List Char} (h : isWord s = true) (rest : List Char) :
    endsSymbol (s ++ rest) = true := by
  cases s with
  | nil => cases h
  | cons x xs =>
    simp only [isWord, Bool.and_eq_true] at h
    obtain ⟨⟨-, hx⟩, -⟩ := h
    simp only [endsSymbol, List.cons_append, List.head?_cons, Option.all_some,
      Bool.not_eq_true']
    cases ho : isOperatorChar x with
    | false => rfl
    | true =>
      have hall : ("+-*/^%<>=!&|~:".toList.all fun y => !isNameStart y) = true := by
        decide +kernel
      have hno := List.all_eq_true.1 hall x (by simpa [isOperatorChar] using ho)
      simp [hx] at hno

/-- Two words stand for scalars. -/
theorem eq_of_scalarWord? {x : String} {a : R} (h : scalarWord? x = some a) :
    x = "NaN" ∨ x = "inf" := by
  unfold scalarWord? at h
  split at h
  · rename_i hx
    exact .inl hx
  · split at h
    · rename_i hx
      exact .inr hx
    · cases h

end Lexeme

/-- A word is read as what it stands for. -/
theorem Reads.word {v v' : View R} {x : String} {rest : List Char}
    (hx : isWord x.toList = true) (hr : Lexeme.endsWord rest = true)
    (h : ∀ (d : Draft R) (o o' : Nat), d.view = v →
      (Lexeme.pushWord d x o ⟨o', rest⟩).view = v') :
    Reads v x.toList rest v' := by
  have hne : x.toList ≠ [] := by
    intro hn
    rw [hn] at hx
    cases hx
  obtain ⟨c, cs, hc⟩ := List.exists_cons_of_ne_nil hne
  have hcons : x.toList ++ rest = c :: (cs ++ rest) := by rw [hc, List.cons_append]
  refine .of_step hcons fun d o hd => ?_
  refine ⟨_, o + byteLength x.toList, ?_, h d o (o + byteLength x.toList) hd⟩
  rw [Lexeme.step_of_isWord (hc ▸ hx), ← List.cons_append, ← hc, Lexeme.word_eq hx hr,
    String.ofList_toList]

/-- A word that stands for nothing else is pushed as a name. -/
theorem Lexeme.pushWord_eq {f : String} (hf : isFunctionName f = true) (d : Draft R)
    (o : Nat) (c : Cursor) :
    pushWord d f o c =
      (if c.nextIs UnitSuffix.isCallBracket then d.push (.call f 0) o
      else if f = "i" then d.pushImaginary 1 o (summandEnds c)
      else d.push (.name f) o) := by
  simp only [isFunctionName, Bool.and_eq_true, Option.isNone_iff_eq_none] at hf
  obtain ⟨⟨⟨-, ho⟩, ht⟩, hs⟩ := hf
  have hs' := (scalarWord?_eq_none_iff (R := R)).2 (Bool.and_eq_true_iff.2 hs)
  simp only [pushWord, ho, ht, hs']

theorem isWord_of_isFunctionName {f : String} (hf : isFunctionName f = true) :
    isWord f.toList = true := by
  simp only [isFunctionName, Bool.and_eq_true] at hf
  exact hf.1.1.1

/-- The name of a variable is read as itself where no bracket follows. -/
theorem Reads.name (v : View R) {x : String} (hx : isVariableName x = true)
    {rest : List Char} (hr : Lexeme.endsWord rest = true)
    (hc : rest.head?.any UnitSuffix.isCallBracket = false) :
    Reads v x.toList rest (v.push (.name x)) := by
  have hf := isFunctionName_of_isVariableName hx
  refine .word (isWord_of_isFunctionName hf) hr fun d o o' hd => ?_
  have hi : x ≠ "i" := by
    rintro rfl
    simp [isVariableName] at hx
  have hn : (⟨o', rest⟩ : Cursor).nextIs UnitSuffix.isCallBracket = false := hc
  rw [Lexeme.pushWord_eq hf, hn, if_neg Bool.false_ne_true, if_neg hi, Draft.view_push, hd]

/-- The name of a function is read as a call where a bracket follows. -/
theorem Reads.callName (v : View R) {f : String} (hf : isFunctionName f = true) {b : Char}
    (hb : UnitSuffix.isCallBracket b = true) (rest : List Char) :
    Reads v f.toList (b :: rest) (v.push (.call f 0)) := by
  have hw : Lexeme.endsWord (b :: rest) = true := by
    simp only [UnitSuffix.isCallBracket, Bool.or_eq_true, beq_iff_eq] at hb
    rcases hb with rfl | rfl <;> rfl
  refine .word (isWord_of_isFunctionName hf) hw fun d o o' hd => ?_
  have hn : (⟨o', b :: rest⟩ : Cursor).nextIs UnitSuffix.isCallBracket = true := hb
  rw [Lexeme.pushWord_eq hf, if_pos hn, Draft.view_push, hd]

/-- A truth value is read as itself. -/
theorem Reads.truth (v : View R) (b : Bool) {rest : List Char}
    (hr : Lexeme.endsWord rest = true) :
    Reads v (if b then "true" else "false").toList rest (v.push (.truth b)) := by
  have ho : Operator.ofWord? (if b then "true" else "false") = none := by
    cases b <;> decide +kernel
  have ht : Lexeme.truth? (if b then "true" else "false") = some b := by
    cases b <;> decide +kernel
  refine .word (by cases b <;> decide) hr fun d o o' hd => ?_
  simp only [Lexeme.pushWord, ho, ht, Draft.view_push, hd]

/-- A word that stands for a scalar is read as that scalar. -/
theorem Reads.scalar (v : View R) {x : String} {a : R}
    (hx : Lexeme.scalarWord? x = some a) {rest : List Char}
    (hr : Lexeme.endsWord rest = true) : Reads v x.toList rest (v.push (.number a)) := by
  have hword : isWord x.toList = true ∧ Operator.ofWord? x = none ∧ Lexeme.truth? x = none := by
    rcases Lexeme.eq_of_scalarWord? hx with rfl | rfl <;> decide +kernel
  refine .word hword.1 hr fun d o o' hd => ?_
  simp only [Lexeme.pushWord, hword.2.1, hword.2.2, hx, Draft.view_push, hd]

/-- Behind an operand the word of an operator is read as that operator. -/
theorem Reads.infixWord {v : View R} (hv : v.atOperandStart = false) {op : Operator}
    (hs : op = .xor ∨ op = .nand ∨ op = .nor) {rest : List Char}
    (hr : Lexeme.endsWord rest = true) :
    Reads v op.symbol.toList rest (v.push (.operator op)) := by
  have hw : isWord op.symbol.toList = true := by
    rcases hs with rfl | rfl | rfl <;> decide
  have ho : Operator.ofWord? op.symbol = some op := by
    rcases hs with rfl | rfl | rfl <;> decide +kernel
  refine .word hw hr fun d o o' hd => ?_
  subst hd
  simp only [Lexeme.pushWord, ho]
  refine Draft.view_pushOperator hv (fun _ => ?_) o
  rcases hs with rfl | rfl | rfl <;> exact ⟨nofun, nofun⟩

end SymbolicAlgebra
