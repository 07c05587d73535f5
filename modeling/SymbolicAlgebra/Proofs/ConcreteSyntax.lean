import SymbolicAlgebra.Proofs.FormulaGrammar
import SymbolicAlgebra.Proofs.LiteralRun

set_option autoImplicit false

/-!
# The concrete syntax of printed formulas

A printed formula has far fewer forms than a formula that is typed: operands are atomic or
stand in parentheses, binary operators have blanks around them, and a product without its sign
is only what a literal falls apart into. This module describes those forms as a relation
between a text, its tokens and the expression that they stand for. The printer only has to
produce such texts, and the reader only has to be right on them.

What this module delivers:

- `Atom`, `Operand`, `Power`, `Phrase`, `Items` and `Body`: the texts of operands without a
  sign and with one, of powers, of whole expressions, of lists of expressions and of what may
  stand between brackets.
- `Atom.endsSymbol` and `Atom.endsValue`, how an operand starts and ends.
- `Token.unsettled`, a token before the arguments are counted, and `noBareNot`: every negation
  has something to negate.
- `Settled`, the words that counting arguments and looking for bare negations pass over, and
  `Phrase.settled`: the tokens of the relation are such words.
-/

namespace SymbolicAlgebra

open Grammar

variable {R : Type}

/-! ## Operators between operands -/

namespace Operator

/-- The characters of the operator between two operands; only the sign of a fraction has
no blanks around it. -/
def between : Operator → List Char
  | .rational => Operator.rational.symbol.toList
  | op => ' ' :: (op.symbol.toList ++ [' '])

end Operator

variable [Scalar R]

/-! ## The relation -/

/-- What the symbol of a unit stands for behind a word: a variable, possibly with a power. -/
def MeasureUnit.factor (u : MeasureUnit) : Expr R :=
  match u.exponent? with
  | none => .var u.stemName
  | some n => .pow (.var u.stemName) (.number (Numeral.value [n] []))

omit [Scalar R] in
/-- The token of a minus sign before an operand, or none. -/
def signTokens (negative : Bool) : List (Token R) :=
  if negative then [.operator .negate] else []

mutual
/-- The text of an operand without a sign, its tokens and the expression. -/
inductive Atom (U : FunctionTable R) : List Char → List (Token R) → Expr R → Prop where
  | real {s : List Char} {v : R} (h : RealText s v) : Atom U s [.number v] (.number v)
  | quantity {whole fraction : List Char} (h : Numeral.IsPlain whole fraction)
      (u : MeasureUnit) :
      Atom U (Numeral.plain whole fraction ++ ' ' :: u.symbol.toList)
        [.number (Numeral.value whole fraction), .unit u]
        (.quantity ⟨Numeral.value whole fraction, u⟩)
  | temperature {x : String} {v : R} {u : MeasureUnit} (h : Lexeme.scalarWord? x = some v)
      (hu : u.hasDegreeSign = true) :
      Atom U (x.toList ++ ' ' :: u.symbol.toList) [.number v, .unit u] (.quantity ⟨v, u⟩)
  | truth (b : Bool) :
      Atom U (if b then "true" else "false").toList [.truth b] (.truth b)
  | name {x : String} (h : isVariableName x = true) : Atom U x.toList [.name x] (.var x)
  | group {s : List Char} {w : List (Token R)} {e : Expr R} (h : Phrase U s w e) :
      Atom U ('(' :: (s ++ [')']))
        (.delimiter .openParen :: (w ++ [.delimiter .closeParen])) e
  | call {f : String} {b b' : Delimiter} {s : List Char} {w : List (Token R)}
      {es : List (Expr R)} {e : Expr R} (hf : isFunctionName f = true)
      (hb : b.closing? = some b') (h : Body U s w es) (he : callOf U f es = .ok e) :
      Atom U (f.toList ++ b.char :: (s ++ [b'.char]))
        (.call f es.length :: .delimiter b :: (w ++ [.delimiter b'])) e
  | list {s : List Char} {w : List (Token R)} {es : List (Expr R)} {e : Expr R}
      (h : Body U s w es) (he : collection es = .ok e) :
      Atom U ('\x7b' :: (s ++ ['\x7d']))
        (.delimiter .openBrace :: (w ++ [.delimiter .closeBrace])) e
/-- The text of an operand with or without a minus sign, its tokens and the expression. -/
inductive Operand (U : FunctionTable R) : List Char → List (Token R) → Expr R → Prop where
  | atom {s : List Char} {w : List (Token R)} {e : Expr R} (h : Atom U s w e) :
      Operand U s w e
  | opposite {s : List Char} {w : List (Token R)} {e : Expr R} (h : Atom U s w e) :
      Operand U ('-' :: s) (.operator .negate :: w) (negated e w.length)
/-- The text of a power or of an operand with a trailing operator, its tokens and the
expression. -/
inductive Power (U : FunctionTable R) : List Char → List (Token R) → Expr R → Prop where
  | trailing {op : Operator} {s : List Char} {w : List (Token R)} {e e' : Expr R}
      (h : Atom U s w e) (he : trailed? e op = some (.ok e')) :
      Power U (s ++ op.symbol.toList) (w ++ [.operator op]) e'
  | exponent {s s' : List Char} {w w' : List (Token R)} {e e' : Expr R}
      (h : Atom U s w e) (h' : Operand U s' w' e') :
      Power U (s ++ (Operator.power.between ++ s')) (w ++ .operator .power :: w')
        (.pow e e')
/-- The text of a whole expression, its tokens and the expression. -/
inductive Phrase (U : FunctionTable R) : List Char → List (Token R) → Expr R → Prop where
  | operand {s : List Char} {w : List (Token R)} {e : Expr R} (h : Operand U s w e) :
      Phrase U s w e
  | rectangular (negative minus : Bool) {s whole fraction : List Char} {v : R}
      (h : RealText s v) (h' : Numeral.IsPlain whole fraction) :
      Phrase U
        ((if negative then ['-'] else []) ++ (s ++
          ([signChar minus] ++ (Numeral.plain whole fraction ++ ['i']))))
        [.complex ⟨withSign negative v, withSign minus (Numeral.value whole fraction)⟩]
        (.complex ⟨withSign negative v, withSign minus (Numeral.value whole fraction)⟩)
  | not {s : List Char} {w : List (Token R)} {e : Expr R} (h : Operand U s w e) :
      Phrase U ('~' :: s) (.operator .not :: w) (.unary .not e)
  | power {s : List Char} {w : List (Token R)} {e : Expr R} (h : Power U s w e) :
      Phrase U s w e
  | opposite {s : List Char} {w : List (Token R)} {e : Expr R} (h : Power U s w e) :
      Phrase U ('-' :: s) (.operator .negate :: w) (negated e w.length)
  | joined {l : Level} {op : Operator} {k : Connective} {s s' : List Char}
      {w w' : List (Token R)} {e e' : Expr R} (hk : l.connective? op = some k)
      (h : Operand U s w e) (h' : Operand U s' w' e') :
      Phrase U (s ++ (op.between ++ s')) (w ++ .operator op :: w') (k.combine e e')
  | sum (minus : Bool) {s s' : List Char} {w w' : List (Token R)} {e e' : Expr R}
      (h : Operand U s w e) (h' : Atom U s' w' e') :
      Phrase U (s ++ signChar minus :: s')
        (w ++ .operator (if minus then .minus else .plus) :: w')
        (.binary (if minus then .sub else .add) e e')
  | product (negative : Bool) {x : String} {v : R} {u : MeasureUnit}
      (h : Lexeme.scalarWord? x = some v) (hu : u.hasDegreeSign = false) :
      Phrase U ((if negative then ['-'] else []) ++ (x.toList ++ ' ' :: u.symbol.toList))
        (signTokens negative ++ .number v :: u.factorTokens)
        (.mul (.number (withSign negative v)) u.factor)
  | assign {op : Operator} {s s' : List Char} {w w' : List (Token R)} {e e' e'' : Expr R}
      (ho : op.isAssignment = true) (h : Atom U s w e) (h' : Operand U s' w' e')
      (he : assignTo op e e' = .ok e'') :
      Phrase U (s ++ (op.between ++ s')) (w ++ .operator op :: w') e''
/-- The text of expressions with commas between them. -/
inductive Items (U : FunctionTable R) :
    List Char → List (Token R) → List (Expr R) → Prop where
  | one {s : List Char} {w : List (Token R)} {e : Expr R} (h : Phrase U s w e) :
      Items U s w [e]
  | cons {s s' : List Char} {w w' : List (Token R)} {e : Expr R} {es : List (Expr R)}
      (h : Phrase U s w e) (h' : Items U s' w' es) :
      Items U (s ++ ',' :: ' ' :: s') (w ++ .delimiter .comma :: w') (e :: es)
/-- The text between the brackets of a call or a list. -/
inductive Body (U : FunctionTable R) :
    List Char → List (Token R) → List (Expr R) → Prop where
  | empty : Body U [] [] []
  | items {s : List Char} {w : List (Token R)} {es : List (Expr R)} (h : Items U s w es) :
      Body U s w es
end

variable {U : FunctionTable R} {s : List Char} {w : List (Token R)} {e : Expr R}
  {es : List (Expr R)}

/-! ## Special cases -/

theorem Atom.number {whole fraction : List Char} (h : Numeral.IsPlain whole fraction) :
    Atom U (Numeral.plain whole fraction) [.number (Numeral.value whole fraction)]
      (.number (Numeral.value whole fraction)) :=
  .real (.numeral h)

theorem Phrase.atom (h : Atom U s w e) : Phrase U s w e := .operand (.atom h)

theorem Phrase.negate (h : Atom U s w e) :
    Phrase U ('-' :: s) (.operator .negate :: w) (negated e w.length) :=
  .operand (.opposite h)

/-- A complex literal of two numerals. -/
theorem Phrase.complex (negative minus : Bool) {whole fraction whole' fraction' : List Char}
    (h : Numeral.IsPlain whole fraction) (h' : Numeral.IsPlain whole' fraction') :
    Phrase U
      ((if negative then ['-'] else []) ++ (Numeral.plain whole fraction ++
        ([signChar minus] ++ (Numeral.plain whole' fraction' ++ ['i']))))
      [.complex ⟨withSign negative (Numeral.value whole fraction),
        withSign minus (Numeral.value whole' fraction')⟩]
      (.complex ⟨withSign negative (Numeral.value whole fraction),
        withSign minus (Numeral.value whole' fraction')⟩) :=
  .rectangular negative minus (.numeral h) h'

/-- An operation on two operands without a sign. -/
theorem Phrase.chain {l : Level} {op : Operator} {k : Connective} {s' : List Char}
    {w' : List (Token R)} {e' : Expr R} (hk : l.connective? op = some k) (h : Atom U s w e)
    (h' : Atom U s' w' e') :
    Phrase U (s ++ (op.between ++ s')) (w ++ .operator op :: w') (k.combine e e') :=
  .joined hk (.atom h) (.atom h')

/-! ## How operands start and end -/

/-- An operand does not start like a symbol. -/
theorem Atom.endsSymbol (h : Atom U s w e) (rest : List Char) :
    Lexeme.endsSymbol (s ++ rest) = true := by
  cases h with
  | real h => exact h.endsSymbol rest
  | quantity h u =>
    rw [List.append_assoc]
    exact endsSymbol_plain h _
  | temperature h hu =>
    rw [List.append_assoc]
    exact Lexeme.endsSymbol_of_isWord (isWord_of_scalarWord? h) _
  | truth b => cases b <;> rfl
  | name h =>
    exact Lexeme.endsSymbol_of_isWord
      (isWord_of_isFunctionName (isFunctionName_of_isVariableName h)) rest
  | group h => rfl
  | call hf hb h he =>
    rw [List.append_assoc]
    exact Lexeme.endsSymbol_of_isWord (isWord_of_isFunctionName hf) _
  | list h he => rfl

theorem Power.endsSymbol (h : Power U s w e) (rest : List Char) :
    Lexeme.endsSymbol (s ++ rest) = true := by
  cases h with
  | trailing h he =>
    rw [List.append_assoc]
    exact h.endsSymbol _
  | exponent h h' =>
    rw [List.append_assoc]
    exact h.endsSymbol _

/-- A negation and the sign of a fraction end before an operand, also before a minus sign. -/
theorem Operand.symbolEnds (h : Operand U s w e) {op : Operator}
    (ho : op = .not ∨ op = .rational) (rest : List Char) :
    Lexeme.SymbolEnds op (s ++ rest) := by
  cases h with
  | atom h =>
    refine Lexeme.symbolEnds_of_endsSymbol ?_ (h.endsSymbol rest)
    rcases ho with rfl | rfl <;> rfl
  | opposite h => exact Lexeme.symbolEnds_minus ho (h.endsSymbol rest)

/-- The last token of an operand without a sign ends a value. -/
theorem Atom.endsValue (h : Atom U s w e) : ∃ w' t, w = w' ++ [t] ∧ t.endsValue = true := by
  cases h with
  | real h => exact ⟨[], _, rfl, rfl⟩
  | quantity h u => exact ⟨[_], _, rfl, rfl⟩
  | temperature h hu => exact ⟨[_], _, rfl, rfl⟩
  | truth b => exact ⟨[], _, rfl, rfl⟩
  | name h => exact ⟨[], _, rfl, rfl⟩
  | group h => exact ⟨_, _, (List.cons_append ..).symm, rfl⟩
  | call hf hb h he =>
    refine ⟨_ :: _ :: _, _, rfl, ?_⟩
    rename_i b b' _ _ _
    cases b <;> cases hb <;> rfl
  | list h he => exact ⟨_, _, (List.cons_append ..).symm, rfl⟩

/-- The last token of an operand ends a value. -/
theorem Operand.endsValue (h : Operand U s w e) :
    ∃ w' t, w = w' ++ [t] ∧ t.endsValue = true := by
  cases h with
  | atom h => exact h.endsValue
  | opposite h =>
    obtain ⟨w', t, rfl, ht⟩ := h.endsValue
    exact ⟨_ :: w', t, rfl, ht⟩

/-! ## Counting arguments -/

namespace Token

omit [Scalar R]

/-- The token before the arguments of calls are counted. -/
def unsettled : Token R → Token R
  | .call f _ => .call f 0
  | t => t

@[simp] theorem unsettled_delimiter (d : Delimiter) :
    (delimiter d : Token R).unsettled = .delimiter d := rfl

@[simp] theorem unsettled_operator (op : Operator) :
    (operator op : Token R).unsettled = .operator op := rfl

@[simp] theorem unsettled_call (f : String) (n : Nat) :
    (call f n : Token R).unsettled = .call f 0 := rfl

/-- Whether the token is a bracket or a comma. -/
def isDelimiter : Token R → Bool
  | .delimiter _ => true
  | _ => false

/-- A token that is no bracket and no comma belongs to an argument. -/
theorem argumentCount_cons {t : Token R} (h : t.isDelimiter = false) (depth commas : Nat)
    (any : Bool) (ts : List (Token R)) :
    argumentCount depth commas any (t :: ts) = argumentCount depth commas true ts := by
  cases t <;> first | rfl | cases h

/-- An opening bracket makes the arguments behind it inner ones. -/
theorem argumentCount_open {b : Delimiter} (h : b.isOpen = true) (depth commas : Nat)
    (any : Bool) (ts : List (Token R)) :
    argumentCount depth commas any (.delimiter b :: ts) =
      argumentCount (depth + 1) commas true ts := by
  cases b <;> first | rfl | cases h

/-- The closing bracket of inner arguments ends an argument of its own. -/
theorem argumentCount_close {b : Delimiter} (h : b.isClose = true) (depth commas : Nat)
    (any : Bool) (ts : List (Token R)) :
    argumentCount (depth + 1) commas any (.delimiter b :: ts) =
      argumentCount depth commas true ts := by
  cases b <;> first | rfl | cases h

/-- The closing bracket of the arguments ends the count. -/
theorem argumentCount_end {b : Delimiter} (h : b.isClose = true) (commas : Nat) (any : Bool)
    (ts : List (Token R)) :
    argumentCount 0 commas any (.delimiter b :: ts) = if any then commas + 1 else 0 := by
  cases b <;> first | rfl | cases h

end Token

/-! ## Negations -/

section Negations

omit [Scalar R]

/-- Whether every negation of truth values has something to negate behind it. -/
def noBareNot : List (Token R) → Bool
  | [] => true
  | t :: ts => (!isNot t || ts.head?.any negatable) && noBareNot ts

/-- The places of the tokens do not matter for the search of a bare negation. -/
theorem bareNot?_eq_none {ts : List (Located R)} (h : noBareNot (ts.map (·.token)) = true) :
    bareNot? ts = none := by
  induction ts with
  | nil => rfl
  | cons t ts ih =>
    simp only [List.map_cons, noBareNot, Bool.and_eq_true] at h
    obtain ⟨ht, hts⟩ := h
    have hany : (ts.map (·.token)).head?.any negatable =
        ts.head?.any (negatable ·.token) := by cases ts <;> rfl
    rw [hany] at ht
    rw [bareNot?, if_neg, ih hts]
    cases hn : isNot t.token <;> simp_all

/-- A token that is no negation asks for nothing behind it. -/
theorem noBareNot_cons {t : Token R} (h : isNot t = false) (ts : List (Token R)) :
    noBareNot (t :: ts) = noBareNot ts := by
  simp [noBareNot, h]

/-- A negation with something to negate behind it is no bare one. -/
theorem noBareNot_not {ts : List (Token R)} (h : ts.head?.any negatable = true) :
    noBareNot (.operator .not :: ts) = noBareNot ts := by
  simp [noBareNot, h]

theorem isNot_of_isInfix {op : Operator} (h : op.isInfix = true) :
    isNot (.operator op : Token R) = false := by
  cases op <;> first | rfl | cases h

end Negations

/-! ## Settled words -/

open Token (argumentCount settleArities)

/-- A word that is complete by itself, whatever stands behind it: `n` commas stand outside its
own brackets, its calls carry the numbers of their arguments, and every negation has something
to negate. -/
structure Settled (n : Nat) (w : List (Token R)) : Prop where
  /-- The count of arguments goes on behind the word with its commas. -/
  count (depth commas : Nat) (any : Bool) (rest : List (Token R)) :
    argumentCount depth commas any (w.map Token.unsettled ++ rest) =
      argumentCount depth (if depth = 0 then commas + n else commas) true rest
  /-- Counting the arguments gives back the word. -/
  settle (rest : List (Token R)) :
    settleArities (w.map Token.unsettled ++ rest) = w ++ settleArities rest
  /-- No negation of the word is bare. -/
  negations (rest : List (Token R)) :
    noBareNot (w.map Token.unsettled ++ rest) = noBareNot rest

namespace Settled

omit [Scalar R]

variable {n m : Nat} {w' : List (Token R)} {b b' : Delimiter}

theorem append (h : Settled n w) (h' : Settled m w') : Settled (n + m) (w ++ w') where
  count depth commas any rest := by
    rw [List.map_append, List.append_assoc, h.count, h'.count]
    split
    · rw [Nat.add_assoc]
    · rfl
  settle rest := by
    rw [List.map_append, List.append_assoc, h.settle, h'.settle, List.append_assoc]
  negations rest := by
    rw [List.map_append, List.append_assoc, h.negations, h'.negations]

/-- A word of one token that is passed over. -/
theorem singleton {t : Token R}
    (hc : ∀ depth commas any ts,
      argumentCount depth commas any (t.unsettled :: ts) = argumentCount depth commas true ts)
    (hs : ∀ ts, settleArities (t.unsettled :: ts) = t :: settleArities ts)
    (hn : isNot t.unsettled = false) : Settled 0 [t] where
  count depth commas any rest := by
    rw [Nat.add_zero, ite_self]
    exact hc depth commas any rest
  settle rest := hs rest
  negations rest := noBareNot_cons hn rest

theorem number (v : R) : Settled 0 [.number v] :=
  singleton (fun _ _ _ _ => rfl) (fun _ => rfl) rfl

theorem complex (z : ComplexNumber R) : Settled 0 [.complex z] :=
  singleton (fun _ _ _ _ => rfl) (fun _ => rfl) rfl

theorem truth (b : Bool) : Settled 0 [(.truth b : Token R)] :=
  singleton (fun _ _ _ _ => rfl) (fun _ => rfl) rfl

theorem name (x : String) : Settled 0 [(.name x : Token R)] :=
  singleton (fun _ _ _ _ => rfl) (fun _ => rfl) rfl

theorem unit (u : MeasureUnit) : Settled 0 [(.unit u : Token R)] :=
  singleton (fun _ _ _ _ => rfl) (fun _ => rfl) rfl

/-- An operator that is no negation. -/
theorem operator {op : Operator} (h : isNot (.operator op : Token R) = false) :
    Settled 0 [(.operator op : Token R)] :=
  singleton (fun _ _ _ _ => rfl) (fun _ => rfl) h

/-- Operators between operands are no negations. -/
theorem between {op : Operator} (h : op.isInfix = true) :
    Settled 0 [(.operator op : Token R)] :=
  operator (isNot_of_isInfix h)

theorem comma : Settled 1 [(.delimiter .comma : Token R)] :=
  ⟨fun _ _ _ _ => rfl, fun _ => rfl, fun rest => noBareNot_cons rfl rest⟩

/-- A negation before what may be negated. -/
theorem not (h : Settled n w)
    (hw : ∀ rest, (w.map Token.unsettled ++ rest).head?.any negatable = true) :
    Settled n (.operator .not :: w) where
  count depth commas _ rest := h.count depth commas true rest
  settle rest := congrArg (_ :: ·) (h.settle rest)
  negations rest := (noBareNot_not (hw rest)).trans (h.negations rest)

/-- Two brackets with nothing between them. -/
theorem brackets (hb : b.closing? = some b') :
    Settled 0 [(.delimiter b : Token R), .delimiter b'] := by
  cases b <;> cases hb
  all_goals
    refine ⟨fun depth _ _ _ => ?_, fun _ => rfl, fun rest => ?_⟩
    · rw [Nat.add_zero, ite_self]
      rfl
    · exact (noBareNot_cons rfl _).trans (noBareNot_cons rfl rest)

/-- A word in brackets. -/
theorem group (hb : b.closing? = some b') (h : Settled n w) :
    Settled 0 (.delimiter b :: (w ++ [.delimiter b'])) := by
  obtain ⟨ho, hc⟩ := Delimiter.isOpen_isClose hb
  constructor
  · intro depth commas any rest
    simp only [List.map_cons, List.map_append, List.map_nil, List.cons_append,
      List.append_assoc, List.nil_append, Token.unsettled_delimiter]
    -- between the brackets the depth is positive, so the commas of the word do not count
    rw [Token.argumentCount_open ho, h.count, if_neg (Nat.succ_ne_zero depth),
      Token.argumentCount_close hc, Nat.add_zero, ite_self]
  · intro rest
    have hs := h.settle (.delimiter b' :: rest)
    simp only [List.map_cons, List.map_append, List.map_nil, List.cons_append,
      List.append_assoc, List.nil_append, Token.unsettled_delimiter] at hs ⊢
    exact congrArg (_ :: ·) hs
  · intro rest
    simp only [List.map_cons, List.map_append, List.map_nil, List.cons_append,
      List.append_assoc, List.nil_append, Token.unsettled_delimiter]
    rw [noBareNot_cons rfl, h.negations, noBareNot_cons rfl]

/-- A call before brackets between which its arguments are counted. -/
theorem call {f : String} (h : Settled 0 (.delimiter b :: (w ++ [.delimiter b'])))
    (hc : ∀ rest, argumentCount 0 0 false
      (w.map Token.unsettled ++ .delimiter b' :: rest) = n) :
    Settled 0 (.call f n :: .delimiter b :: (w ++ [.delimiter b'])) := by
  constructor
  · intro depth commas any rest
    exact h.count depth commas true rest
  · intro rest
    -- the arguments are counted from behind the opening bracket
    have hcount : argumentCount 0 0 false
        ((w ++ [Token.delimiter b']).map Token.unsettled ++ rest) = n := by
      rw [List.map_append, List.append_assoc]
      exact hc rest
    have hs := h.settle rest
    rw [List.map_cons, Token.unsettled_delimiter, List.cons_append] at hs
    rw [List.map_cons, List.map_cons, Token.unsettled_call, Token.unsettled_delimiter,
      List.cons_append, List.cons_append, settleArities, Token.settleArity, List.tail_cons,
      hcount, hs]
    rfl
  · intro rest
    exact (noBareNot_cons rfl _).trans (h.negations rest)

end Settled

/-- The tokens of a word for a scalar, with a sign or without, and of the unit behind it. -/
theorem settled_product (negative : Bool) (v : R) (u : MeasureUnit) :
    Settled 0 (signTokens negative ++ .number v :: u.factorTokens) := by
  have hfactor : Settled 0 (u.factorTokens : List (Token R)) := by
    unfold MeasureUnit.factorTokens
    split
    · exact .name _
    · exact (Settled.name _).append ((Settled.between rfl).append (.number _))
  cases negative with
  | true => exact (Settled.operator rfl).append ((Settled.number v).append hfactor)
  | false => exact (Settled.number v).append hfactor

/-- An operand may stand behind a negation. -/
theorem Operand.negatable {s : List Char} {w : List (Token R)} {e : Expr R}
    (h : Operand U s w e) (rest : List (Token R)) :
    (w.map Token.unsettled ++ rest).head?.any SymbolicAlgebra.negatable = true := by
  cases h with
  | atom h => cases h <;> rfl
  | opposite h => rfl

mutual
/-- The tokens of an operand without a sign are a settled word. -/
theorem Atom.settled {s : List Char} {w : List (Token R)} {e : Expr R} :
    Atom U s w e → Settled 0 w
  | .real _ => .number _
  | .quantity _ _ => (Settled.number _).append (.unit _)
  | .temperature _ _ => (Settled.number _).append (.unit _)
  | .truth b => .truth b
  | .name _ => .name _
  | .group h => h.settled.group rfl
  | .call _ hb h _ => (h.settled hb).1.call (h.settled hb).2
  | .list h _ => (h.settled rfl).1
/-- The tokens of an operand are a settled word. -/
theorem Operand.settled {s : List Char} {w : List (Token R)} {e : Expr R} :
    Operand U s w e → Settled 0 w
  | .atom h => h.settled
  | .opposite h => (Settled.operator rfl).append h.settled
/-- The tokens of a power are a settled word. -/
theorem Power.settled {s : List Char} {w : List (Token R)} {e : Expr R} :
    Power U s w e → Settled 0 w
  | .trailing h he => by
    rename_i op _ _ _
    have ho : isNot (.operator op : Token R) = false := by
      cases op <;> first | rfl | cases he
    exact h.settled.append (.operator ho)
  | .exponent h h' => h.settled.append ((Settled.operator rfl).append h'.settled)
/-- The tokens of a whole expression are a settled word. -/
theorem Phrase.settled {s : List Char} {w : List (Token R)} {e : Expr R} :
    Phrase U s w e → Settled 0 w
  | .operand h => h.settled
  | .rectangular _ _ _ _ => .complex _
  | .not h => h.settled.not h.negatable
  | .power h => h.settled
  | .opposite h => (Settled.operator rfl).append h.settled
  | .joined hk h h' =>
    h.settled.append ((Settled.between (Operator.isInfix_of_connective? hk)).append h'.settled)
  | .sum minus h h' =>
    h.settled.append ((Settled.between (by cases minus <;> rfl)).append h'.settled)
  | .product negative _ _ => settled_product negative _ _
  | .assign ho h h' _ =>
    h.settled.append ((Settled.between (Operator.isInfix_of_isAssignment ho)).append h'.settled)
/-- The tokens of a list are a settled word with one comma less than there are members. -/
theorem Items.settled {s : List Char} {w : List (Token R)} {es : List (Expr R)} :
    Items U s w es → ∃ n, es.length = n + 1 ∧ Settled n w
  | .one h => ⟨0, rfl, h.settled⟩
  | .cons h h' => by
    obtain ⟨n, hn, hw⟩ := h'.settled
    -- only the comma between the first member and the others is added
    have hs := h.settled.append (Settled.comma.append hw)
    rw [Nat.zero_add, Nat.add_comm] at hs
    exact ⟨n + 1, congrArg (· + 1) hn, hs⟩
/-- What stands between two brackets is a settled word with them, and its members are
counted. -/
theorem Body.settled {s : List Char} {w : List (Token R)} {es : List (Expr R)} :
    Body U s w es → ∀ {b b' : Delimiter}, b.closing? = some b' →
      Settled 0 (.delimiter b :: (w ++ [.delimiter b'])) ∧
      ∀ rest, argumentCount 0 0 false (w.map Token.unsettled ++ .delimiter b' :: rest) =
        es.length
  | .empty, _, _, hb =>
    ⟨.brackets hb, Token.argumentCount_end (Delimiter.isOpen_isClose hb).2 0 false⟩
  | .items h, _, _, hb => by
    obtain ⟨n, hn, hw⟩ := h.settled
    refine ⟨hw.group hb, fun rest => ?_⟩
    rw [hw.count, Token.argumentCount_end (Delimiter.isOpen_isClose hb).2, hn]
    simp
end

end SymbolicAlgebra
