import SymbolicAlgebra.Proofs.ConcreteSyntax

set_option autoImplicit false

/-!
# The tokens of printed formulas

Reading a text of the concrete syntax from left to right gives the tokens that the syntax
assigns to it (`Phrase.reads`, and `Phrase.tokenize` for a whole text). The proof follows the
derivation of the text, with `Atom.reads`, `Operand.reads`, `Power.reads`, `Items.reads` and
`Body.reads` for its forms. An operand needs to stand where an operand starts and to be followed by
a text that ends it; a whole expression needs to stand where an expression starts, so that its
complex literals are merged.
-/

namespace SymbolicAlgebra

open Grammar
open Text (Cursor)

variable {R : Type} [Scalar R]

/-! ## Operators between operands -/

namespace Operator

/-- The operators between operands that are written with blanks around them: those that are
symbols and those that are words. -/
theorem spaced_cases {op : Operator} (h : op.isInfix = true) (hr : op ≠ .rational) :
    op.between = ' ' :: (op.symbol.toList ++ [' ']) ∧
      (op.symbol.toList.all Lexeme.isOperatorChar = true ∨ op = .xor ∨ op = .nand ∨
        op = .nor) := by
  cases op <;> first
    | exact ⟨rfl, by decide⟩
    | exact absurd rfl hr
    | cases h

/-- An operand ends before an operator that stands between two operands. -/
theorem endsOperand_between {op : Operator} (h : op.isInfix = true) (rest : List Char) :
    EndsOperand (op.between ++ rest) := by
  by_cases hr : op = .rational
  · subst hr
    exact .of_head (by decide) _
  · obtain ⟨hb, hs | hw⟩ := spaced_cases h hr
    · rw [hb]
      simp only [List.cons_append, List.append_assoc]
      exact .of_symbol hs _
    · rw [hb]
      simp only [List.cons_append, List.append_assoc]
      exact .of_word hw _

/-- An operator between two operands is read as itself. -/
theorem reads_between {op : Operator} (h : op.isInfix = true) {v : View R}
    (hv : v.atOperandStart = false) {rest : List Char}
    (hr : Lexeme.SymbolEnds .rational rest) :
    Reads v op.between rest (v.push (.operator op)) := by
  have hne : op ≠ .increment ∧ op ≠ .decrement := by
    constructor <;> rintro rfl <;> cases h
  by_cases hf : op = .rational
  · subst hf
    exact .infixSymbol hv rfl hr fun _ => hne
  · obtain ⟨hb, hs⟩ := spaced_cases h hf
    rw [hb]
    refine .trans (s := [' ']) (.space v _) (.trans ?_ (.space _ rest))
    rcases hs with hs | hw
    · exact .infixSymbol hv hs (Lexeme.symbolEnds_of_endsSymbol hs rfl) fun _ => hne
    · exact .infixWord hv hw rfl

end Operator

/-- The symbol of a trailing operator is read as that operator at the end of an
expression. -/
theorem Reads.trailing {op : Operator} {e e' : Expr R}
    (he : trailed? e op = some (.ok e')) {v : View R} (hv : v.atOperandStart = false)
    {rest : List Char} (hr : endsPhrase rest = true) :
    EndsOperand (op.symbol.toList ++ rest) ∧
      Reads v op.symbol.toList rest (v.push (.operator op)) := by
  have hend : Lexeme.endsSymbol rest = true ∧
      Lexeme.operandFollows ⟨0, rest⟩ = false := by
    obtain rfl | ⟨c, cs, hc, rfl⟩ := eq_of_endsPhrase hr
    · exact ⟨rfl, rfl⟩
    · simp only [List.mem_cons, List.not_mem_nil, or_false] at hc
      rcases hc with rfl | rfl | rfl <;> exact ⟨rfl, rfl⟩
  have hop : op = .factorial ∨ op = .increment ∨ op = .decrement := by
    cases op <;> first | (cases he; done) | simp
  constructor
  · rcases hop with rfl | rfl | rfl <;> exact .of_head (by decide) _
  · have hs : op.symbol.toList.all Lexeme.isOperatorChar = true := by
      rcases hop with rfl | rfl | rfl <;> rfl
    refine .infixSymbol hv hs (Lexeme.symbolEnds_of_endsSymbol hs hend.1) fun hf => ?_
    rw [hend.2] at hf
    cases hf

/-! ## The relation -/

variable {U : FunctionTable R}

/-- Behind an operand no operand starts. -/
theorem Operand.atOperandStart_eq_false {s : List Char} {w : List (Token R)} {e : Expr R}
    (h : Operand U s w e) (v : View R) :
    (v.append (w.map Token.unsettled)).atOperandStart = false := by
  obtain ⟨w', t, rfl, ht⟩ := h.endsValue
  have hu : t.unsettled.endsValue = true := by
    cases t <;> exact ht
  rw [List.map_append, View.append_append]
  change (!t.unsettled.endsValue) = false
  rw [hu]
  rfl

/-- The two operands of an operator and the operator itself are read one after the other. -/
theorem Reads.between {op : Operator} (ho : op.isInfix = true) {s s' : List Char}
    {w w' : List (Token R)} {e e' : Expr R} (h : Operand U s w e) (h' : Operand U s' w' e')
    (hs : ∀ {v : View R} {rest : List Char}, v.atOperandStart = true → EndsOperand rest →
      Reads v s rest (v.append (w.map Token.unsettled)))
    (hs' : ∀ {v : View R} {rest : List Char}, v.atOperandStart = true → EndsOperand rest →
      Reads v s' rest (v.append (w'.map Token.unsettled)))
    {v : View R} {rest : List Char} (hv : v.atOperandStart = true) (hr : EndsOperand rest) :
    Reads v (s ++ (op.between ++ s')) rest
      (v.append ((w ++ .operator op :: w').map Token.unsettled)) := by
  rw [List.map_append, View.append_append, List.map_cons, View.append_cons]
  refine .trans (hs hv ?_) (.trans ?_ (hs' ?_ hr))
  · rw [List.append_assoc]
    exact Operator.endsOperand_between ho _
  · exact Operator.reads_between ho (h.atOperandStart_eq_false v)
      (h'.symbolEnds (.inr rfl) rest)
  · cases op <;> first | rfl | cases ho

/-- The word of a scalar and the symbol of a unit are read as a product without its sign. -/
theorem Reads.product {v : View R} (hv : v.atOperandStart = true) (negative : Bool)
    {x : String} {a : R} {u : MeasureUnit} (hx : Lexeme.scalarWord? x = some a)
    (hu : u.hasDegreeSign = false) {rest : List Char} (hr : EndsOperand rest) :
    Reads v ((if negative then ['-'] else []) ++ (x.toList ++ ' ' :: u.symbol.toList)) rest
      (v.append (signTokens negative ++ .number a :: u.factorTokens)) := by
  have hproduct : ∀ v : View R, Reads v (x.toList ++ ' ' :: u.symbol.toList) rest
      (v.append (.number a :: u.factorTokens)) := by
    intro v
    rw [View.append_cons]
    exact .trans (.scalar v hx rfl) (.trans (s := [' ']) (.space _ _) (.factor _ hu hr))
  cases negative with
  | true =>
    have hs := Lexeme.endsSymbol_of_isWord (isWord_of_scalarWord? hx)
      (' ' :: u.symbol.toList ++ rest)
    rw [← List.append_assoc] at hs
    rw [View.append_append]
    exact .trans (s := ['-']) (.minusSign hv hs) (hproduct _)
  | false => exact hproduct v

/-- The tokens of a product without its sign are no calls. -/
theorem map_unsettled_product (negative : Bool) (a : R) (u : MeasureUnit) :
    (signTokens negative ++ Token.number a :: u.factorTokens).map Token.unsettled =
      signTokens negative ++ .number a :: u.factorTokens := by
  unfold MeasureUnit.factorTokens
  cases negative <;> split <;> rfl

mutual
/-- The text of an operand without a sign is read as its tokens. -/
theorem Atom.reads {s : List Char} {w : List (Token R)} {e : Expr R} :
    Atom U s w e → ∀ {v : View R} {rest : List Char}, v.atOperandStart = true →
      EndsOperand rest → Reads v s rest (v.append (w.map Token.unsettled))
  | .real h, v, rest, _, hr => .real v h hr
  | .quantity h u, v, rest, _, hr => .quantity v u h hr
  | .temperature h hu, v, rest, _, hr =>
    .trans (.scalar v h rfl) (.trans (s := [' ']) (.space _ _) (.scale _ hu hr))
  | .truth b, v, rest, _, hr => .truth v b hr.word
  | .name h, v, rest, _, hr =>
    .name v h hr.word (UnitSuffix.any_isCallBracket_eq_false hr)
  | .group h, v, rest, hv, hr => by
    simp only [List.map_cons, List.map_append, List.map_nil, View.append_cons,
      View.append_append, View.append_nil, Token.unsettled_delimiter]
    refine .trans (s := ['(']) (.openBracket v (b := .openParen) rfl _)
      (.trans (h.reads rfl rfl) ?_)
    exact .closeBracket (a := .openParen) (b := .closeParen) rfl rfl rest
  | .call hf hb h he, v, rest, hv, hr => by
    rename_i b b' s w es
    simp only [List.map_cons, List.map_append, List.map_nil, View.append_cons,
      View.append_append, View.append_nil, Token.unsettled_delimiter, Token.unsettled_call]
    have hbr : UnitSuffix.isCallBracket b.char = true ∧ b.isOpen = true ∧
        (Token.delimiter b : Token R).opensExpression = true ∧
        endsPhrase ([b'.char] ++ rest) = true := by
      cases b <;> cases hb <;> exact ⟨rfl, rfl, rfl, rfl⟩
    refine .trans (.callName v hf hbr.1 _) (.trans (s := [b.char])
      (.openBracket _ hbr.2.1 _) (.trans (h.reads hbr.2.2.1 hbr.2.2.2) ?_))
    exact .closeBracket rfl hb rest
  | .list h he, v, rest, _, hr => by
    simp only [List.map_cons, List.map_append, List.map_nil, View.append_cons,
      View.append_append, View.append_nil, Token.unsettled_delimiter]
    refine .trans (s := ['\x7b']) (.openBracket v (b := .openBrace) rfl _)
      (.trans (h.reads rfl rfl) ?_)
    exact .closeBracket (a := .openBrace) (b := .closeBrace) rfl rfl rest
/-- The text of an operand is read as its tokens. -/
theorem Operand.reads {s : List Char} {w : List (Token R)} {e : Expr R} :
    Operand U s w e → ∀ {v : View R} {rest : List Char}, v.atOperandStart = true →
      EndsOperand rest → Reads v s rest (v.append (w.map Token.unsettled))
  | .atom h, v, rest, hv, hr => h.reads hv hr
  | .opposite h, v, rest, hv, hr => by
    rw [List.map_cons, View.append_cons]
    exact .trans (s := ['-']) (.minusSign hv (h.endsSymbol rest)) (h.reads rfl hr)
/-- The text of a power is read as its tokens. -/
theorem Power.reads {s : List Char} {w : List (Token R)} {e : Expr R} :
    Power U s w e → ∀ {v : View R} {rest : List Char}, v.atOperandStart = true →
      endsPhrase rest = true → Reads v s rest (v.append (w.map Token.unsettled))
  | .trailing h he, v, rest, hv, hr => by
    have ht := Reads.trailing he ((Operand.atom h).atOperandStart_eq_false v) hr
    rw [List.map_append, View.append_append]
    exact .trans (h.reads hv ht.1) ht.2
  | .exponent h h', v, rest, hv, hr =>
    .between rfl (.atom h) h' h.reads h'.reads hv (.of_endsPhrase hr)
/-- The text of a whole expression is read as its tokens. -/
theorem Phrase.reads {s : List Char} {w : List (Token R)} {e : Expr R} :
    Phrase U s w e → ∀ {v : View R} {rest : List Char}, v.startsExpression = true →
      endsPhrase rest = true → Reads v s rest (v.append (w.map Token.unsettled))
  | .operand h, v, rest, hv, hr =>
    h.reads (View.atOperandStart_of_startsExpression hv) (.of_endsPhrase hr)
  | .rectangular negative minus h h', v, rest, hv, hr => .complex hv negative minus h h' hr
  | .not h, v, rest, hv, hr => by
    have hv' := View.atOperandStart_of_startsExpression hv
    rw [List.map_cons, View.append_cons]
    exact .trans (s := ['~']) (.tilde hv' (h.symbolEnds (.inl rfl) rest))
      (h.reads rfl (.of_endsPhrase hr))
  | .power h, v, rest, hv, hr => h.reads (View.atOperandStart_of_startsExpression hv) hr
  | .opposite h, v, rest, hv, hr => by
    have hv' := View.atOperandStart_of_startsExpression hv
    rw [List.map_cons, View.append_cons]
    exact .trans (s := ['-']) (.minusSign hv' (h.endsSymbol rest)) (h.reads rfl hr)
  | .joined hk h h', v, rest, hv, hr =>
    .between (Operator.isInfix_of_connective? hk) h h' h.reads h'.reads
      (View.atOperandStart_of_startsExpression hv) (.of_endsPhrase hr)
  | .sum minus h h', v, rest, hv, hr => by
    have hv' := View.atOperandStart_of_startsExpression hv
    have hsign : ∀ tl, EndsOperand (signChar minus :: tl) := by
      intro tl
      cases minus <;> exact .of_head (by decide) tl
    rw [List.map_append, View.append_append, List.map_cons, View.append_cons]
    refine .trans (h.reads hv' (hsign _)) (.trans (s := [signChar minus])
      (.sign (h.atOperandStart_eq_false v) minus (h'.endsSymbol rest)) (h'.reads ?_ ?_))
    · cases minus <;> rfl
    · exact .of_endsPhrase hr
  | .product negative h hu, v, rest, hv, hr => by
    rw [map_unsettled_product]
    exact .product (View.atOperandStart_of_startsExpression hv) negative h hu
      (.of_endsPhrase hr)
  | .assign ho h h' he, v, rest, hv, hr =>
    .between (Operator.isInfix_of_isAssignment ho) (.atom h) h' h.reads h'.reads
      (View.atOperandStart_of_startsExpression hv) (.of_endsPhrase hr)
/-- The text of a list is read as its tokens. -/
theorem Items.reads {s : List Char} {w : List (Token R)} {es : List (Expr R)} :
    Items U s w es → ∀ {v : View R} {rest : List Char}, v.startsExpression = true →
      endsPhrase rest = true → Reads v s rest (v.append (w.map Token.unsettled))
  | .one h, v, rest, hv, hr => h.reads hv hr
  | .cons h h', v, rest, hv, hr => by
    rw [List.map_append, View.append_append, List.map_cons, View.append_cons]
    exact .trans (h.reads hv rfl) (.trans (s := [',']) (.comma _ _)
      (.trans (s := [' ']) (.space _ _) (h'.reads rfl hr)))
/-- The text between two brackets is read as its tokens. -/
theorem Body.reads {s : List Char} {w : List (Token R)} {es : List (Expr R)} :
    Body U s w es → ∀ {v : View R} {rest : List Char}, v.startsExpression = true →
      endsPhrase rest = true → Reads v s rest (v.append (w.map Token.unsettled))
  | .empty, _, _, _, _ => .nil _ _
  | .items h, _, _, hv, hr => h.reads hv hr
end

/-! ## Whole texts -/

/-- A text that is read as a settled word has the tokens of the word. -/
theorem tokenize_of_reads {s : List Char} {w : List (Token R)}
    (h : Reads .empty s [] (View.empty.append (w.map Token.unsettled))) (hs : Settled 0 w) :
    tokenize (String.ofList s) = .ok w := by
  obtain ⟨d, o, hd, hv⟩ := h Draft.empty 0 rfl
  have hread : readLexemes Draft.empty (Cursor.start (String.ofList s)) = .ok d := by
    rw [Cursor.start, String.toList_ofList]
    rw [List.append_nil] at hd
    rw [hd, readLexemes]
  obtain ⟨ts, bs⟩ := d
  obtain ⟨hw, ho⟩ := View.mk.inj hv
  simp only [View.empty, List.map_eq_nil_iff, List.append_nil] at hw ho
  subst ho
  have hts : ts.reverse.map (·.token) = w.map Token.unsettled := by
    rw [List.map_reverse, hw, List.reverse_reverse]
  have hnot : bareNot? ts.reverse = none := by
    refine bareNot?_eq_none ?_
    rw [hts, ← List.append_nil (w.map Token.unsettled), hs.negations]
    rfl
  have hsettle : Token.settleArities (w.map Token.unsettled) = w := by
    have hw := hs.settle []
    rwa [List.append_nil, Token.settleArities, List.append_nil] at hw
  unfold SymbolicAlgebra.tokenize
  simp only [hread, hnot, hts, hsettle]

/-- The tokens of the text of a whole expression. -/
theorem Phrase.tokenize {s : List Char} {w : List (Token R)} {e : Expr R}
    (h : Phrase U s w e) : tokenize (String.ofList s) = .ok w :=
  tokenize_of_reads (h.reads (v := .empty) rfl rfl) h.settled

end SymbolicAlgebra
