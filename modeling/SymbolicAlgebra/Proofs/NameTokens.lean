import SymbolicAlgebra.Proofs.LexemeSteps

set_option autoImplicit false

/-!
# The names that tokens carry

A name reaches an expression only through a token, and a token only takes a word of the
text that stands for nothing else (`Token.Named`): for no operator, no truth value and no scalar.
The name of a variable is, besides, not the imaginary unit. Every token of every text has this
property (`named_of_tokenize`).
-/

namespace SymbolicAlgebra

open Text (Cursor)

variable {R : Type}

/-- The name that the token carries, if it carries one, may stand there. -/
def Token.Named : Token R → Prop
  | .name x => isVariableName x = true
  | .call f _ => isFunctionName f = true
  | _ => True

namespace Draft

/-- Every token of the draft carries a proper name. -/
def Named (d : Draft R) : Prop := ∀ t ∈ d.tokens, t.token.Named

theorem named_empty : (empty : Draft R).Named := nofun

theorem Named.push {d : Draft R} (h : d.Named) {t : Token R} {o : Nat} (ht : t.Named) :
    (d.push t o).Named := by
  intro u hu
  rcases List.mem_cons.1 hu with rfl | hu
  · exact ht
  · exact h u hu

theorem Named.pushOperator {d : Draft R} (h : d.Named) (op : Operator) (o : Nat) (b : Bool) :
    (d.pushOperator op o b).Named := by
  unfold Draft.pushOperator
  split
  · exact h
  · exact h
  · exact h.push trivial
  · refine (h.push ?_).push ?_ <;> exact trivial
  · exact h.push trivial
  · refine (h.push ?_).push ?_ <;> exact trivial
  · exact h.push trivial

theorem Named.closeBracket {d d' : Draft R} (h : d.Named) {b : Delimiter} {o : Nat}
    (hd : d.closeBracket b o = .ok d') : d'.Named := by
  obtain ⟨a, o', bs, -, -, rfl⟩ := Draft.closeBracket_eq_ok hd
  exact h.push trivial

end Draft

variable [Scalar R]

/-- Every lexeme keeps the names of a draft proper. -/
theorem Lexeme.Makes.named {d d' : Draft R} {c : Cursor} (hm : Makes d d' c) (h : d.Named) :
    d'.Named := by
  cases hm with
  | blank => exact h
  | literal ht =>
    refine h.push ?_
    rename_i t _
    cases t <;> trivial
  | merged hm z =>
    obtain ⟨ts, ht, -⟩ := Draft.mergeable?_eq_some hm
    refine Draft.Named.push (fun t hb => h t ?_) trivial
    rw [ht]
    exact List.mem_append_right ts hb
  | quantity => refine (h.push ?_).push ?_ <;> exact trivial
  | temperature => exact h.push trivial
  | operator op o => exact h.pushOperator op o _
  | call hf => exact h.push hf
  | name hx => exact h.push hx
  | opening => exact h.push trivial
  | closing hd => exact h.closeBracket hd
  | comma => exact h.push trivial

/-! ## Whole texts -/

omit [Scalar R] in
/-- Settling the numbers of arguments changes no name. -/
theorem named_settleArities {ts : List (Token R)} (h : ∀ t ∈ ts, t.Named) :
    ∀ t ∈ Token.settleArities ts, t.Named := by
  induction ts with
  | nil => exact h
  | cons t ts ih =>
    intro u hu
    rcases List.mem_cons.1 hu with rfl | hu
    · have ht := h t (List.mem_cons_self ..)
      cases t <;> exact ht
    · exact ih (fun t ht => h t (List.mem_cons_of_mem _ ht)) u hu

/-- Every token of every text carries a proper name. -/
theorem named_of_tokenize {text : String} {ts : List (Token R)}
    (h : tokenize text = .ok ts) : ∀ t ∈ ts, t.Named := by
  obtain ⟨d, hd, -, -, rfl⟩ := tokenize_eq_ok h
  have hstep : ∀ (d : Draft R) c x xs d' c', d.Named → c.rest = x :: xs →
      Lexeme.step d c x = .ok (d', c') → d'.Named := fun _ _ _ _ _ _ hn hx hs =>
    (Lexeme.makes_of_step hx hs).named hn
  obtain ⟨-, -, hnamed⟩ :=
    invariant_of_readLexemes (P := fun d _ => d.Named) hstep Draft.named_empty hd
  refine named_settleArities fun t ht => ?_
  obtain ⟨l, hl, rfl⟩ := List.mem_map.1 (List.mem_reverse.1 ht)
  exact hnamed l hl

end SymbolicAlgebra
