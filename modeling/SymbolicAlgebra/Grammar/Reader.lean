import SymbolicAlgebra.Token

set_option autoImplicit false

/-!
# Readers: places in a sequence of tokens

A reader is a place in a sequence of tokens: the tokens ahead, the number of tokens
behind, and the last of these, which decides whether two neighbours are multiplied. One reader
lies behind another one where a word of tokens separates them (`Reader.Follows`), a preorder that
`Reader.advance` respects.
-/

namespace SymbolicAlgebra

/-- A place in a sequence of tokens. -/
structure Reader (R : Type) where
  /-- The number of tokens behind the reader. -/
  index : Nat
  /-- The last token behind the reader. -/
  last? : Option (Token R)
  /-- The tokens ahead of the reader. -/
  rest : List (Token R)

namespace Reader

variable {R : Type}

/-- The reader before all tokens. -/
def start (ts : List (Token R)) : Reader R := ⟨0, none, ts⟩

/-- Moves past the next token. -/
def advance (c : Reader R) : Reader R :=
  match c.rest with
  | [] => c
  | t :: ts => ⟨c.index + 1, some t, ts⟩

@[simp] theorem rest_advance (c : Reader R) : c.advance.rest = c.rest.tail := by
  unfold advance
  split <;> simp_all

/-- Moving past a token leaves one token less. -/
theorem length_advance {c : Reader R} {t : Token R} {ts : List (Token R)}
    (h : c.rest = t :: ts) : c.advance.rest.length < c.rest.length := by
  simp [h]

/-- The tokens `w` separate the first reader from the second one. -/
def Follows (c : Reader R) (w : List (Token R)) (c' : Reader R) : Prop :=
  c.rest = w ++ c'.rest ∧ c'.index = c.index + w.length ∧ c'.last? = w.getLast?.or c.last?

theorem Follows.refl (c : Reader R) : c.Follows [] c := by
  simp [Follows]

theorem Follows.trans {a b c : Reader R} {v w : List (Token R)} (h : a.Follows v b)
    (h' : b.Follows w c) : a.Follows (v ++ w) c := by
  obtain ⟨h₁, h₂, h₃⟩ := h
  obtain ⟨h₁', h₂', h₃'⟩ := h'
  refine ⟨by simp [h₁, h₁'], by simp [h₂, h₂', Nat.add_assoc], ?_⟩
  rw [h₃', h₃, List.getLast?_append]
  cases w.getLast? <;> simp

theorem follows_advance {c : Reader R} {t : Token R} {ts : List (Token R)}
    (h : c.rest = t :: ts) : c.Follows [t] c.advance := by
  unfold advance
  rw [h]
  simp [Follows, h]

end Reader

end SymbolicAlgebra
