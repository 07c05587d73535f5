set_option autoImplicit false

/-!
# Cursors in a text

A cursor is a place in a text: the characters that still lie ahead and the number of bytes
behind. Offsets count the bytes of the UTF-8 encoding, so that a message can point into
the text as it is stored.

One cursor lies behind another in the same text at the right offset (`Text.Cursor.Reaches`), a
preorder that every move respects. The termination of scanning rests on reaching a cursor with
fewer characters ahead (`Text.Cursor.Passes`).
-/

namespace SymbolicAlgebra.Text

/-- The number of bytes of a list of characters. -/
def byteLength : List Char → Nat
  | [] => 0
  | c :: w => c.utf8Size + byteLength w

@[simp] theorem byteLength_nil : byteLength [] = 0 := rfl

@[simp] theorem byteLength_cons (c : Char) (w : List Char) :
    byteLength (c :: w) = c.utf8Size + byteLength w := rfl

@[simp] theorem byteLength_append (v w : List Char) :
    byteLength (v ++ w) = byteLength v + byteLength w := by
  induction v with
  | nil => simp
  | cons c v ih => simp only [List.cons_append, byteLength_cons, ih]; omega

/-- A place in a text. -/
structure Cursor where
  /-- The number of bytes behind the cursor. -/
  offset : Nat
  /-- The characters ahead of the cursor. -/
  rest : List Char

namespace Cursor

/-- The cursor at the start of a text. -/
def start (text : String) : Cursor := ⟨0, text.toList⟩

/-- The next character. -/
def peek? (c : Cursor) : Option Char := c.rest.head?

/-- Whether the next character has a property. -/
def nextIs (c : Cursor) (p : Char → Bool) : Bool := c.rest.head?.any p

/-- Moves past some characters. -/
def drop (c : Cursor) (n : Nat) : Cursor :=
  ⟨c.offset + byteLength (c.rest.take n), c.rest.drop n⟩

/-- The longest run of characters ahead that have a property, and the cursor behind it. -/
def span (c : Cursor) (p : Char → Bool) : List Char × Cursor :=
  let w := c.rest.takeWhile p
  (w, ⟨c.offset + byteLength w, c.rest.dropWhile p⟩)

/-- Moves past the longest run of characters that have a property. -/
def skip (c : Cursor) (p : Char → Bool) : Cursor := (c.span p).2

/-- The text between two cursors, the second one behind the first. -/
def upTo (c c' : Cursor) : String :=
  String.ofList (c.rest.take (c.rest.length - c'.rest.length))

/-! ## Reaching -/

/-- The second cursor lies behind the first one in the same text, at the right offset. -/
def Reaches (c c' : Cursor) : Prop :=
  ∃ w, c.rest = w ++ c'.rest ∧ c'.offset = c.offset + byteLength w

theorem Reaches.refl (c : Cursor) : c.Reaches c := ⟨[], by simp⟩

theorem Reaches.trans {a b c : Cursor} (h : a.Reaches b) (h' : b.Reaches c) :
    a.Reaches c := by
  obtain ⟨v, hv, ov⟩ := h
  obtain ⟨w, hw, ow⟩ := h'
  exact ⟨v ++ w, by simp [hv, hw], by simp only [ow, ov, byteLength_append]; omega⟩

theorem Reaches.length_le {c c' : Cursor} (h : c.Reaches c') :
    c'.rest.length ≤ c.rest.length := by
  obtain ⟨w, hw, _⟩ := h
  simp [hw]

theorem reaches_drop (c : Cursor) (n : Nat) : c.Reaches (c.drop n) :=
  ⟨c.rest.take n, by simp [drop], rfl⟩

theorem reaches_span (c : Cursor) (p : Char → Bool) : c.Reaches (c.span p).2 :=
  ⟨c.rest.takeWhile p, by simp [span], rfl⟩

theorem reaches_skip (c : Cursor) (p : Char → Bool) : c.Reaches (c.skip p) :=
  reaches_span c p

/-- The text between a cursor and one that it reaches is what separates them. -/
theorem upTo_eq {c c' : Cursor} {w : List Char} (h : c.rest = w ++ c'.rest) :
    c.upTo c' = String.ofList w := by
  simp [upTo, h]

/-! ## Passing -/

/-- The second cursor is reached from the first one and has fewer characters ahead. -/
def Passes (c c' : Cursor) : Prop := c.Reaches c' ∧ c'.rest.length < c.rest.length

theorem Passes.trans_reaches {a b c : Cursor} (h : a.Passes b) (h' : b.Reaches c) :
    a.Passes c :=
  ⟨h.1.trans h', Nat.lt_of_le_of_lt h'.length_le h.2⟩

theorem Reaches.trans_passes {a b c : Cursor} (h : a.Reaches b) (h' : b.Passes c) :
    a.Passes c :=
  ⟨h.trans h'.1, Nat.lt_of_lt_of_le h'.2 h.length_le⟩

/-- Moving past at least one character passes a cursor that is not at the end. -/
theorem passes_drop {c : Cursor} {n : Nat} (hn : 0 < n) (hc : c.rest ≠ []) :
    c.Passes (c.drop n) := by
  refine ⟨reaches_drop c n, ?_⟩
  have := List.length_pos_iff.2 hc
  simp only [drop, List.length_drop]
  omega

/-- A run that starts at the cursor passes it. -/
theorem passes_span {c : Cursor} {p : Char → Bool} (h : c.nextIs p = true) :
    c.Passes (c.span p).2 := by
  refine ⟨reaches_span c p, ?_⟩
  obtain ⟨o, rest⟩ := c
  cases rest with
  | nil => simp [nextIs] at h
  | cons x xs =>
    simp only [nextIs, List.head?_cons, Option.any_some] at h
    have := List.IsSuffix.length_le (List.dropWhile_suffix p (l := xs))
    simp only [span, List.dropWhile_cons, h, ↓reduceIte, List.length_cons]
    omega

end Cursor

end SymbolicAlgebra.Text
