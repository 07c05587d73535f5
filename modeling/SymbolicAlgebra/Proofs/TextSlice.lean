import SymbolicAlgebra.Text.Cursor

set_option autoImplicit false

/-!
# Slices of a text by offsets in bytes

A cursor carries the characters ahead, so that it cannot leave the text or stand within a
character. A program that computes offsets in bytes by hand can do both: a slice of a text
(`Text.slice?`) exists only between two offsets in order at which characters start or end
(`Text.isSome_slice?_iff`). Between two cursors of the text there is always one
(`Text.slice?_of_reaches`), and the offset behind a run of characters is the one that is computed
by hand (`Text.Cursor.takeWhile`).
-/

namespace SymbolicAlgebra.Text

/-! ## Slices -/

/-- The characters before an offset in bytes and those behind it, if no character lies on both
sides. -/
def splitBytes? : Nat → List Char → Option (List Char × List Char)
  | 0, w => some ([], w)
  | _ + 1, [] => none
  | n + 1, x :: w =>
    if x.utf8Size ≤ n + 1 then
      (splitBytes? (n + 1 - x.utf8Size) w).map fun uv => (x :: uv.1, uv.2)
    else none

/-- The part of a text from one offset in bytes up to another. -/
def slice? (text : String) (start stop : Nat) : Option String :=
  if start ≤ stop then
    (splitBytes? start text.toList).bind fun uv =>
      (splitBytes? (stop - start) uv.2).map fun wv => String.ofList wv.1
  else none

/-- Only no characters take no bytes. -/
theorem byteLength_eq_zero_iff {w : List Char} : byteLength w = 0 ↔ w = [] := by
  cases w with
  | nil => simp
  | cons x w =>
    have := x.utf8Size_pos
    simp only [byteLength_cons, reduceCtorEq, iff_false]
    omega

theorem byteLength_toList (s : String) : byteLength s.toList = s.utf8ByteSize := by
  suffices h : ∀ w : List Char, byteLength w = (String.ofList w).utf8ByteSize by
    rw [h, String.ofList_toList]
  intro w
  induction w with
  | nil => rfl
  | cons x w ih =>
    rw [String.ofList_cons, String.utf8ByteSize_append, byteLength_cons, ih,
      String.utf8ByteSize_singleton]

theorem splitBytes?_eq_some_iff {n : Nat} {w u v : List Char} :
    splitBytes? n w = some (u, v) ↔ w = u ++ v ∧ byteLength u = n := by
  induction w generalizing n u with
  | nil =>
    cases n with
    | zero =>
      rw [byteLength_eq_zero_iff]
      simp only [splitBytes?, Option.some.injEq, Prod.mk.injEq]
      constructor
      · rintro ⟨rfl, rfl⟩
        exact ⟨rfl, rfl⟩
      · rintro ⟨h, rfl⟩
        exact ⟨rfl, h⟩
    | succ n =>
      simp only [splitBytes?, reduceCtorEq, false_iff, not_and]
      intro h
      obtain ⟨rfl, -⟩ := List.append_eq_nil_iff.1 h.symm
      simp
  | cons x w ih =>
    have hx := x.utf8Size_pos
    cases n with
    | zero =>
      rw [byteLength_eq_zero_iff]
      simp only [splitBytes?, Option.some.injEq, Prod.mk.injEq]
      constructor
      · rintro ⟨rfl, rfl⟩
        exact ⟨rfl, rfl⟩
      · rintro ⟨h, rfl⟩
        exact ⟨rfl, h⟩
    | succ n =>
      rw [splitBytes?, Option.ite_none_right_eq_some, Option.map_eq_some_iff]
      constructor
      · rintro ⟨hle, ⟨u', v'⟩, h, heq⟩
        obtain ⟨rfl, rfl⟩ := Prod.mk.inj heq
        obtain ⟨rfl, hu⟩ := ih.1 h
        refine ⟨rfl, ?_⟩
        calc byteLength (x :: u')
          _ = x.utf8Size + byteLength u' := rfl
          _ = n + 1 := by omega
      · rintro ⟨h, hu⟩
        cases u with
        | nil => cases hu
        | cons y u =>
          obtain ⟨rfl, rfl⟩ := List.cons.inj h
          rw [byteLength_cons] at hu
          exact ⟨by omega, (u, v), ih.2 ⟨rfl, by omega⟩, rfl⟩

/-- A slice lies between what precedes it and what follows it. -/
theorem slice?_eq_some_iff {text s : String} {start stop : Nat} :
    slice? text start stop = some s ↔ ∃ u v, text.toList = u ++ (s.toList ++ v) ∧
      byteLength u = start ∧ stop = start + byteLength s.toList := by
  unfold slice?
  rw [Option.ite_none_right_eq_some, Option.bind_eq_some_iff]
  simp only [Option.map_eq_some_iff]
  constructor
  · rintro ⟨hle, ⟨u, t⟩, hu, ⟨w, v⟩, hw, rfl⟩
    obtain ⟨htext, hu⟩ := splitBytes?_eq_some_iff.1 hu
    obtain ⟨ht, hw⟩ := splitBytes?_eq_some_iff.1 hw
    dsimp only at ht hw ⊢
    rw [String.toList_ofList]
    exact ⟨u, v, by rw [htext, ht], hu, by omega⟩
  · rintro ⟨u, v, hu, rfl, rfl⟩
    refine ⟨Nat.le_add_right _ _, (u, s.toList ++ v), splitBytes?_eq_some_iff.2 ⟨hu, rfl⟩,
      (s.toList, v), splitBytes?_eq_some_iff.2 ⟨rfl, ?_⟩, String.ofList_toList⟩
    exact (Nat.add_sub_cancel_left _ _).symm

/-- Characters start or end at an offset in bytes exactly if it is the length of what precedes
some of the characters. -/
theorem isValid_iff {text : String} {n : Nat} :
    (⟨n⟩ : String.Pos.Raw).IsValid text ↔ ∃ u v, text.toList = u ++ v ∧ byteLength u = n := by
  rw [String.Pos.Raw.isValid_iff_exists_append]
  constructor
  · rintro ⟨s, t, rfl, h⟩
    refine ⟨s.toList, t.toList, String.toList_append, ?_⟩
    rw [byteLength_toList]
    exact (congrArg String.Pos.Raw.byteIdx h).symm
  · rintro ⟨u, v, h, rfl⟩
    refine ⟨String.ofList u, String.ofList v, ?_, ?_⟩
    · rw [← String.ofList_append, ← h, String.ofList_toList]
    · rw [← String.toList_ofList (l := u), byteLength_toList, String.ofList_toList]
      rfl

/-- There is a slice exactly if the offsets are in order and lie in the text, between
characters. -/
theorem isSome_slice?_iff {text : String} {start stop : Nat} :
    (slice? text start stop).isSome = true ↔ start ≤ stop ∧
      (⟨start⟩ : String.Pos.Raw).IsValid text ∧ (⟨stop⟩ : String.Pos.Raw).IsValid text := by
  rw [Option.isSome_iff_exists, isValid_iff, isValid_iff]
  constructor
  · rintro ⟨s, h⟩
    obtain ⟨u, v, htext, rfl, rfl⟩ := slice?_eq_some_iff.1 h
    refine ⟨Nat.le_add_right _ _, ⟨u, _, htext, rfl⟩, u ++ s.toList, v, ?_, byteLength_append _ _⟩
    rw [htext, List.append_assoc]
  · rintro ⟨hle, ⟨u, v, hu, rfl⟩, ⟨u', v', hu', rfl⟩⟩
    have hslice : ∀ w, u' = u ++ w → v = w ++ v' →
        slice? text (byteLength u) (byteLength u') = some (String.ofList w) := by
      rintro w rfl rfl
      refine slice?_eq_some_iff.2 ⟨u, v', ?_, rfl, ?_⟩ <;> rw [String.toList_ofList]
      · exact hu
      · exact byteLength_append u w
    -- One of the two parts before the offsets is the start of the other one.
    rcases List.append_eq_append_iff.1 (hu.symm.trans hu') with ⟨w, hw, hv⟩ | ⟨w, hw, hv⟩
    · exact ⟨_, hslice w hw hv⟩
    · obtain rfl : w = [] := by
        rw [hw, byteLength_append] at hle
        exact byteLength_eq_zero_iff.1 (by omega)
      refine ⟨_, hslice [] ?_ ?_⟩
      · rw [List.append_nil] at hw ⊢
        exact hw.symm
      · exact hv.symm

/-- Three bytes lie before the degree sign, and it takes two. -/
example : slice? "20 °C" 3 5 = some "°" ∧ slice? "20 °C" 3 4 = none := by decide

/-- Between two cursors in a text there is a slice: what separates them. -/
theorem slice?_of_reaches {text : String} {c c' : Cursor} (h : (Cursor.start text).Reaches c)
    (h' : c.Reaches c') : slice? text c.offset c'.offset = some (c.upTo c') := by
  obtain ⟨u, hu, ho⟩ := h
  obtain ⟨w, hw, ho'⟩ := h'
  rw [Cursor.upTo_eq hw, slice?_eq_some_iff, String.toList_ofList]
  refine ⟨u, c'.rest, ?_, ?_, ho'⟩
  · rw [← hw]
    exact hu
  · rw [ho]
    exact (Nat.zero_add _).symm

/-! ## Next characters and runs -/

namespace Cursor

/-- Moving past one character. -/
theorem offset_drop_one {c : Cursor} {x : Char} {xs : List Char} (h : c.rest = x :: xs) :
    (c.drop 1).offset = c.offset + x.utf8Size := by
  simp [drop, h]

theorem exists_cons_of_nextIs {c : Cursor} {p : Char → Bool} (h : c.nextIs p = true) :
    ∃ x xs, c.rest = x :: xs ∧ p x = true := by
  unfold nextIs at h
  cases hc : c.rest with
  | nil => rw [hc] at h; cases h
  | cons x xs =>
    rw [hc] at h
    exact ⟨x, xs, rfl, h⟩

theorem exists_rest_of_nextIs {c : Cursor} {x : Char} (h : c.nextIs (· == x) = true) :
    ∃ xs, c.rest = x :: xs := by
  obtain ⟨y, ys, hy, hyx⟩ := exists_cons_of_nextIs h
  obtain rfl : y = x := by simpa using hyx
  exact ⟨ys, hy⟩

/-- Something is ahead where a character is next. -/
theorem rest_ne_nil {c : Cursor} {p : Char → Bool} (h : c.nextIs p = true) : c.rest ≠ [] := by
  obtain ⟨x, xs, hx, -⟩ := exists_cons_of_nextIs h
  rw [hx]
  exact List.cons_ne_nil x xs

theorem nextIs_of_rest {c : Cursor} {x : Char} {xs : List Char} (h : c.rest = x :: xs)
    (p : Char → Bool) : c.nextIs p = p x := by
  simp [nextIs, h]

/-- A run of characters and what lies behind it. -/
theorem rest_eq_span (c : Cursor) (p : Char → Bool) :
    c.rest = (c.span p).1 ++ (c.span p).2.rest :=
  List.takeWhile_append_dropWhile.symm

/-- The characters of a run have the property. -/
theorem of_mem_span {c : Cursor} {p : Char → Bool} {x : Char} (h : x ∈ (c.span p).1) :
    p x = true :=
  List.all_eq_true.1 List.all_takeWhile x h

/-- Behind a run the property does not hold. -/
theorem nextIs_span (c : Cursor) (p : Char → Bool) : (c.span p).2.nextIs p = false := by
  unfold nextIs span
  dsimp only
  cases h : c.rest.dropWhile p with
  | nil => rfl
  | cons x xs =>
    have := List.head?_dropWhile_not p c.rest
    rw [h] at this
    simpa using this

/-- The characters at the start of a list that have a property, given the offset of the list:
the offset behind the last one, or `stop` if there is none, and the cursor behind them. -/
def takeWhileFrom (p : Char → Bool) : (stop offset : Nat) → List Char → Nat × Cursor
  | stop, o, [] => (stop, ⟨o, []⟩)
  | stop, o, x :: w =>
    if p x then takeWhileFrom p (o + x.utf8Size) (o + x.utf8Size) w else (stop, ⟨o, x :: w⟩)

/-- Moves past the characters that have a property: the offset behind the last one, or `stop` if
there is none, and the cursor behind them. -/
def takeWhile (c : Cursor) (stop : Nat) (p : Char → Bool) : Nat × Cursor :=
  takeWhileFrom p stop c.offset c.rest

/-- Where the offset for no characters is that of the cursor, the offset found is that of the
cursor behind the run. -/
theorem takeWhile_eq (c : Cursor) (p : Char → Bool) :
    c.takeWhile c.offset p = ((c.span p).2.offset, (c.span p).2) := by
  obtain ⟨o, w⟩ := c
  unfold takeWhile span
  dsimp only
  induction w generalizing o with
  | nil => rfl
  | cons x w ih =>
    rw [takeWhileFrom]
    split
    · rename_i hx
      rw [ih, List.takeWhile_cons_of_pos hx, List.dropWhile_cons_of_pos hx, byteLength_cons,
        Nat.add_assoc]
    · rename_i hx
      rw [List.takeWhile_cons_of_neg hx, List.dropWhile_cons_of_neg hx]
      rfl

/-- The run of characters at the start of a cursor is empty if the cursor behind it has the same
offset. -/
theorem offset_span_eq_iff (c : Cursor) (p : Char → Bool) :
    (c.span p).2.offset = c.offset ↔ (c.span p).1.isEmpty = true := by
  rw [List.isEmpty_iff, ← byteLength_eq_zero_iff]
  exact Nat.add_eq_left

/-- Moving past some characters and then past others. -/
theorem drop_drop (c : Cursor) (m n : Nat) : (c.drop m).drop n = c.drop (m + n) := by
  unfold drop
  rw [List.take_add, byteLength_append, List.drop_drop, Nat.add_assoc]

end Cursor

end SymbolicAlgebra.Text
