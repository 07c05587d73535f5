import SymbolicAlgebra.Proofs.ConcreteSyntax

set_option autoImplicit false

/-!
# Words with nested brackets

Brackets that are balanced and properly nested by kind (`Nested`), and the arguments between two
brackets (`Arguments`): what commas outside of inner brackets separate. A word is nested exactly
if it can be read with nothing open before and behind it (`nested_iff`), so the bracket that closes
a group is found in one way (`Nested.eq_of_append_close`), and the count that is written into a
call is the number of its arguments (`Arguments.argumentCount`).
-/

namespace SymbolicAlgebra

variable {R : Type}

/-! ## The words -/

/-- Whether the token opens or closes a group. -/
def Token.isBracket : Token R → Bool
  | .delimiter d => d.isOpen || d.isClose
  | _ => false

/-- The brackets of the word are balanced and properly nested by kind. -/
inductive Nested : List (Token R) → Prop where
  | nil : Nested []
  | cons {t : Token R} {w : List (Token R)} (ht : t.isBracket = false) (h : Nested w) :
      Nested (t :: w)
  | group {b b' : Delimiter} {v w : List (Token R)} (hb : b.closing? = some b')
      (h : Nested v) (h' : Nested w) : Nested (.delimiter b :: (v ++ .delimiter b' :: w))

/-- The brackets of the word are nested, and no comma stands outside of them. -/
inductive Segment : List (Token R) → Prop where
  | nil : Segment []
  | cons {t : Token R} {w : List (Token R)} (ht : t.isDelimiter = false) (h : Segment w) :
      Segment (t :: w)
  | group {b b' : Delimiter} {v w : List (Token R)} (hb : b.closing? = some b')
      (h : Nested v) (h' : Segment w) : Segment (.delimiter b :: (v ++ .delimiter b' :: w))

/-- The word consists of `n` segments with commas between them. -/
inductive Segmented : List (Token R) → Nat → Prop where
  | one {w : List (Token R)} (h : Segment w) : Segmented w 1
  | cons {w w' : List (Token R)} {n : Nat} (h : Segment w) (h' : Segmented w' n) :
      Segmented (w ++ .delimiter .comma :: w') (n + 1)

/-- The word holds `n` arguments: none if nothing is there, and its segments otherwise. -/
inductive Arguments : List (Token R) → Nat → Prop where
  | empty : Arguments [] 0
  | segments {w : List (Token R)} {n : Nat} (hw : w ≠ []) (h : Segmented w n) : Arguments w n

/-! ## Putting words together -/

theorem Token.isBracket_of_isDelimiter {t : Token R} (h : t.isDelimiter = false) :
    t.isBracket = false := by
  cases t <;> first | rfl | cases h

theorem Nested.append {v w : List (Token R)} (h : Nested v) (h' : Nested w) :
    Nested (v ++ w) := by
  induction h with
  | nil => exact h'
  | cons ht _ ih => exact .cons ht ih
  | group hb h _ _ ih =>
    rw [List.cons_append, List.append_assoc]
    exact .group hb h ih

/-- A word without brackets. -/
theorem nested_of_forall {w : List (Token R)} (h : ∀ t ∈ w, t.isBracket = false) :
    Nested w := by
  induction w with
  | nil => exact .nil
  | cons t w ih =>
    rw [List.forall_mem_cons] at h
    exact .cons h.1 (ih h.2)

theorem Segment.append {v w : List (Token R)} (h : Segment v) (h' : Segment w) :
    Segment (v ++ w) := by
  induction h with
  | nil => exact h'
  | cons ht _ ih => exact .cons ht ih
  | group hb h _ ih =>
    rw [List.cons_append, List.append_assoc]
    exact .group hb h ih

theorem Segment.nested {w : List (Token R)} (h : Segment w) : Nested w := by
  induction h with
  | nil => exact .nil
  | cons ht _ ih => exact .cons (Token.isBracket_of_isDelimiter ht) ih
  | group hb h _ ih => exact .group hb h ih

theorem Segmented.nested {w : List (Token R)} {n : Nat} (h : Segmented w n) : Nested w := by
  induction h with
  | one h => exact h.nested
  | cons h _ ih => exact h.nested.append (.cons rfl ih)

theorem Arguments.nested {w : List (Token R)} {n : Nat} (h : Arguments w n) : Nested w := by
  cases h with
  | empty => exact .nil
  | segments _ h => exact h.nested

/-- A token without a comma may be put in front of segments. -/
theorem Segmented.prepend {v w : List (Token R)} {n : Nat} (hv : Segment v)
    (h : Segmented w n) : Segmented (v ++ w) n := by
  cases h with
  | one h => exact .one (hv.append h)
  | cons h h' =>
    rw [← List.append_assoc]
    exact .cons (hv.append h) h'

/-- Every nested word falls into segments. -/
theorem Nested.exists_segmented {w : List (Token R)} (h : Nested w) : ∃ n, Segmented w n := by
  induction h with
  | nil => exact ⟨1, .one .nil⟩
  | cons ht _ ih =>
    rename_i t w _
    obtain ⟨n, hn⟩ := ih
    -- A comma starts a new segment; any other token belongs to the first one.
    cases hd : t.isDelimiter with
    | false => exact ⟨n, hn.prepend (.cons hd .nil)⟩
    | true =>
      obtain rfl : t = .delimiter .comma := by
        cases t with
        | delimiter d => cases d <;> first | rfl | cases ht
        | _ => cases hd
      exact ⟨n + 1, .cons .nil hn⟩
  | group hb h _ _ ih =>
    obtain ⟨n, hn⟩ := ih
    have hs := hn.prepend (.group hb h .nil)
    rw [List.cons_append, List.append_assoc] at hs
    exact ⟨n, hs⟩

/-- Every nested word between two brackets holds some number of arguments. -/
theorem Nested.exists_arguments {w : List (Token R)} (h : Nested w) : ∃ n, Arguments w n := by
  by_cases hw : w = []
  · rw [hw]
    exact ⟨0, .empty⟩
  · obtain ⟨n, hn⟩ := h.exists_segmented
    exact ⟨n, .segments hw hn⟩

/-! ## Open brackets -/

/-- The brackets that are open behind a token, the innermost first, if the token closes no
bracket or the innermost one. -/
def Token.openAfter? (bs : List Delimiter) : Token R → Option (List Delimiter)
  | .delimiter b =>
    if b.isOpen then some (b :: bs)
    else if b.isClose then
      match bs with
      | a :: bs => if a.closing? = some b then some bs else none
      | [] => none
    else some bs
  | _ => some bs

/-- The brackets that are open behind a word. -/
def openAfter? (bs : List Delimiter) (w : List (Token R)) : Option (List Delimiter) :=
  w.foldlM Token.openAfter? bs

theorem openAfter?_cons (bs : List Delimiter) (t : Token R) (w : List (Token R)) :
    openAfter? bs (t :: w) = (t.openAfter? bs).bind (openAfter? · w) := rfl

theorem openAfter?_append (bs : List Delimiter) (v w : List (Token R)) :
    openAfter? bs (v ++ w) = (openAfter? bs v).bind (openAfter? · w) :=
  List.foldlM_append

namespace Token

variable {t : Token R} {bs bs' : List Delimiter} {b b' : Delimiter}

theorem openAfter?_of_isBracket (h : t.isBracket = false) (bs : List Delimiter) :
    t.openAfter? bs = some bs := by
  cases t with
  | delimiter d => cases d <;> first | rfl | cases h
  | _ => rfl

theorem openAfter?_open (h : b.isOpen = true) (bs : List Delimiter) :
    (delimiter b : Token R).openAfter? bs = some (b :: bs) := by
  cases b <;> first | rfl | cases h

theorem openAfter?_close (h : b.closing? = some b') (bs : List Delimiter) :
    (delimiter b' : Token R).openAfter? (b :: bs) = some bs := by
  cases b <;> cases h <;> rfl

/-- A token opens a bracket, closes the innermost one or does neither. -/
theorem openAfter?_eq_some (h : t.openAfter? bs = some bs') :
    (t.isBracket = false ∧ bs' = bs) ∨
      (∃ b, t = .delimiter b ∧ b.isOpen = true ∧ bs' = b :: bs) ∨
      ∃ a b, t = .delimiter b ∧ a.closing? = some b ∧ bs = a :: bs' := by
  cases t with
  | delimiter b =>
    by_cases ho : b.isOpen = true
    · rw [openAfter?_open ho] at h
      exact .inr (.inl ⟨b, rfl, ho, (Option.some.inj h).symm⟩)
    · by_cases hc : b.isClose = true
      · unfold openAfter? at h
        simp only [ho, hc, if_true, Bool.false_eq_true, if_false] at h
        split at h
        · rename_i a bs
          obtain ⟨ha, hbs⟩ := Option.ite_none_right_eq_some.1 h
          exact .inr (.inr ⟨a, b, rfl, ha, by rw [Option.some.inj hbs]⟩)
        · cases h
      · have hb : (delimiter b : Token R).isBracket = false := by
          simp [isBracket, ho, hc]
        rw [openAfter?_of_isBracket hb] at h
        exact .inl ⟨hb, (Option.some.inj h).symm⟩
  | _ => exact .inl ⟨rfl, (Option.some.inj h).symm⟩

end Token

/-- A nested word leaves the open brackets as they are. -/
theorem Nested.openAfter?_eq {w : List (Token R)} (h : Nested w) (bs : List Delimiter) :
    openAfter? bs w = some bs := by
  induction h generalizing bs with
  | nil => rfl
  | cons ht _ ih =>
    rw [openAfter?_cons, Token.openAfter?_of_isBracket ht]
    exact ih bs
  | group hb _ _ ih ih' =>
    rw [openAfter?_cons, Token.openAfter?_open (Delimiter.isOpen_isClose hb).1, Option.bind_some,
      openAfter?_append, ih, Option.bind_some, openAfter?_cons, Token.openAfter?_close hb]
    exact ih' bs

/-- The word closes the brackets given, the innermost first, with nested words before each
closing bracket and behind the last one. -/
inductive Closes : List Delimiter → List (Token R) → Prop where
  | done {w : List (Token R)} (h : Nested w) : Closes [] w
  | close {b b' : Delimiter} {bs : List Delimiter} {v w : List (Token R)}
      (hb : b.closing? = some b') (h : Nested v) (h' : Closes bs w) :
      Closes (b :: bs) (v ++ .delimiter b' :: w)

/-- A nested word in front changes nothing. -/
theorem Closes.prepend {bs : List Delimiter} {v w : List (Token R)} (hv : Nested v)
    (h : Closes bs w) : Closes bs (v ++ w) := by
  cases h with
  | done h => exact .done (hv.append h)
  | close hb h h' =>
    rw [← List.append_assoc]
    exact .close hb (hv.append h) h'

/-- What leaves no bracket open closes those that were open before. -/
theorem closes_of_openAfter? {bs : List Delimiter} {w : List (Token R)}
    (h : openAfter? bs w = some []) : Closes bs w := by
  induction w generalizing bs with
  | nil =>
    obtain rfl : bs = [] := Option.some.inj h
    exact .done .nil
  | cons t w ih =>
    rw [openAfter?_cons, Option.bind_eq_some_iff] at h
    obtain ⟨bs', ht, h⟩ := h
    rcases Token.openAfter?_eq_some ht with
      ⟨hb, rfl⟩ | ⟨b, rfl, ho, rfl⟩ | ⟨a, b, rfl, hab, rfl⟩
    · exact (ih h).prepend (.cons hb .nil)
    · -- The bracket and its partner, found by induction, form a group.
      cases ih h with
      | close hb hv hw =>
        have hg := hw.prepend (.group hb hv .nil)
        rw [List.cons_append, List.append_assoc] at hg
        exact hg
    · exact .close hab .nil (ih h)

/-- A word is nested exactly where it can be read with nothing open before and behind it. -/
theorem nested_iff {w : List (Token R)} : Nested w ↔ openAfter? [] w = some [] := by
  constructor
  · intro h
    exact h.openAfter?_eq []
  · intro h
    cases closes_of_openAfter? h with
    | done h => exact h

/-! ## The bracket that closes a group -/

/-- Behind a nested word no bracket closes. -/
theorem Nested.not_close {v u : List (Token R)} {b : Delimiter} (hb : b.isClose = true)
    (hv : Nested v) : ¬ Nested (v ++ .delimiter b :: u) := by
  intro h
  have hs := h.openAfter?_eq []
  rw [openAfter?_append, hv.openAfter?_eq, Option.bind_some, openAfter?_cons] at hs
  cases b <;> first | (cases hb; done) | cases hs

/-- The bracket that closes a group is the same in whatever way the word is taken apart. -/
theorem Nested.eq_of_append_close {v v' x x' : List (Token R)} {b b' : Delimiter}
    (h : Nested v) (h' : Nested v') (hb : b.isClose = true) (hb' : b'.isClose = true)
    (heq : v ++ .delimiter b :: x = v' ++ .delimiter b' :: x') : v = v' := by
  -- The longer one of two words would hold the bracket that closes behind the shorter one.
  rcases List.append_eq_append_iff.1 heq with ⟨u, rfl, hu⟩ | ⟨u, rfl, hu⟩
  · cases u with
    | nil => exact (List.append_nil v).symm
    | cons t u =>
      obtain ⟨rfl, -⟩ := List.cons.inj hu
      exact absurd h' (h.not_close hb)
  · cases u with
    | nil => exact List.append_nil v'
    | cons t u =>
      obtain ⟨rfl, -⟩ := List.cons.inj hu
      exact absurd h (h'.not_close hb')

/-- A nested word does not end within a group. -/
theorem Nested.not_open {u w : List (Token R)} {b : Delimiter} (hb : b.isOpen = true)
    (hw : Nested w) : ¬ Nested (u ++ .delimiter b :: w) := by
  intro h
  have hs := h.openAfter?_eq []
  rw [openAfter?_append, Option.bind_eq_some_iff] at hs
  obtain ⟨bs, -, hs⟩ := hs
  rw [openAfter?_cons, Token.openAfter?_open hb, Option.bind_some, hw.openAfter?_eq] at hs
  cases hs

/-- A group that is opened in a nested word is closed in it. -/
theorem Nested.exists_close {u w : List (Token R)} {b : Delimiter} (hb : b.isOpen = true)
    (h : Nested (u ++ .delimiter b :: w)) :
    ∃ b' v x, b.closing? = some b' ∧ w = v ++ .delimiter b' :: x ∧ Nested v := by
  have hs := h.openAfter?_eq []
  rw [openAfter?_append, Option.bind_eq_some_iff] at hs
  obtain ⟨bs, -, hs⟩ := hs
  rw [openAfter?_cons, Token.openAfter?_open hb, Option.bind_some] at hs
  cases closes_of_openAfter? hs with
  | close hc hv _ => exact ⟨_, _, _, hc, rfl, hv⟩

/-! ## Counting -/

open Token (argumentCount)

/-- Behind a token something has been passed. -/
theorem or_isEmpty_cons (any : Bool) (t : Token R) (w : List (Token R)) :
    (any || !(t :: w).isEmpty) = true := by
  cases any <;> rfl

/-- Inside of inner brackets no comma counts. -/
theorem Nested.argumentCount_inner {w : List (Token R)} (h : Nested w) (depth commas : Nat)
    (rest : List (Token R)) :
    argumentCount (depth + 1) commas true (w ++ rest) =
      argumentCount (depth + 1) commas true rest := by
  induction h generalizing depth rest with
  | nil => rfl
  | cons ht _ ih =>
    rename_i t w _
    have hstep : ∀ ts : List (Token R), argumentCount (depth + 1) commas true (t :: ts) =
        argumentCount (depth + 1) commas true ts := by
      intro ts
      cases t with
      | delimiter d => cases d <;> first | rfl | cases ht
      | _ => rfl
    rw [List.cons_append, hstep]
    exact ih depth rest
  | group hb _ _ ih ih' =>
    obtain ⟨ho, hc⟩ := Delimiter.isOpen_isClose hb
    rw [List.cons_append, List.append_assoc, Token.argumentCount_open ho, ih, List.cons_append,
      Token.argumentCount_close hc]
    exact ih' depth rest

/-- A segment belongs to one argument. -/
theorem Segment.argumentCount {w : List (Token R)} (h : Segment w) (commas : Nat)
    (any : Bool) (rest : List (Token R)) :
    argumentCount 0 commas any (w ++ rest) =
      argumentCount 0 commas (any || !w.isEmpty) rest := by
  induction h generalizing any rest with
  | nil => simp
  | cons ht _ ih =>
    rw [List.cons_append, Token.argumentCount_cons ht, ih, or_isEmpty_cons]
    rfl
  | group hb h _ ih =>
    obtain ⟨ho, hc⟩ := Delimiter.isOpen_isClose hb
    rw [List.cons_append, List.append_assoc, Token.argumentCount_open ho,
      h.argumentCount_inner, List.cons_append, Token.argumentCount_close hc, ih,
      or_isEmpty_cons]
    rfl

/-- Every segment but the last one brings a comma. -/
theorem Segmented.argumentCount {w : List (Token R)} {n : Nat} (h : Segmented w n)
    {b : Delimiter} (hb : b.isClose = true) (commas : Nat) (any : Bool)
    (rest : List (Token R)) :
    argumentCount 0 commas any (w ++ .delimiter b :: rest) =
      if any || !w.isEmpty then commas + n else 0 := by
  induction h generalizing commas any with
  | one h => rw [h.argumentCount, Token.argumentCount_end hb]
  | cons h _ ih =>
    rename_i w w' n _
    have hcomma : ∀ any, Token.argumentCount 0 commas any
        (.delimiter .comma :: (w' ++ .delimiter b :: rest)) =
        Token.argumentCount 0 (commas + 1) true (w' ++ .delimiter b :: rest) := fun _ => rfl
    have hne : (w ++ .delimiter .comma :: w').isEmpty = false := by
      cases w <;> rfl
    rw [List.append_assoc, h.argumentCount, List.cons_append, hcomma, ih, hne]
    simp only [Bool.true_or, Bool.not_false, Bool.or_true, if_true]
    omega

/-- The count behind an opening bracket is the number of arguments. -/
theorem Arguments.argumentCount {w : List (Token R)} {n : Nat} (h : Arguments w n)
    {b : Delimiter} (hb : b.isClose = true) (rest : List (Token R)) :
    argumentCount 0 0 false (w ++ .delimiter b :: rest) = n := by
  cases h with
  | empty => exact Token.argumentCount_end hb 0 false rest
  | segments hw h =>
    rw [h.argumentCount hb, List.isEmpty_eq_false_iff.2 hw]
    simp

/-- A word holds one number of arguments. -/
theorem Arguments.unique {w : List (Token R)} {m n : Nat} (h : Arguments w m)
    (h' : Arguments w n) : m = n :=
  (h.argumentCount (b := .closeParen) rfl []).symm.trans (h'.argumentCount rfl [])

end SymbolicAlgebra
