import SymbolicAlgebra.Scalar.Complex
import SymbolicAlgebra.Quantity

set_option autoImplicit false

/-!
# Tables by key, and parameters

A table (`Table κ α`) is a list of keys with their values in which every key stands once; what
inserting and erasing do is said of the view `Table.get?`. Parameters are a table from the names
of variables to values, and only the kind of a value matters to this library (`Value R`).
-/

namespace SymbolicAlgebra

/-! ## Tables -/

/-- Keys with their values, in the order in which the keys were first inserted. -/
structure Table (κ α : Type) where
  /-- The entries. -/
  entries : List (κ × α)

namespace Table

variable {κ α : Type} [DecidableEq κ]

/-- The table without entries. -/
def empty : Table κ α := ⟨[]⟩

/-- The value of a key in a list of entries. -/
def entry? (k : κ) : List (κ × α) → Option α
  | [] => none
  | (k', a) :: es => if k = k' then some a else entry? k es

/-- The value of a key. -/
def get? (t : Table κ α) (k : κ) : Option α := entry? k t.entries

/-- Whether a key has a value. -/
def contains (t : Table κ α) (k : κ) : Bool := (t.get? k).isSome

/-- Replaces the value of a key in a list of entries, or appends the entry. -/
def insertEntry (k : κ) (a : α) : List (κ × α) → List (κ × α)
  | [] => [(k, a)]
  | (k', a') :: es => if k = k' then (k, a) :: es else (k', a') :: insertEntry k a es

/-- Gives a key a value; an earlier value is replaced. -/
def insert (t : Table κ α) (k : κ) (a : α) : Table κ α := ⟨insertEntry k a t.entries⟩

/-- Removes a key. -/
def erase (t : Table κ α) (k : κ) : Table κ α := ⟨t.entries.filter fun e => e.1 ≠ k⟩

/-- The number of entries. -/
def size (t : Table κ α) : Nat := t.entries.length

/-- Whether there is no entry. -/
def isEmpty (t : Table κ α) : Bool := t.entries.isEmpty

/-- Inserts the entries of a second table, whose values win. -/
def merge (t u : Table κ α) : Table κ α := u.entries.foldl (fun t e => t.insert e.1 e.2) t

@[simp] theorem get?_empty (k : κ) : (empty : Table κ α).get? k = none := rfl

/-- After an insertion the key has the new value and the other keys keep theirs. -/
theorem get?_insert (t : Table κ α) (k : κ) (a : α) (k' : κ) :
    (t.insert k a).get? k' = if k' = k then some a else t.get? k' := by
  obtain ⟨es⟩ := t
  simp only [insert, get?]
  induction es with
  | nil => simp [insertEntry, entry?]
  | cons e es ih =>
    obtain ⟨k₁, a₁⟩ := e
    by_cases h : k = k₁
    · subst h
      by_cases h' : k' = k <;> simp [insertEntry, entry?, h']
    · by_cases h' : k' = k₁
      · subst h'
        simp [insertEntry, entry?, h, Ne.symm h]
      · simp [insertEntry, entry?, h, h', ih]

end Table

/-! ## Parameters -/

/-- A value bound to a parameter. -/
inductive Value (R : Type) where
  /-- A real number. -/
  | number (value : R)
  /-- A truth value. -/
  | truth (value : Bool)
  /-- A complex number. -/
  | complex (value : ComplexNumber R)
  /-- A magnitude with a unit. -/
  | quantity (value : Quantity R)
  /-- A text. -/
  | string (value : String)
  /-- A sequence of real numbers. -/
  | vector (elements : List R)
  /-- A sequence of rows of real numbers. -/
  | matrix (rows : List (List R))

/-- The values of variables. -/
abbrev Parameters (R : Type) := Table String (Value R)

end SymbolicAlgebra
