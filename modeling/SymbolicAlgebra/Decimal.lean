set_option autoImplicit false

/-!
# Decimals and their shortest choice

A decimal (`Decimal`) is a natural number of units of some power of ten. Its text is positional
(`Decimal.text`): it never has an exponent, and it has a point only where digits stand behind one.

A binary number of limited precision, a natural number of units of a power of two (`Dyadic`), is
read back from every decimal that lies closer to it than to its neighbours. Among those decimals
the shortest one has the fewest digits, and of two of equal length the nearer one is taken, the
upper one of a tie. `Dyadic.shortest` finds it in exact integer arithmetic, on the decimal grids
with one, two, three and more digits.
-/

namespace SymbolicAlgebra

/-! ## Decimals -/

/-- The number `digits * 10 ^ exponent`. -/
structure Decimal where
  /-- How many units the decimal has. -/
  digits : Nat
  /-- The power of ten that is the unit. -/
  exponent : Int

namespace Decimal

/-- The decimal digits of a number, at least one. -/
def digitChars (n : Nat) : List Char := Nat.toDigits 10 n

/-- How many decimal digits a number has. -/
def digitCount (n : Nat) : Nat := (digitChars n).length

/-- A run of zeros. -/
def zeros (n : Nat) : List Char := List.replicate n '0'

/-- The characters of the positional text. -/
def chars (d : Decimal) : List Char :=
  let ds := digitChars d.digits
  let places := (-d.exponent).toNat
  if places = 0 then
    ds ++ zeros d.exponent.toNat
  else if places < ds.length then
    ds.take (ds.length - places) ++ '.' :: ds.drop (ds.length - places)
  else
    '0' :: '.' :: (zeros (places - ds.length) ++ ds)

/-- The positional text of a decimal. -/
def text (d : Decimal) : String := String.ofList d.chars

/-- Drops the zeros behind the point, at most `fuel` of them. -/
def trim : (fuel : Nat) → Decimal → Decimal
  | 0, d => d
  | fuel + 1, d =>
    if d.exponent < 0 ∧ d.digits % 10 = 0 then trim fuel ⟨d.digits / 10, d.exponent + 1⟩ else d

end Decimal

/-! ## Binary numbers and the decimals that are read back as them -/

/-- The number `mantissa * 2 ^ exponent`, with the half gaps to its two neighbours in
quarters of the unit: the lower one is smaller at a power of two. -/
structure Dyadic where
  /-- How many units the number has. -/
  mantissa : Nat
  /-- The power of two that is the unit. -/
  exponent : Int
  /-- Half the gap to the lower neighbour, in quarters of the unit. -/
  below : Nat := 2
  /-- Half the gap to the upper neighbour, in quarters of the unit. -/
  above : Nat := 2

namespace Dyadic

/-- A quarter of the unit, measured in the unit `10 ^ k`, as a fraction. -/
def quarter (x : Dyadic) (k : Int) : Nat × Nat :=
  let e := x.exponent - 2
  (Nat.pow 2 e.toNat * Nat.pow 10 (-k).toNat, Nat.pow 2 (-e).toNat * Nat.pow 10 k.toNat)

/-- Whether `c * 10 ^ k` is read back as the number. The two ends of the interval belong
to it where the mantissa is even. -/
def reads (x : Dyadic) (k : Int) (c : Nat) : Bool :=
  let (num, den) := x.quarter k
  let lo := (4 * x.mantissa - x.below) * num
  let hi := (4 * x.mantissa + x.above) * num
  if x.mantissa % 2 = 0 then lo ≤ c * den && c * den ≤ hi else lo < c * den && c * den < hi

/-- Among the two neighbours of the number on the grid of unit `10 ^ k`, the one that is
read back as the number: the nearer one if both are, the upper one of a tie. -/
def onGrid? (x : Dyadic) (k : Int) : Option Decimal :=
  let (num, den) := x.quarter k
  let n := 4 * x.mantissa * num
  let c := n / den
  let upper := den ≤ 2 * (n - c * den)
  match x.reads k c, x.reads k (c + 1) with
  | true, true => some ⟨if upper then c + 1 else c, k⟩
  | true, false => some ⟨c, k⟩
  | false, true => some ⟨c + 1, k⟩
  | false, false => none

/-- The number `p` for which the positive number lies between `10 ^ (p - 1)` and
`10 ^ p`, the upper end excluded. -/
def magnitude (x : Dyadic) : Int :=
  let (num, den) := x.quarter 0
  let n := 4 * x.mantissa * num
  if den ≤ n then
    Decimal.digitCount (n / den)
  else
    1 - Decimal.digitCount ((den + n - 1) / n - 1)

/-- The first decimal found on the grids with `n` digits and more, `fuel` grids in all. -/
def shortestFrom (x : Dyadic) (p : Int) : (fuel n : Nat) → Decimal
  | 0, n => ⟨0, p - n⟩
  | fuel + 1, n =>
    match x.onGrid? (p - n) with
    | some d => d
    | none => shortestFrom x p fuel (n + 1)

/-- The shortest decimal that is read back as the positive number. Seventeen digits
always suffice for a mantissa of 53 bits. -/
def shortest (x : Dyadic) : Decimal := Decimal.trim 20 (shortestFrom x x.magnitude 20 1)

end Dyadic

end SymbolicAlgebra
