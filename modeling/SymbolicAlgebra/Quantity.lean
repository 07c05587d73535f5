import SymbolicAlgebra.Scalar

set_option autoImplicit false

/-!
# Quantities: magnitudes with a unit of measure

A quantity (`Quantity R`) is a magnitude with a unit. Units are never converted into one another:
the unit of a quantity decides only what kind of thing it measures, its `Dimension`. Every
`MeasureUnit` has a symbol and further spellings, which `MeasureUnit.ofName?` reads.
-/

namespace SymbolicAlgebra

/-! ## Dimensions -/

/-- What a unit measures. -/
inductive Dimension where
  | angle
  | power
  | temperature
  | mass
  | length
  | time
  | area
  | volume
deriving DecidableEq

/-- The name of a dimension. -/
def Dimension.name : Dimension → String
  | .angle => "Angle"
  | .power => "Power"
  | .temperature => "Temperature"
  | .mass => "Mass"
  | .length => "Length"
  | .time => "Time"
  | .area => "Area"
  | .volume => "Volume"

/-! ## Units -/

/-- A unit of measure. -/
inductive MeasureUnit where
  | degree
  | radian
  | gradian
  | watt
  | kilowatt
  | horsepower
  | celsius
  | fahrenheit
  | kelvin
  | milligram
  | gram
  | kilogram
  | tonne
  | ounce
  | pound
  | millimeter
  | centimeter
  | meter
  | kilometer
  | inch
  | foot
  | yard
  | mile
  | nanosecond
  | millisecond
  | second
  | minute
  | hour
  | day
  | week
  | year
  | squareMillimeter
  | squareCentimeter
  | squareMeter
  | squareKilometer
  | squareInch
  | squareFoot
  | squareYard
  | squareMile
  | hectare
  | cubicCentimeter
  | cubicMeter
  | cubicInch
  | cubicFoot
  | cubicYard
  | liter
  | gallon
deriving DecidableEq

namespace MeasureUnit

/-- Every unit, in the order in which they are listed. -/
def all : List MeasureUnit := [
    .degree, .radian, .gradian, .watt, .kilowatt, .horsepower, .celsius, .fahrenheit, .kelvin,
    .milligram, .gram, .kilogram, .tonne, .ounce, .pound, .millimeter, .centimeter, .meter,
    .kilometer, .inch, .foot, .yard, .mile, .nanosecond, .millisecond, .second, .minute, .hour,
    .day, .week, .year, .squareMillimeter, .squareCentimeter, .squareMeter, .squareKilometer,
    .squareInch, .squareFoot, .squareYard, .squareMile, .hectare, .cubicCentimeter, .cubicMeter,
    .cubicInch, .cubicFoot, .cubicYard, .liter, .gallon]

/-- The symbol written behind a magnitude. -/
def symbol : MeasureUnit → String
  | .degree => "deg"
  | .radian => "rad"
  | .gradian => "grad"
  | .watt => "W"
  | .kilowatt => "kW"
  | .horsepower => "hp"
  | .celsius => "°C"
  | .fahrenheit => "°F"
  | .kelvin => "K"
  | .milligram => "mg"
  | .gram => "g"
  | .kilogram => "kg"
  | .tonne => "t"
  | .ounce => "oz"
  | .pound => "lb"
  | .millimeter => "mm"
  | .centimeter => "cm"
  | .meter => "m"
  | .kilometer => "km"
  | .inch => "in"
  | .foot => "ft"
  | .yard => "yd"
  | .mile => "mi"
  | .nanosecond => "ns"
  | .millisecond => "ms"
  | .second => "s"
  | .minute => "min"
  | .hour => "h"
  | .day => "day"
  | .week => "week"
  | .year => "year"
  | .squareMillimeter => "mm^2"
  | .squareCentimeter => "cm^2"
  | .squareMeter => "m^2"
  | .squareKilometer => "km^2"
  | .squareInch => "in^2"
  | .squareFoot => "ft^2"
  | .squareYard => "yd^2"
  | .squareMile => "mi^2"
  | .hectare => "ha"
  | .cubicCentimeter => "cm^3"
  | .cubicMeter => "m^3"
  | .cubicInch => "in^3"
  | .cubicFoot => "ft^3"
  | .cubicYard => "yd^3"
  | .liter => "l"
  | .gallon => "gal"

/-- The spellings of a unit other than its symbol. -/
def aliases : MeasureUnit → List String
  | .degree => ["degree", "degrees"]
  | .radian => ["radian", "radians"]
  | .gradian => ["gradian", "gradians"]
  | .day => ["days"]
  | .week => ["weeks"]
  | .year => ["years"]
  | .liter => ["L"]
  | _ => []

/-- What the unit measures. -/
def dimension : MeasureUnit → Dimension
  | .degree => .angle
  | .radian => .angle
  | .gradian => .angle
  | .watt => .power
  | .kilowatt => .power
  | .horsepower => .power
  | .celsius => .temperature
  | .fahrenheit => .temperature
  | .kelvin => .temperature
  | .milligram => .mass
  | .gram => .mass
  | .kilogram => .mass
  | .tonne => .mass
  | .ounce => .mass
  | .pound => .mass
  | .millimeter => .length
  | .centimeter => .length
  | .meter => .length
  | .kilometer => .length
  | .inch => .length
  | .foot => .length
  | .yard => .length
  | .mile => .length
  | .nanosecond => .time
  | .millisecond => .time
  | .second => .time
  | .minute => .time
  | .hour => .time
  | .day => .time
  | .week => .time
  | .year => .time
  | .squareMillimeter => .area
  | .squareCentimeter => .area
  | .squareMeter => .area
  | .squareKilometer => .area
  | .squareInch => .area
  | .squareFoot => .area
  | .squareYard => .area
  | .squareMile => .area
  | .hectare => .area
  | .cubicCentimeter => .volume
  | .cubicMeter => .volume
  | .cubicInch => .volume
  | .cubicFoot => .volume
  | .cubicYard => .volume
  | .liter => .volume
  | .gallon => .volume

/-- Whether a word is the symbol or a further spelling of the unit. -/
def isNamed (u : MeasureUnit) (word : String) : Bool :=
  u.symbol == word || u.aliases.contains word

/-- The unit that a word names. -/
def ofName? (word : String) : Option MeasureUnit := all.find? (·.isNamed word)

/-- Every unit is listed. -/
theorem mem_all (u : MeasureUnit) : u ∈ all := by
  cases u <;> simp [all]

end MeasureUnit

/-! ## Quantities -/

/-- A magnitude with its unit. -/
structure Quantity (R : Type) where
  /-- How many units the quantity has. -/
  magnitude : R
  /-- The unit. -/
  unit : MeasureUnit

namespace Quantity

variable {R : Type} [Scalar R]

/-- What the quantity measures. -/
def dimension (q : Quantity R) : Dimension := q.unit.dimension

/-- The quantity of the opposite magnitude. -/
def neg (q : Quantity R) : Quantity R := ⟨-q.magnitude, q.unit⟩

/-- Structural equality: the same unit and the same magnitude. -/
def same (p q : Quantity R) : Bool := p.unit = q.unit && Scalar.same p.magnitude q.magnitude

/-- The magnitude, a space and the symbol of the unit. -/
def text (q : Quantity R) : String := Scalar.text q.magnitude ++ " " ++ q.unit.symbol

end Quantity

end SymbolicAlgebra
