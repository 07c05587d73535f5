import SymbolicAlgebra.Operation
import SymbolicAlgebra.Parameters

set_option autoImplicit false

/-!
# Result types and the typing tables

A result type (`ResultType`) says what kind of value an expression has. `undefined` stands for an
expression whose kind depends on a variable without a value; what it is gets decided when
the variable has one. The tables `UnaryOp.resultType?` and `BinaryOp.resultType?` hold the types of
operations on operands of known types, with `none` where the operands do not fit.
-/

namespace SymbolicAlgebra

/-- The kind of value that an expression has. -/
inductive ResultType where
  | number
  | boolean
  | complexNumber
  | rationalNumber
  | vector
  | matrix
  | string
  | expression
  | undefined
  | angleNumber
  | powerNumber
  | temperatureNumber
  | massNumber
  | lengthNumber
  | timeNumber
  | areaNumber
  | volumeNumber
deriving DecidableEq

namespace ResultType

/-- Every result type, in the order in which they are listed. -/
def all : List ResultType := [
    .number, .boolean, .complexNumber, .rationalNumber, .vector, .matrix, .string, .expression,
    .undefined, .angleNumber, .powerNumber, .temperatureNumber, .massNumber, .lengthNumber,
    .timeNumber, .areaNumber, .volumeNumber]

/-- The name in messages. -/
def name : ResultType → String
  | .number => "Number"
  | .boolean => "Boolean"
  | .complexNumber => "ComplexNumber"
  | .rationalNumber => "RationalNumber"
  | .vector => "Vector"
  | .matrix => "Matrix"
  | .string => "String"
  | .expression => "Expression"
  | .undefined => "Undefined"
  | .angleNumber => "AngleNumber"
  | .powerNumber => "PowerNumber"
  | .temperatureNumber => "TemperatureNumber"
  | .massNumber => "MassNumber"
  | .lengthNumber => "LengthNumber"
  | .timeNumber => "TimeNumber"
  | .areaNumber => "AreaNumber"
  | .volumeNumber => "VolumeNumber"

/-- Whether the type is the type of quantities of some dimension. -/
def isQuantity : ResultType → Bool
  | .angleNumber | .powerNumber | .temperatureNumber | .massNumber => true
  | .lengthNumber | .timeNumber | .areaNumber | .volumeNumber => true
  | _ => false

/-- The type of quantities of a dimension. -/
def ofDimension : Dimension → ResultType
  | .angle => .angleNumber
  | .power => .powerNumber
  | .temperature => .temperatureNumber
  | .mass => .massNumber
  | .length => .lengthNumber
  | .time => .timeNumber
  | .area => .areaNumber
  | .volume => .volumeNumber

/-- The type of a dimension is a type of quantities. -/
theorem isQuantity_ofDimension (d : Dimension) : (ofDimension d).isQuantity = true := by
  cases d <;> rfl

end ResultType

/-- The type of a parameter value. -/
def Value.resultType {R : Type} : Value R → ResultType
  | .number _ => .number
  | .truth _ => .boolean
  | .complex _ => .complexNumber
  | .quantity q => .ofDimension q.unit.dimension
  | .string _ => .string
  | .vector _ => .vector
  | .matrix _ => .matrix

/-! ## One operand -/

/-- The type `r` if the condition holds. -/
def typeIf (condition : Bool) (r : ResultType) : Option ResultType :=
  if condition then some r else none

/-- The type of an operation on an operand of the type given, `none` where the operand
does not fit. -/
def UnaryOp.resultType? (op : UnaryOp) (t : ResultType) : Option ResultType :=
  match op with
  | .negate =>
    match t with
    | .number | .complexNumber | .rationalNumber | .vector | .matrix => some t
    | _ => typeIf t.isQuantity t
  | .factorial => typeIf (t = .number) .number
  | .not => typeIf (t = .number || t = .boolean) t
  | .abs =>
    match t with
    | .number | .complexNumber | .vector => some .number
    | .rationalNumber => some .rationalNumber
    | _ => typeIf t.isQuantity t
  | .ceil | .floor | .round | .trunc | .frac => typeIf (t = .number || t.isQuantity) t
  | .sign => typeIf (t = .number || t.isQuantity) .number
  | .exp | .ln | .lg | .lb | .sqrt => typeIf (t = .number || t = .complexNumber) t
  | .sin | .cos | .tan | .cot | .sec | .csc =>
    match t with
    | .number | .angleNumber => some .number
    | .complexNumber => some .complexNumber
    | _ => none
  | .arcsin | .arccos | .arctan | .arccot | .arcsec | .arccsc =>
    match t with
    | .number => some .angleNumber
    | .complexNumber => some .complexNumber
    | _ => none
  | .sinh | .cosh | .tanh | .coth | .sech | .csch
  | .arsinh | .arcosh | .artanh | .arcoth | .arsech | .arcsch =>
    typeIf (t = .number || t = .complexNumber) t
  | .re | .im | .phase => typeIf (t = .complexNumber) .number
  | .conjugate | .reciprocal => typeIf (t = .complexNumber) .complexNumber
  | .toDeg | .toRad | .toGrad => typeIf (t = .number || t = .angleNumber) .angleNumber
  | .toNumber => typeIf t.isQuantity .number
  | .toBin | .toOct | .toHex => typeIf (t = .number) .string
  | .transpose => typeIf (t = .vector || t = .matrix) .matrix
  | .det => typeIf (t = .matrix) .number
  | .inverse => typeIf (t = .matrix) .matrix

/-! ## Two operands -/

/-- Whether both types are real or complex and at least one of them is complex. -/
def complexPair : ResultType → ResultType → Bool
  | .complexNumber, .complexNumber | .number, .complexNumber | .complexNumber, .number => true
  | _, _ => false

/-- The type of arithmetic on real, complex and rational numbers, and on a quantity and
its factor. -/
def arithmeticType? (l r : ResultType) : Option ResultType :=
  if complexPair l r then some .complexNumber
  else
    match l, r with
    | .number, .number => some .number
    | .rationalNumber, .rationalNumber | .rationalNumber, .number
    | .number, .rationalNumber => some .rationalNumber
    | .number, r => typeIf r.isQuantity r
    | l, .number => typeIf l.isQuantity l
    | _, _ => none

/-- Whether both types are the type of quantities of one dimension. -/
def sameQuantity (l r : ResultType) : Bool := l = r && l.isQuantity

/-- The type of sums and differences. -/
def sumType? (isSum : Bool) (l r : ResultType) : Option ResultType :=
  match l, r with
  | .string, .string => typeIf isSum .string
  | .vector, .vector => some .vector
  | .matrix, .matrix => some .matrix
  | l, r => if sameQuantity l r then some l else arithmeticType? l r

/-- The type of products. -/
def productType? (l r : ResultType) : Option ResultType :=
  match l, r with
  | .lengthNumber, .lengthNumber => some .areaNumber
  | .lengthNumber, .areaNumber | .areaNumber, .lengthNumber => some .volumeNumber
  | .number, .vector | .vector, .number => some .vector
  | .number, .matrix | .matrix, .number | .matrix, .matrix
  | .matrix, .vector | .vector, .matrix => some .matrix
  | l, r => arithmeticType? l r

/-- The type of quotients. -/
def quotientType? (l r : ResultType) : Option ResultType :=
  if sameQuantity l r then some .number
  else
    match l, r with
    | .vector, .number => some .vector
    | .matrix, .number => some .matrix
    | l, .number => if l.isQuantity then some l else arithmeticType? l .number
    | .number, r => if r.isQuantity then none else arithmeticType? .number r
    | l, r => arithmeticType? l r

/-- The type of an operation on operands of the types given, `none` where the operands do
not fit. -/
def BinaryOp.resultType? (op : BinaryOp) (l r : ResultType) : Option ResultType :=
  match op with
  | .add => sumType? true l r
  | .sub => sumType? false l r
  | .mul => productType? l r
  | .div => quotientType? l r
  | .pow =>
    match l, r with
    | .matrix, .number => some .matrix
    | .number, .number => some .number
    | l, r => typeIf (complexPair l r) .complexNumber
  | .root | .mod | .round => typeIf (l = .number && r = .number) .number
  | .log =>
    match l, r with
    | .number, .number => some .number
    | .number, .complexNumber => some .complexNumber
    | _, _ => none
  | .less | .lessEqual | .greater | .greaterEqual =>
    typeIf ((l = .number && r = .number) || sameQuantity l r) .boolean
  | .equal | .notEqual =>
    match l, r with
    | .number, .number | .boolean, .boolean | .complexNumber, .complexNumber => some .boolean
    | l, r => typeIf (sameQuantity l r) .boolean
  | .bitAnd | .bitOr | .xor | .nand | .nor | .implication | .equivalence =>
    match l, r with
    | .number, .number => some .number
    | .boolean, .boolean => some .boolean
    | _, _ => none
  | .and | .or => typeIf (l = .boolean && r = .boolean) .boolean
  | .dotProduct => typeIf (l = .vector && r = .vector) .number
  | .crossProduct => typeIf (l = .vector && r = .vector) .vector

end SymbolicAlgebra
