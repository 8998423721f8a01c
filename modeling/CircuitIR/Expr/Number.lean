import CircuitIR.Decimal.Text

/-!
# Numbers in expressions

The numbers that occur in symbolic parameters: exact fractions, binary numbers of a stated
precision, the two infinities, and an undefined value. An operation with one inexact operand is
rounded to the larger precision; an inexact result that is zero becomes the exact zero.
-/

namespace CircuitIR

/-- A number inside an expression. -/
inductive Number where
  | exact (q : Rat)
  | float (x : Binary) (precision : Nat)
  | infinity (negative : Bool)
  | undefined
deriving DecidableEq, Repr, Inhabited

namespace Number

def ofInt (n : Int) : Number := .exact n

def zero : Number := .exact 0

def one : Number := .exact 1

def minusOne : Number := .exact (-1)

/-- An inexact result: rounded to its precision, and exact if it is zero. -/
def rounded (x : Binary) (precision : Nat) : Number :=
  if x.isZero then zero else .float (x.round precision) precision

/-- A double as a number of 53 bits. -/
def ofFloat (x : Float) : Number :=
  match Binary.ofFloat? x with
  | some b => .float b 53
  | none => if x.isNaN then .undefined else .infinity (x < 0)

def isZero : Number → Bool
  | exact q => q == 0
  | float x _ => x.isZero
  | _ => false

/-- The exact number one; an inexact one does not count. -/
def isOne : Number → Bool
  | exact q => q == 1
  | _ => false

def isMinusOne : Number → Bool
  | exact q => q == -1
  | _ => false

def isExact : Number → Bool
  | exact _ => true
  | _ => false

def isFloat : Number → Bool
  | float .. => true
  | _ => false

def integer? : Number → Option Int
  | exact q => if q.den = 1 then some q.num else none
  | _ => none

def isInteger (n : Number) : Bool := n.integer?.isSome

/-- An integer, exact or not, by its value. -/
def integerValue? : Number → Option Int
  | exact q => if q.den = 1 then some q.num else none
  | float x _ => if x.isInteger then some x.floor else none
  | _ => none

def isFinite : Number → Bool
  | exact _ => true
  | float .. => true
  | _ => false

def isNegative : Number → Bool
  | exact q => q < 0
  | float x _ => x.isNegative
  | infinity n => n
  | undefined => false

def isPositive : Number → Bool
  | exact q => 0 < q
  | float x _ => x.isPositive
  | infinity n => !n
  | undefined => false

/-- The value to a precision, for finite numbers. -/
def toBinary? (precision : Nat) : Number → Option Binary
  | exact q => some (.ofRat precision q)
  | float x _ => some x
  | _ => none

/-- The exact value of a finite number. -/
def toRat? : Number → Option Rat
  | exact q => some q
  | float x _ => some x.toRat
  | _ => none

/-- The value to a precision; zero for the infinite and undefined numbers. -/
def toBinary (precision : Nat) (n : Number) : Binary := (n.toBinary? precision).getD .zero

def neg : Number → Number
  | exact q => .exact (-q)
  | float x p => .float x.neg p
  | infinity n => .infinity (!n)
  | undefined => .undefined

def abs (n : Number) : Number := if n.isNegative then n.neg else n

/-- The precision of an operation on two numbers: that of the more precise inexact operand. -/
def jointPrecision : Number → Number → Nat
  | float _ p, float _ q => max p q
  | float _ p, _ => p
  | _, float _ q => q
  | _, _ => 53

def add : Number → Number → Number
  | exact a, exact b => .exact (a + b)
  | undefined, _ => .undefined
  | _, undefined => .undefined
  | infinity m, infinity n => if m = n then .infinity m else .undefined
  | infinity m, _ => .infinity m
  | _, infinity n => .infinity n
  | a, b =>
    let p := jointPrecision a b
    rounded ((a.toBinary p).add (b.toBinary p)) p

def sub (a b : Number) : Number := add a b.neg

def mul : Number → Number → Number
  | exact a, exact b => .exact (a * b)
  | undefined, _ => .undefined
  | _, undefined => .undefined
  | infinity m, b =>
    if b.isZero then .undefined else .infinity (m != b.isNegative)
  | a, infinity n =>
    if a.isZero then .undefined else .infinity (a.isNegative != n)
  | a, b =>
    let p := jointPrecision a b
    rounded ((a.toBinary p).mul (b.toBinary p)) p

/-- The inverse of a number other than zero. -/
def inverse : Number → Number
  | exact q => .exact (q⁻¹)
  | float x p => rounded (Binary.div p .one x) p
  | infinity _ => zero
  | undefined => .undefined

/-- Order of real numbers, infinities included; false with an undefined side. -/
def lt : Number → Number → Bool
  | undefined, _ => false
  | _, undefined => false
  | infinity m, infinity n => m && !n
  | infinity m, _ => m
  | _, infinity n => !n
  | exact a, exact b => a < b
  | a, b =>
    match a.toRat?, b.toRat? with
    | some x, some y => x < y
    | _, _ => false

/-- The remainder with the sign of the divisor, which must not be zero. -/
def modulo (a b : Number) : Number :=
  match a.toRat?, b.toRat? with
  | some x, some y =>
    let r := x - y * ((x / y).floor : Rat)
    match a, b with
    | exact _, exact _ => .exact r
    | _, _ =>
      let p := jointPrecision a b
      rounded (.ofRat p r) p
  | _, _ => .undefined

/-- The largest integer not above a finite number. -/
def floor? : Number → Option Int
  | exact q => some q.floor
  | float x _ => some x.floor
  | _ => none

def text : Number → String
  | exact q => if q.den = 1 then toString q.num else toString q.num ++ "/" ++ toString q.den
  | float x p => x.text p
  | infinity n => if n then "-oo" else "oo"
  | undefined => "nan"

end Number

end CircuitIR
