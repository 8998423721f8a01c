/-!
# Scalars

The real numbers that angles are, with the functions that gate matrices need, and the complex
numbers over them. Everything about matrices is stated over an arbitrary scalar type, so that it
runs on doubles and can be reasoned about over the real numbers.
-/

namespace CircuitIR

attribute [local instance (high)] instPowNat

/-- Real numbers with the circular functions. -/
class Scalar (R : Type) extends Add R, Sub R, Mul R, Div R, Neg R where
  ofNat : Nat → R
  pi : R
  cos : R → R
  sin : R → R
  sqrt : R → R
  /-- A power of two; `none` if it is out of range. -/
  twoPower? : Nat → Option R

-- where a type has operations of its own, these are found first
attribute [instance (low)] Scalar.toAdd Scalar.toSub Scalar.toMul Scalar.toDiv Scalar.toNeg

namespace Scalar

variable {R : Type} [Scalar R]

def half (x : R) : R := x / ofNat 2

/-- The angle `π / 2 ^ k`; `none` if the power of two is out of range. -/
def piOver? (R : Type) [Scalar R] (k : Nat) : Option R :=
  (twoPower? k).map fun d : R => pi / d

end Scalar

/-- The double `π`. -/
def Float.piValue : Float := Float.ofBits 0x400921fb54442d18

instance : Scalar Float where
  ofNat := Float.ofNat
  pi := Float.piValue
  cos := Float.cos
  sin := Float.sin
  sqrt := Float.sqrt
  twoPower? k := if k < 1024 then some (Float.ofNat (2 ^ k)) else none

/-- A complex number over a scalar type. -/
structure Amplitude (R : Type) where
  re : R
  im : R

namespace Amplitude

variable {R : Type} [Scalar R]

def ofReal (x : R) : Amplitude R := ⟨x, Scalar.ofNat 0⟩

def zero : Amplitude R := ofReal (Scalar.ofNat 0)

instance : Inhabited (Amplitude R) := ⟨zero⟩

def one : Amplitude R := ofReal (Scalar.ofNat 1)

def minusOne : Amplitude R := ofReal (-Scalar.ofNat 1)

/-- The imaginary unit. -/
def i : Amplitude R := ⟨Scalar.ofNat 0, Scalar.ofNat 1⟩

def minusI : Amplitude R := ⟨Scalar.ofNat 0, -Scalar.ofNat 1⟩

def add (z w : Amplitude R) : Amplitude R := ⟨z.re + w.re, z.im + w.im⟩

def sub (z w : Amplitude R) : Amplitude R := ⟨z.re - w.re, z.im - w.im⟩

def mul (z w : Amplitude R) : Amplitude R :=
  ⟨z.re * w.re - z.im * w.im, z.re * w.im + z.im * w.re⟩

def conj (z : Amplitude R) : Amplitude R := ⟨z.re, -z.im⟩

def divReal (z : Amplitude R) (x : R) : Amplitude R := ⟨z.re / x, z.im / x⟩

/-- The number `exp (i x)`. -/
def phase (x : R) : Amplitude R := ⟨Scalar.cos x, Scalar.sin x⟩

instance : Add (Amplitude R) := ⟨add⟩

instance : Sub (Amplitude R) := ⟨sub⟩

instance : Mul (Amplitude R) := ⟨mul⟩

/-- The sum of the first `n` values of a function. -/
@[specialize]
def sum (n : Nat) (f : Nat → Amplitude R) : Amplitude R :=
  match n with
  | 0 => zero
  | n + 1 => sum n f + f n

end Amplitude

end CircuitIR
