import CircuitIR.Number.Elementary

/-!
# Complex binary numbers

Complex numbers whose parts are binary numbers, with the elementary functions on their principal
branches. A part that is exactly zero stays exactly zero wherever the function is real on the real
axis, so that a caller can ask whether a result is real.
-/

namespace CircuitIR

/-- A complex number with binary parts. -/
structure ComplexBinary where
  re : Binary
  im : Binary
deriving DecidableEq, Repr, Inhabited

namespace ComplexBinary

open Binary (round addAt mulAt)

def ofReal (x : Binary) : ComplexBinary := ⟨x, .zero⟩

def ofRat (bits : Nat) (q : Rat) : ComplexBinary := ofReal (.ofRat bits q)

def zero : ComplexBinary := ofReal .zero

def one : ComplexBinary := ofReal .one

def imaginaryUnit : ComplexBinary := ⟨.zero, .one⟩

def isReal (z : ComplexBinary) : Bool := z.im.isZero

def isZero (z : ComplexBinary) : Bool := z.re.isZero && z.im.isZero

def neg (z : ComplexBinary) : ComplexBinary := ⟨z.re.neg, z.im.neg⟩

def conj (z : ComplexBinary) : ComplexBinary := ⟨z.re, z.im.neg⟩

def add (bits : Nat) (z w : ComplexBinary) : ComplexBinary :=
  ⟨addAt bits z.re w.re, addAt bits z.im w.im⟩

def sub (bits : Nat) (z w : ComplexBinary) : ComplexBinary := add bits z w.neg

def mul (bits : Nat) (z w : ComplexBinary) : ComplexBinary :=
  ⟨round bits (.sub (.mul z.re w.re) (.mul z.im w.im)),
    round bits (.add (.mul z.re w.im) (.mul z.im w.re))⟩

/-- The square of the modulus, exactly. -/
def normSq (z : ComplexBinary) : Binary := .add (.mul z.re z.re) (.mul z.im z.im)

def abs (bits : Nat) (z : ComplexBinary) : Binary :=
  if z.isReal then z.re.abs else Binary.sqrt bits z.normSq

/-- The quotient; division by zero gives zero. -/
def div (bits : Nat) (z w : ComplexBinary) : ComplexBinary :=
  if w.isReal then ⟨Binary.div bits z.re w.re, Binary.div bits z.im w.re⟩
  else
    let n := w.normSq
    let p := mul (bits + 8) z w.conj
    ⟨Binary.div bits p.re n, Binary.div bits p.im n⟩

/-- The argument of the point `(x, y)`, in `(-π, π]`; zero at the origin. -/
def argument (bits : Nat) (y x : Binary) : Binary :=
  if y.isZero then (if x.isNegative then Binary.pi bits else .zero)
  else if x.isZero then
    let h := (Binary.pi bits).shift (-1)
    if y.isNegative then h.neg else h
  else
    let a := Binary.atan (bits + 8) (Binary.div (bits + 16) y x)
    if x.isNegative then
      let p := Binary.pi (bits + 8)
      if y.isNegative then .sub a p else .add a p
    else a

def exp (bits : Nat) (z : ComplexBinary) : ComplexBinary :=
  let r := Binary.exp bits z.re
  if z.isReal then ofReal r
  else
    let (s, c) := Binary.sinCos bits z.im
    ⟨mulAt bits r c, mulAt bits r s⟩

def log (bits : Nat) (z : ComplexBinary) : ComplexBinary :=
  if z.isReal then
    ⟨Binary.log bits z.re.abs, if z.re.isNegative then Binary.pi bits else .zero⟩
  else ⟨(Binary.log bits z.normSq).shift (-1), argument bits z.im z.re⟩

def sqrt (bits : Nat) (z : ComplexBinary) : ComplexBinary :=
  if z.isReal then
    if z.re.isNegative then ⟨.zero, Binary.sqrt bits z.re.neg⟩ else ofReal (Binary.sqrt bits z.re)
  else
    let p := bits + 8
    let a := Binary.sqrt p ((addAt p (abs p z) z.re.abs).shift (-1))
    let b := Binary.div p z.im (a.shift 1)
    if z.re.isNegative then
      if z.im.isNegative then ⟨b.neg, a.neg⟩ else ⟨b, a⟩
    else ⟨a, b⟩

/-- An integer power by repeated squaring. -/
def powNat (bits : Nat) (z : ComplexBinary) : Nat → Nat → ComplexBinary
  | 0, _ => one
  | fuel + 1, n =>
    if n = 0 then one
    else
      let h := powNat bits (mul bits z z) fuel (n / 2)
      if n % 2 = 1 then mul bits z h else h

def powInt (bits : Nat) (z : ComplexBinary) (n : Int) : ComplexBinary :=
  let p := bits + 8 + 2 * Binary.bitLength n.natAbs
  let r := powNat p z (Binary.bitLength n.natAbs) n.natAbs
  if n < 0 then div p one r else r

/-- The principal power `z ^ w = exp (w log z)`, exact in form for integer and half-integer
exponents. -/
def pow (bits : Nat) (z w : ComplexBinary) : ComplexBinary :=
  if w.isReal && w.re.isInteger && w.re.magnitude < 64 then powInt bits z w.re.floor
  else if z.isZero then zero
  else if w.isReal && w.re.exponent == -1 && w.re.magnitude < 64 then
    powInt bits (sqrt (bits + 16) z) w.re.mantissa
  else if w.isReal && z.isReal && z.re.isPositive then ofReal (Binary.rpow bits z.re w.re)
  else
    let p := bits + 32 + w.re.largeness + w.im.largeness
    exp (bits + 8) (mul p w (log p z))

def sin (bits : Nat) (z : ComplexBinary) : ComplexBinary :=
  let (s, c) := Binary.sinCos bits z.re
  if z.isReal then ofReal s
  else ⟨mulAt bits s (Binary.cosh bits z.im), mulAt bits c (Binary.sinh bits z.im)⟩

def cos (bits : Nat) (z : ComplexBinary) : ComplexBinary :=
  let (s, c) := Binary.sinCos bits z.re
  if z.isReal then ofReal c
  else ⟨mulAt bits c (Binary.cosh bits z.im), (mulAt bits s (Binary.sinh bits z.im)).neg⟩

def tan (bits : Nat) (z : ComplexBinary) : ComplexBinary :=
  div bits (sin (bits + 8) z) (cos (bits + 8) z)

def sinh (bits : Nat) (z : ComplexBinary) : ComplexBinary :=
  if z.isReal then ofReal (Binary.sinh bits z.re)
  else
    let (s, c) := Binary.sinCos bits z.im
    ⟨mulAt bits (Binary.sinh bits z.re) c, mulAt bits (Binary.cosh bits z.re) s⟩

def cosh (bits : Nat) (z : ComplexBinary) : ComplexBinary :=
  if z.isReal then ofReal (Binary.cosh bits z.re)
  else
    let (s, c) := Binary.sinCos bits z.im
    ⟨mulAt bits (Binary.cosh bits z.re) c, mulAt bits (Binary.sinh bits z.re) s⟩

def tanh (bits : Nat) (z : ComplexBinary) : ComplexBinary :=
  if z.isReal then ofReal (Binary.tanh bits z.re)
  else div bits (sinh (bits + 8) z) (cosh (bits + 8) z)

/-- `asin z = -i log (i z + √(1 - z²))`. -/
def asin (bits : Nat) (z : ComplexBinary) : ComplexBinary :=
  if z.isReal && Binary.le z.re.abs .one then ofReal (Binary.asin bits z.re)
  else
    let p := 2 * bits + 32
    let root := sqrt p (sub p one (mul p z z))
    let l := log p (add p ⟨z.im.neg, z.re⟩ root)
    ⟨l.im, l.re.neg⟩

def acos (bits : Nat) (z : ComplexBinary) : ComplexBinary :=
  if z.isReal && Binary.le z.re.abs .one then ofReal (Binary.acos bits z.re)
  else
    let a := asin (bits + 8) z
    let re := .sub ((Binary.pi (bits + 8)).shift (-1)) a.re
    -- beyond one the inverse cosine is purely imaginary
    ⟨if z.isReal && z.re.isPositive then .zero else re, a.im.neg⟩

/-- `atan z = (i / 2) (log (1 - i z) - log (1 + i z))`. -/
def atan (bits : Nat) (z : ComplexBinary) : ComplexBinary :=
  if z.isReal then ofReal (Binary.atan bits z.re)
  else
    let p := 2 * bits + 32
    let iz : ComplexBinary := ⟨z.im.neg, z.re⟩
    let d := sub p (log p (sub p one iz)) (log p (add p one iz))
    ⟨d.im.neg.shift (-1), d.re.shift (-1)⟩

end ComplexBinary

end CircuitIR
