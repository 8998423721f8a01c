import CircuitIR.Number.Complex
import CircuitIR.Expr.Basic

/-!
# Numeric value of closed expressions

An expression without symbols denotes a complex number unless an infinity or an undefined value
occurs in it. `approximateAt` computes it with a given number of working bits; `approximate` repeats
this with more bits until two successive results agree, so that cancellation inside sums does not
show in the result. A part that keeps shrinking as the bits grow is zero.
-/

namespace CircuitIR.Expr

open ComplexBinary (ofReal)

/-- The value of a number at a precision; infinite and undefined numbers have none. -/
def numberValue? (bits : Nat) (n : Number) : Option ComplexBinary :=
  (n.toBinary? bits).map ofReal

def constantValue? (bits : Nat) : Constant → Option ComplexBinary
  | .e => some (ofReal (Binary.exp bits .one))
  | .pi => some (ofReal (Binary.pi bits))
  | .i => some ComplexBinary.imaginaryUnit
  | .complexInfinity => none
  | .indefinite => none

/-- The integer part below a real number. -/
def floorValue (z : ComplexBinary) : ComplexBinary :=
  ⟨.ofInt z.re.floor, .ofInt z.im.floor⟩

/-- The value of a function; `none` outside its domain. -/
def functionValue? (bits : Nat) : FunctionName → List ComplexBinary → Option ComplexBinary
  | .exp, [z] => some (ComplexBinary.exp bits z)
  | .log, [z] => if z.isZero then none else some (ComplexBinary.log bits z)
  | .sin, [z] => some (ComplexBinary.sin bits z)
  | .cos, [z] => some (ComplexBinary.cos bits z)
  | .tan, [z] => some (ComplexBinary.tan bits z)
  | .cot, [z] => if z.isZero then none else
    some (.div bits (.cos (bits + 8) z) (.sin (bits + 8) z))
  | .asin, [z] => some (ComplexBinary.asin bits z)
  | .acos, [z] => some (ComplexBinary.acos bits z)
  | .atan, [z] => some (ComplexBinary.atan bits z)
  | .atan2, [y, x] =>
    if y.isReal && x.isReal then
      if y.isZero && x.isZero then none else some (ofReal (ComplexBinary.argument bits y.re x.re))
    else
      -- `-i log ((x + i y) / √(x² + y²))`
      let p := bits + 32
      let iy : ComplexBinary := ⟨y.im.neg, y.re⟩
      let n := ComplexBinary.sqrt p (.add p (.mul p x x) (.mul p y y))
      let l := ComplexBinary.log p (.div p (.add p x iy) n)
      some ⟨l.im, l.re.neg⟩
  | .sinh, [z] => some (ComplexBinary.sinh bits z)
  | .cosh, [z] => some (ComplexBinary.cosh bits z)
  | .tanh, [z] => some (ComplexBinary.tanh bits z)
  | .coth, [z] => if z.isZero then none else
    some (.div bits .one (.tanh (bits + 8) z))
  | .abs, [z] => some (ofReal (ComplexBinary.abs bits z))
  | .sign, [z] =>
    if z.isZero then some .zero
    else if z.isReal then some (if z.re.isNegative then ComplexBinary.one.neg else .one)
    else some (.div bits z (ofReal (ComplexBinary.abs (bits + 8) z)))
  | .floor, [z] => some (floorValue z)
  | .ceiling, [z] => some (floorValue z.neg).neg
  | .factorial, [z] =>
    if z.isReal then (Binary.factorial? bits z.re).map ofReal else none
  | .re, [z] => some (ofReal z.re)
  | .im, [z] => some (ofReal z.im)
  | .arg, [z] => if z.isZero then none else some (ofReal (ComplexBinary.argument bits z.im z.re))
  | .conjugate, [z] => some z.conj
  | _, _ => none

mutual

/-- The value with a given number of working bits. -/
def approximateAt (bits : Nat) : Expr → Option ComplexBinary
  | .number n => numberValue? bits n
  | .constant c => constantValue? bits c
  | .symbol _ => none
  | .power b e =>
    match approximateAt bits b, approximateAt bits e with
    | some x, some y =>
      if x.isZero && (y.re.isNegative || !y.isReal) then none else some (ComplexBinary.pow bits x y)
    | _, _ => none
  | .product es => (approximateAll bits es).map fun zs => zs.foldl (.mul bits) .one
  | .sum es => (approximateAll bits es).map fun zs => zs.foldl (.add bits) .zero
  | .apply f es =>
    match approximateAll bits es with
    | some zs => functionValue? bits f zs
    | none => none

def approximateAll (bits : Nat) : List Expr → Option (List ComplexBinary)
  | [] => some []
  | e :: es =>
    match approximateAt bits e, approximateAll bits es with
    | some z, some zs => some (z :: zs)
    | _, _ => none

end

/-- Two approximations of a part agree to 64 bits. -/
def agree (a b : Binary) : Bool :=
  a == b || Binary.le ((Binary.sub a b).abs.shift 64) b.abs

/-- A part that vanished against the working precision. -/
def settle (bits : Nat) (a b : Binary) : Binary :=
  if agree a b then b else if b.magnitude < -((bits / 2 : Nat) : Int) then .zero else b

/-- Doubles the working bits until both parts of the value agree with the value before. -/
def refineApproximation (e : Expr) : Nat → Nat → ComplexBinary → Option ComplexBinary
  | 0, bits, z =>
    (approximateAt bits e).map fun w => ⟨settle bits z.re w.re, settle bits z.im w.im⟩
  | fuel + 1, bits, z =>
    match approximateAt bits e with
    | none => none
    | some w =>
      if agree z.re w.re && agree z.im w.im then some w
      else refineApproximation e fuel (2 * bits) w

/-- The value of a closed expression to at least 64 significant bits in each part. -/
def approximate (e : Expr) : Option ComplexBinary :=
  match e with
  | .number (.float x _) => some (ofReal x)
  | .number n => numberValue? 160 n
  | _ =>
    match approximateAt 120 e with
    | none => none
    | some z => refineApproximation e 3 200 z

end CircuitIR.Expr
