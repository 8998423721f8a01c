import CircuitIR.Operation.Basic

/-!
# Controlled gates from elementary ones

A bit flip or a phase with any number of controls, as a sequence of gates on one and two qubits and
without further qubits. With `a` the remaining controls, `x` the last control and `t` the target, a phase
`φ` is

  `CP (φ/2) (x, t)`, `X (a → x)`, `CP (-φ/2) (x, t)`, `X (a → x)`, `P (φ/2) (a, t)`,

because `φ/2 · t · (x - (x ⊕ a) + a) = φ · a · x · t`. From three controls on, a bit flip is a phase `π`
between Hadamard gates on the target. Controls are listed from the last one on.
-/

namespace CircuitIR.Controlled

variable {I R : Type} [Scalar R]

/-- The phase `-π/4`. -/
def minusEighth : Parameter R := .number (-Scalar.pi / Scalar.ofNat 4)

/-- A bit flip with two controls. -/
def toffoli (c d t : I) : List (OperationOf I (Parameter R)) :=
  [.fixed .hadamard t,
    .pair .cnot d t,
    .angle .phaseShift t minusEighth,
    .pair .cnot c t,
    .fixed .t t,
    .pair .cnot d t,
    .angle .phaseShift t minusEighth,
    .pair .cnot c t,
    .fixed .t d,
    .fixed .t t,
    .fixed .hadamard t,
    .pair .cnot c d,
    .fixed .t c,
    .angle .phaseShift d minusEighth,
    .pair .cnot c d]

/-- A bit flip of a target, from the phases with the same controls. -/
def flipBy (phase : I → Parameter R → List (OperationOf I (Parameter R))) (controls : List I)
    (t : I) : List (OperationOf I (Parameter R)) :=
  match controls with
  | [] => [.fixed .pauliX t]
  | [c] => [.pair .cnot c t]
  | [d, c] => toffoli c d t
  | _ => .fixed .hadamard t :: phase t (.number Scalar.pi) ++ [.fixed .hadamard t]

/-- A phase with one more control `x`, from the phases without it and from its half. -/
def extend (phase : I → Parameter R → List (OperationOf I (Parameter R))) (controls : List I)
    (x t : I) (half : Parameter R) : List (OperationOf I (Parameter R)) :=
  let flip := flipBy phase controls x
  .controlledPhase x t half :: flip ++ .controlledPhase x t half.neg :: flip ++ phase t half

/-- A phase on the state in which a target and all controls are one. -/
def phase : List I → I → Parameter R → List (OperationOf I (Parameter R))
  | [], t, φ => [.angle .phaseShift t φ]
  | [c], t, φ => [.controlledPhase c t φ]
  | x :: controls, t, φ => extend (phase controls) controls x t φ.half

/-- A bit flip of a target if all controls are one. -/
def flip (controls : List I) (t : I) : List (OperationOf I (Parameter R)) :=
  flipBy (phase controls) controls t

end CircuitIR.Controlled
