import CircuitIR.Circuit.Passes

/-!
# Classical registers

A register groups measurement circuits, each of which runs after an optional constant circuit.
-/

namespace CircuitIR

/-- Measurement circuits with an optional constant circuit. -/
structure Register (R : Type) where
  constant : Option (Circuit R)
  circuits : List (Circuit R)

namespace Register

variable {R : Type}

/-- The place of the constant circuit. -/
def constantLocation : String := "constant_circuit"

/-- The place of a measurement circuit. -/
def circuitLocation (i : Nat) : String := "circuits[" ++ toString i ++ "]"

/-- Substitutes in the circuit at a place of a register. A failure names the place. -/
def substituteAt (location : String) (c : Circuit Float) (r : Resolver) :
    Traced (Circuit Float) :=
  let t := c.substitute r
  match t.result with
  | .ok _ => t
  | .error e =>
    match e.symbol? with
    | none => t
    | some (symbol, _) =>
      ⟨t.entries ++
          [⟨.registers, some ("Substitution failed in " ++ location ++ ": " ++ e.message)⟩],
        .error (.unresolvedSymbol symbol (some location))⟩

/-- Substitutes in all circuits, the constant one first. -/
def substitute (reg : Register Float) (r : Resolver) : Traced (Register Float) := do
  let constant ← reg.constant.mapM fun c => substituteAt constantLocation c r
  let circuits ← reg.circuits.zipIdx.mapM fun (c, i) => substituteAt (circuitLocation i) c r
  return ⟨constant, circuits⟩

end Register

end CircuitIR
