import CircuitIR.Formula.Meaning

/-!
# Reading parameters

Reads the text of a symbolic parameter. A text is refused at once if it is not plain, it is
unreadable if it does not parse or has no value, and its value must be an expression.
-/

namespace CircuitIR.Formula

/-- Why a text is not a parameter. -/
inductive ReadError where
  /-- The text has quotes, attributes or double underscores. -/
  | notPlain (text : String)
  | unreadable (text : String)
  /-- The text has a value that is not an expression. -/
  | notANumber (text : String)
deriving DecidableEq, Repr

/-- The value of a text that is plain. -/
def value? (text : String) : Option Value :=
  let parts := textParts text.toList
  let table := symbolTable parts
  match lexemes (respelled parts) with
  | none => none
  | some ls =>
    match (expand table ls).bind tokens with
    | none => none
    | some ts =>
      match parse? ts with
      | none => none
      | some t => ((evaluate t).run ⟨[], table⟩).map (·.1)

def read (text : String) : Except ReadError Expr :=
  if !isPlain text then .error (.notPlain text)
  else
    match value? text with
    | none => .error (.unreadable text)
    | some (.expr e) => .ok e
    | some _ => .error (.notANumber text)

end CircuitIR.Formula
