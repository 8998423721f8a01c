import CircuitIR.Expr.Order

/-!
# Text of expressions

The canonical text of an expression: terms and factors in the order of display, a leading minus sign
instead of a factor minus one, negative powers in the denominator, and square roots by name.
Parentheses are written exactly where an operand binds no tighter than its place.
-/

namespace CircuitIR.Expr

/-- How tightly an expression binds when it is written: sums least, then products, powers, function
calls and atoms. A leading minus sign makes it bind like a sum. -/
def precedence : Expr → Nat
  | .number (.exact q) => if q < 0 then 40 else if q.den = 1 then 1000 else 50
  | .number (.float x _) => if x.isNegative then 40 else 1000
  | .number (.infinity negative) => if negative then 40 else 1000
  | .number .undefined => 1000
  | .constant _ => 1000
  | .symbol _ => 1000
  | .power .. => 60
  | .product fs => if hasMinus (.product fs) then 40 else 50
  | .sum _ => 40
  | .apply .. => 70

/-- The numerator and the denominator of a product as it is written. -/
structure FractionParts where
  numerator : List Expr
  /-- Each factor, with a mark if it is written in parentheses in any case. -/
  denominator : List (Expr × Bool)

/-- The exponent with its leading minus sign removed. -/
def positiveExponent (e : Expr) : Expr :=
  match e.factors with
  | .number n :: fs => if n.isMinusOne then ofFactors fs else ofFactors (.number n.neg :: fs)
  | fs => ofFactors fs

/-- Sorts the factors of a product into numerator and denominator. -/
def fractionParts (fs : List Expr) : FractionParts :=
  fs.foldl
    (fun (p : FractionParts) f =>
      match f with
      | .power b x =>
        if x.splitCoefficient.1.isNegative then
          if x.isMinusOne then
            { p with denominator := p.denominator ++ [(b, b.isProduct || b.isPower)] }
          else { p with denominator := p.denominator ++ [(.power b x.positiveExponent, false)] }
        else { p with numerator := p.numerator ++ [f] }
      | .number (.exact q) =>
        { numerator := if q.num = 1 then p.numerator else p.numerator ++ [int q.num]
          denominator := if q.den = 1 then p.denominator
            else p.denominator ++ [(int q.den, false)] }
      | _ => { p with numerator := p.numerator ++ [f] })
    ⟨[], []⟩

def parenthesized (s : String) : String := "(" ++ s ++ ")"

/-- Joins the texts of the terms of a sum by their signs. -/
def joinTerms : List String → String
  | [] => ""
  | t :: ts =>
    ts.foldl
      (fun s t =>
        match t.toList with
        | '-' :: rest => s ++ " - " ++ String.ofList rest
        | _ => s ++ " + " ++ t)
      t

/-- The canonical text of an expression, to a bounded depth. -/
def textAt : Nat → Expr → String
  | 0, _ => ""
  | fuel + 1, e =>
    let within (level : Nat) (x : Expr) : String :=
      if precedence x ≤ level then parenthesized (textAt fuel x) else textAt fuel x
    match e with
    | .number n => n.text
    | .constant c => c.text
    | .symbol s => s
    | .apply f es => f.text ++ parenthesized (", ".intercalate (es.map (textAt fuel)))
    | .sum _ => joinTerms (e.orderedTerms.map (textAt fuel))
    | .power b x =>
      if x.rat? == some (1 / 2) then "sqrt(" ++ textAt fuel b ++ ")"
      else if x.rat? == some (-1 / 2) then "1/sqrt(" ++ textAt fuel b ++ ")"
      else if x.isMinusOne then "1/" ++ within 60 b
      else within 60 b ++ "**" ++ within 60 x
    | .product fs =>
      let level := precedence e
      let (c, rest) := e.splitCoefficient
      let (sign, body) : String × Expr :=
        if c.isNegative then
          ("-", if c.isMinusOne then rest else
            match fs with
            | .number n :: gs => .product (.number n.neg :: gs)
            | _ => e)
        else ("", e)
      let parts := fractionParts (match body with
        | .product _ => body.orderedFactors
        | b => [b])
      let numerator := if parts.numerator.isEmpty then [one] else parts.numerator
      let above := "*".intercalate (numerator.map (within level))
      let below := parts.denominator.map fun (x, always) =>
        let t := within level x
        if always then parenthesized t else t
      match below with
      | [] => sign ++ above
      | [b] => sign ++ above ++ "/" ++ b
      | bs => sign ++ above ++ "/" ++ parenthesized ("*".intercalate bs)

/-- The canonical text of an expression. -/
def text (e : Expr) : String := textAt (2 * e.depth + 4) e

end CircuitIR.Expr
