import CircuitIR.Number.Binary
import CircuitIR.Text.CharacterClass

/-!
# Reading numbers from text

Integers and doubles as a user writes them: blanks around the number, a sign, digits of any script,
and single underscores between digits.
-/

namespace CircuitIR.NumberReader

attribute [local instance (high)] instPowNat

/-- Replaces decimal digits of any script by the ASCII ones. -/
def normalizeDigits (cs : List Char) : List Char :=
  cs.map fun c => match CharacterClass.digitValue? c with
    | some d => Char.ofNat (48 + d)
    | none => c

/-- Removes the sign; `true` means negative. -/
def splitSign : List Char → Bool × List Char
  | '-' :: cs => (true, cs)
  | '+' :: cs => (false, cs)
  | cs => (false, cs)

/-- A run of digits with single underscores between them, and the rest of the text. -/
def digitRun : List Char → List Char × List Char
  | [] => ([], [])
  | [c] => if c.isDigit then ([c], []) else ([], [c])
  | c :: '_' :: d :: cs =>
    if c.isDigit && d.isDigit then
      let (ds, rest) := digitRun (d :: cs)
      (c :: ds, rest)
    else if c.isDigit then ([c], '_' :: d :: cs)
    else ([], c :: '_' :: d :: cs)
  | c :: cs =>
    if c.isDigit then
      let (ds, rest) := digitRun cs
      (c :: ds, rest)
    else ([], c :: cs)

def natOfDigits (ds : List Char) : Nat :=
  ds.foldl (fun n c => 10 * n + (c.toNat - 48)) 0

/-- The longest text of an integer that is read. -/
def maxIntegerDigits : Nat := 4300

def readInt? (s : String) : Option Int :=
  let (negative, cs) := splitSign (normalizeDigits (CharacterClass.strip s.toList))
  match digitRun cs with
  | ([], _) => none
  | (ds, []) =>
    if maxIntegerDigits < ds.length then none
    else some (if negative then -(natOfDigits ds : Int) else natOfDigits ds)
  | _ => none

/-- A decimal exponent: a letter `e`, a sign and digits. No exponent is zero. -/
def readExponent? : List Char → Option Int
  | [] => some 0
  | c :: cs =>
    if c == 'e' || c == 'E' then
      let (negative, cs) := splitSign cs
      match digitRun cs with
      | ([], _) => none
      | (ds, []) => some (if negative then -(natOfDigits ds : Int) else natOfDigits ds)
      | _ => none
    else none

/-- The number `m * 10 ^ e` as a double. Exponents far outside the range are not expanded. -/
def scaledToFloat (m : Nat) (e : Int) : Float :=
  let lead := e + (Nat.toDigits 10 m).length
  if m = 0 then 0
  else if 400 < lead then Float.ofBits 0x7ff0000000000000
  else if lead < -400 then 0
  else
    let q : Rat := if 0 ≤ e then (m * 10 ^ e.toNat : Nat) else mkRat m (10 ^ (-e).toNat)
    -- a sticky bit far below the last place keeps the second rounding exact
    let b := Binary.ofFraction 1200 q.num q.den
    b.toFloat

/-- An unsigned number with a point or an exponent, or both, or neither. -/
def readUnsigned? (cs : List Char) : Option Float :=
  let (whole, rest) := digitRun cs
  let (fraction, rest) := match rest with
    | '.' :: r => digitRun r
    | r => ([], r)
  if whole.isEmpty && fraction.isEmpty then none
  else
    match readExponent? rest with
    | none => none
    | some e => some (scaledToFloat (natOfDigits (whole ++ fraction)) (e - fraction.length))

/-- A double written in decimal, or one of the words for infinity and NaN. -/
def readFloat? (s : String) : Option Float :=
  let (negative, cs) := splitSign (normalizeDigits (CharacterClass.strip s.toList))
  let word := String.ofList (cs.map Char.toLower)
  let magnitude :=
    if word == "inf" || word == "infinity" then some (Float.ofBits 0x7ff0000000000000)
    else if word == "nan" then some (Float.ofBits 0x7ff8000000000000)
    else readUnsigned? cs
  magnitude.map fun x => if negative then -x else x

end CircuitIR.NumberReader
