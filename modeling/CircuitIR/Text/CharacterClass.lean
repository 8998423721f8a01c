import CircuitIR.Text.CharacterTables

/-!
# Classes of characters

Which characters are letters, digits, white space or printable, and which can begin or continue an
identifier. ASCII characters are decided directly, all others by the tables.
-/

namespace CircuitIR.CharacterClass

/-- Halves the range `[low, high)` until it holds the number of positions that are at most `c`. -/
def countUpTo (positions : Array Nat) (c : Nat) : Nat → Nat → Nat → Nat
  | 0, low, _ => low
  | fuel + 1, low, high =>
    if high ≤ low then low
    else
      let middle := (low + high) / 2
      if positions.getD middle 0 ≤ c then countUpTo positions c fuel (middle + 1) high
      else countUpTo positions c fuel low middle

/-- Whether a character has the property of a table. -/
def inTable (positions : Array Nat) (c : Char) : Bool :=
  countUpTo positions c.toNat 12 0 positions.size % 2 == 1

/-- Letters, digits and other numerals, and the underscore. -/
def isWord (c : Char) : Bool :=
  if c.toNat < 128 then c.isAlphanum || c == '_' else inTable CharacterTables.word c

/-- Characters that can begin an identifier, among the word characters. -/
def isIdentifierStart (c : Char) : Bool :=
  if c.toNat < 128 then c.isAlpha || c == '_'
  else inTable CharacterTables.word c && !inTable CharacterTables.numeral c
    && !inTable CharacterTables.digit c

/-- Characters that can continue an identifier, among the word characters. -/
def isIdentifierRest (c : Char) : Bool :=
  if c.toNat < 128 then c.isAlphanum || c == '_'
  else inTable CharacterTables.word c && !inTable CharacterTables.numeral c

/-- Compatibility variants of other identifier characters. -/
def isCompatibilityVariant (c : Char) : Bool :=
  128 ≤ c.toNat && inTable CharacterTables.compatible c

def isSpace (c : Char) : Bool := inTable CharacterTables.space c

/-- Characters that a quoted text shows as themselves. -/
def isPrintable (c : Char) : Bool :=
  if c.toNat < 128 then 32 ≤ c.toNat && c.toNat < 127 else inTable CharacterTables.printable c

/-- The value of a decimal digit of any script. -/
def digitValue? (c : Char) : Option Nat :=
  if c.isDigit then some (c.toNat - 48)
  else if c.toNat < 128 then none
  else
    let i := countUpTo CharacterTables.zeros c.toNat 12 0 CharacterTables.zeros.size
    let first := CharacterTables.zeros.getD (i - 1) 0
    if 0 < i && c.toNat < first + 10 then some (c.toNat - first) else none

/-- The text without white space at either end. -/
def strip (cs : List Char) : List Char :=
  ((cs.dropWhile isSpace).reverse.dropWhile isSpace).reverse

end CircuitIR.CharacterClass
