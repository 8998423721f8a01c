/-!
# Bits of indices

The rows and columns of a matrix on `n` qubits are numbered by the `n`-bit numbers. Position `0` is the
most significant bit.
-/

namespace CircuitIR.Bits

-- powers of natural numbers are those of the core library, whatever else is imported
attribute [local instance (high)] instPowNat

/-- The bit of an `n`-bit number at a position. -/
def bit (n p r : Nat) : Bool := r.testBit (n - 1 - p)

/-- The number with the given bits, the most significant one first. -/
def ofBits (bits : List Bool) : Nat := bits.foldl (fun r b => 2 * r + b.toNat) 0

/-- The number made of the bits of `r` at some positions. -/
def select (n : Nat) (positions : List Nat) (r : Nat) : Nat :=
  ofBits (positions.map fun p => bit n p r)

/-- Two `n`-bit numbers have the same bits outside of some positions. -/
def agreeOutside (n : Nat) (positions : List Nat) (r c : Nat) : Bool :=
  (List.range n).all fun p => positions.contains p || bit n p r == bit n p c

/-- The number with the bits of an `n`-bit number in reverse order. -/
def reverse (n j : Nat) : Nat := ofBits ((List.range n).map fun i => j.testBit i)

/-- The binary digits of a number, the most significant one first, with zeros in front up to a width. -/
def digits (width j : Nat) : List Char := (Nat.toDigits 2 j).leftpad width '0'

/-- The images of all `n`-bit numbers under bit reversal. The `n` digits of each are read backwards. -/
def reversalPermutation (n : Nat) : List Nat :=
  (List.range (2 ^ n)).map fun j => Nat.ofDigitChars 2 (digits n j).reverse 0

/-- The number of ones among the bits of an `n`-bit number. -/
def weight (n r : Nat) : Nat := (List.range n).countP fun i => r.testBit i

end CircuitIR.Bits
