import CircuitIR.Formula.Names

/-!
# Expansion of lexemes

Before a formula is parsed, its lexemes are expanded: names without another meaning become calls
of the symbol constructor, repeating decimals become sums of fractions, numbers become calls of
their constructors, and exclamation marks become calls of the factorial.
-/

namespace CircuitIR.Formula

/-- A call of a constructor with one written argument. -/
def constructorCall (f : String) (argument : Lexeme) : List Lexeme :=
  [.name f, .op "(", argument, .op ")"]

/-! ## Names -/

/-- A name keeps its spelling if it has a meaning of its own or stands where no value is looked up:
after a point, or before the equals sign of a named argument. -/
def keepsName (table : List (String × String)) (previous : Lexeme) (name : String)
    (next : Option Lexeme) : Bool :=
  let beforeEquals := match next with
    | some l => l.isOp "="
    | none => false
  reservedWords.contains name || previous.text == "."
    || ((previous.isOp "(" || previous.isOp ",") && beforeEquals)
    || (symbolOf? table name).isSome || mathNames.contains name || constructorNames.contains name

/-- Names without a meaning become symbols, or unknown functions if they are called. A name that
keeps its spelling does not count as the previous lexeme of what follows. -/
def expandNames (table : List (String × String)) : Lexeme → List Lexeme → List Lexeme
  | _, [] => []
  | previous, l :: ls =>
    if l.kind == .name then
      if keepsName table previous l.text ls.head? then
        l :: expandNames table previous ls
      else
        let called := match ls.head? with
          | some n => n.text == "("
          | none => false
        constructorCall (if called then "Function" else "Symbol") (.quoted l.text)
          ++ expandNames table l ls
    else l :: expandNames table l ls

/-! ## Repeating decimals -/

/-- The parts of a repeating decimal read so far, last first. -/
abbrev PartialDecimal := List Lexeme

def isPlainDigits (s : String) : Bool := s.toList.all fun c => c.isDigit || c == '_'

/-- A number with a point and without exponent or imaginary mark. -/
def isPointNumber (s : String) : Bool :=
  s.toList.contains '.' && !s.toList.any fun c => c == 'e' || c == 'E' || c == 'j' || c == 'J'

/-- Extends a repeating decimal by a lexeme; empty if the lexeme does not belong there. -/
def extendDecimal (parts : PartialDecimal) (l : Lexeme) : PartialDecimal :=
  match l.kind with
  | .number =>
    if parts.isEmpty && isPointNumber l.text then [l]
    else if isPlainDigits l.text && parts.length = 2 then l :: parts
    else if isPlainDigits l.text && parts.length = 3
        && (parts.head?.map fun p => isPlainDigits p.text).getD false then l :: parts
    else []
  | .operator =>
    if l.text == "[" && parts.length = 1 then l :: parts
    else if l.text == "]" && 3 ≤ parts.length then l :: parts
    else if l.text == "." && parts.isEmpty then [.number "0."]
    else []
  | _ => []

def withoutUnderscores (cs : List Char) : List Char := cs.filter (· != '_')

/-- The lexemes of `(Integer(a) + Rational(b, 10...) + Rational(d, 9...0...))`. -/
def decimalSum (whole fraction repetend : List Char) : List Lexeme :=
  let zeros := List.replicate fraction.length '0'
  let orZero (cs : List Char) : List Char := if cs.isEmpty then ['0'] else cs
  let num (cs : List Char) : Lexeme := .number (String.ofList cs)
  let quotient (n d : List Char) : List Lexeme :=
    [.name "Rational", .op "(", num n, .op ",", num d, .op ")"]
  .op "(" :: constructorCall "Integer" (num (orZero whole))
    ++ .op "+" :: quotient (orZero (fraction.dropWhile (· == '0'))) ('1' :: zeros)
    ++ .op "+" :: quotient (repetend.dropWhile (· == '0'))
        (List.replicate repetend.length '9' ++ zeros)
    ++ [.op ")"]

/-- The sum that a complete repeating decimal stands for. -/
def decimalOfParts (parts : List Lexeme) : List Lexeme :=
  match parts with
  | number :: _ :: digits =>
    let cs := number.text.toList
    let whole := withoutUnderscores (cs.takeWhile (· != '.'))
    let fraction := withoutUnderscores ((cs.dropWhile (· != '.')).drop 1)
    let repetend := withoutUnderscores (digits.dropLast.flatMap fun l => l.text.toList)
    decimalSum whole fraction repetend
  | _ => []

/-- Replaces repeating decimals. `done` holds the lexemes so far, last first. -/
def expandDecimals (done : List Lexeme) (parts : PartialDecimal) : List Lexeme → List Lexeme
  | [] => done.reverse
  | l :: ls =>
    let parts := extendDecimal parts l
    match parts with
    | last :: _ =>
      if last.text == "]" then
        expandDecimals ((decimalOfParts parts.reverse).reverse ++ (l :: done).drop parts.length)
          [] ls
      else expandDecimals (l :: done) parts ls
    | [] => expandDecimals (l :: done) parts ls

/-! ## Numbers -/

/-- A number becomes a call of its constructor; an imaginary one is also multiplied by the name
`I`. -/
def expandNumber (l : Lexeme) : List Lexeme :=
  if l.kind == .number then
    let cs := l.text.toList
    let imaginary := cs.getLast? == some 'j' || cs.getLast? == some 'J'
    let cs := if imaginary then cs.dropLast else cs
    let hexadecimal := match cs with
      | '0' :: c :: _ => c == 'x' || c == 'X'
      | _ => false
    let inexact := cs.contains '.'
      || (cs.any (fun c => c == 'e' || c == 'E') && !hexadecimal)
    let s := String.ofList cs
    let call := if inexact then constructorCall "Float" (.quoted s)
      else constructorCall "Integer" (.number s)
    call ++ if imaginary then [.op "*", .name "I"] else []
  else [l]

/-! ## Factorials -/

/-- Splits the lexemes before a factorial, last first, at the beginning of its operand: the lexemes
of the operand and those before it. A bracketed operand takes the name before it along. -/
def splitOperand : List Lexeme → Int → List Lexeme → Option (List Lexeme × List Lexeme)
  | [], _, _ => none
  | l :: ls, depth, operand =>
    let depth := if l.text == ")" then depth + 1 else if l.text == "(" then depth - 1 else depth
    if depth = 0 then
      match ls with
      | f :: rest =>
        if f.kind == .name || f.kind == .quoted then some (f :: l :: operand, rest)
        else some (l :: operand, ls)
      | [] => some (l :: operand, [])
    else splitOperand ls depth (l :: operand)

/-- Puts the operand before the end into a call; the lexemes are given last first. -/
def applyFactorial (f : String) (done : List Lexeme) : Option (List Lexeme) :=
  match done with
  | [] => none
  | l :: _ =>
    if l.text == "(" then none
    else
      match splitOperand done 0 [] with
      | some (operand, rest) =>
        let call : List Lexeme := .name f :: .op "(" :: operand ++ [.op ")"]
        some (call.reverse ++ rest)
      | none => some done

/-- Applies the factorial that a number of exclamation marks stands for. -/
def closeFactorial (marks : Nat) (done : List Lexeme) : Option (List Lexeme) :=
  match marks with
  | 0 => some done
  | 1 => applyFactorial "factorial" done
  | 2 => applyFactorial "factorial2" done
  | _ => none

/-- Replaces exclamation marks; `none` if one has no operand or more than two stand together. A
stray character between the marks and the next lexeme cancels them. -/
def expandFactorials (done : List Lexeme) (marks : Nat) : List Lexeme → Option (List Lexeme)
  | [] => (closeFactorial marks done).map List.reverse
  | l :: ls =>
    if l.kind == .stray then
      if l.text == "!" then expandFactorials done (marks + 1) ls
      else expandFactorials (l :: done) 0 ls
    else
      match closeFactorial marks done with
      | some done => expandFactorials (l :: done) 0 ls
      | none => none

/-- All expansions in their order. -/
def expand (table : List (String × String)) (ls : List Lexeme) : Option (List Lexeme) :=
  expandFactorials [] 0
    ((expandDecimals [] [] (expandNames table ⟨.comment, ""⟩ ls)).flatMap expandNumber)

end CircuitIR.Formula
