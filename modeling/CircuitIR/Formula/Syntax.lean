import CircuitIR.Formula.Expansion

/-!
# Syntax of formulas

The rewritten lexemes are joined into tokens: operators and stray characters that stand next to each
other are split again, so that an operator may be written with blanks inside. The tokens are parsed
by the usual grammar of expressions, from conditional expressions down to calls and brackets.
-/

namespace CircuitIR.Formula

/-! ## Tokens -/

inductive Token where
  | name (s : String)
  | integer (s : String)
  | quoted (s : String)
  | op (s : String)
  | lineEnd
deriving DecidableEq, Repr, Inhabited

/-- Splits joined operator characters; `none` at a character that belongs to no operator. -/
def splitOperators : Nat → List Char → Option (List Token)
  | 0, _ => some []
  | _, [] => some []
  | fuel + 1, c :: cs =>
    if isBlank c then splitOperators fuel cs
    else if c == '\r' then (splitOperators fuel cs).map (.lineEnd :: ·)
    else
      match operator? (c :: cs) with
      | some (s, r) => (splitOperators fuel r).map (.op s :: ·)
      | none => none

/-- The tokens of rewritten lexemes; `pending` holds operator characters not yet split. -/
def tokensFrom (pending : List Char) : List Lexeme → Option (List Token)
  | [] => splitOperators pending.length pending
  | l :: ls =>
    let flush (t : Token) : Option (List Token) :=
      match splitOperators pending.length pending, tokensFrom [] ls with
      | some ts, some us => some (ts ++ t :: us)
      | _, _ => none
    match l.kind with
    | .name => flush (.name l.text)
    | .number => flush (.integer l.text)
    | .quoted => flush (.quoted l.text)
    | .lineEnd => flush .lineEnd
    | .comment => tokensFrom pending ls
    | _ => tokensFrom (pending ++ l.text.toList) ls

/-- Deepest nesting of brackets that is read. -/
def maxDepth : Nat := 200

/-- Drops line ends inside brackets and around the expression; `none` if brackets nest too deep. -/
def dropLineEnds : Int → List Token → Option (List Token)
  | _, [] => some []
  | depth, .lineEnd :: ts =>
    if 0 < depth || ts.all (· == .lineEnd) then dropLineEnds depth ts
    else (dropLineEnds depth ts).map (.lineEnd :: ·)
  | depth, .op s :: ts =>
    let depth := depth + depthChange s
    if maxDepth < depth then none else (dropLineEnds depth ts).map (.op s :: ·)
  | depth, t :: ts => (dropLineEnds depth ts).map (t :: ·)

/-- The tokens of rewritten lexemes. -/
def tokens (ls : List Lexeme) : Option (List Token) :=
  match tokensFrom [] ls with
  | some ts => dropLineEnds 0 (ts.dropWhile (· == .lineEnd))
  | none => none

/-! ## Trees -/

inductive Tree where
  | name (s : String)
  | integer (s : String)
  | quoted (s : String)
  | ellipsis
  | unary (op : String) (t : Tree)
  | binary (op : String) (a b : Tree)
  | compare (a : Tree) (rest : List (String × Tree))
  | both (a b : Tree)
  | either (a b : Tree)
  | negation (t : Tree)
  | choose (condition yes no : Tree)
  | assign (name : String) (t : Tree)
  | call (f : Tree) (args : List (Option String × Tree))
  | attribute (t : Tree) (name : String)
  | item (t index : Tree)
  | slice
  | tuple (ts : List Tree)
  | list (ts : List Tree)
  | set (ts : List Tree)
  | table (entries : List (Tree × Tree))
deriving Inhabited

/-! ## Grammar -/

/-- A result of parsing: what was read, and the tokens after it. -/
abbrev Parsed (α : Type) := Option (α × List Token)

/-- How tightly a binary operator binds. -/
def bindingPower (s : String) : Option Nat :=
  if s == "|" then some 1
  else if s == "^" then some 2
  else if s == "&" then some 3
  else if s == "<<" || s == ">>" then some 4
  else if s == "+" || s == "-" then some 5
  else if s == "*" || s == "/" || s == "//" || s == "%" || s == "@" then some 6
  else none

/-- The comparison at the beginning of the tokens. -/
def comparison? : List Token → Parsed String
  | .op s :: ts =>
    if ["<", ">", "<=", ">=", "==", "!="].contains s then some (s, ts) else none
  | .name "in" :: ts => some ("in", ts)
  | .name "not" :: .name "in" :: ts => some ("not in", ts)
  | .name "is" :: .name "not" :: ts => some ("is not", ts)
  | .name "is" :: ts => some ("is", ts)
  | _ => none

def startsWith (s : String) : List Token → Bool
  | .op t :: _ => s == t
  | _ => false

def expect (s : String) : List Token → Option (List Token)
  | .op t :: ts => if s == t then some ts else none
  | _ => none

mutual

/-- An expression with an optional assignment in front. -/
def parseNamed : Nat → List Token → Parsed Tree
  | 0, _ => none
  | fuel + 1, ts =>
    match ts with
    | .name s :: .op ":=" :: rest =>
      if reservedWords.contains s then none
      else (parseExpression fuel rest).map fun (t, r) => (.assign s t, r)
    | _ => parseExpression fuel ts

/-- A conditional expression or a disjunction. -/
def parseExpression : Nat → List Token → Parsed Tree
  | 0, _ => none
  | fuel + 1, ts =>
    match parseEither fuel ts with
    | some (yes, .name "if" :: r) =>
      match parseEither fuel r with
      | some (condition, .name "else" :: r) =>
        (parseExpression fuel r).map fun (no, r) => (.choose condition yes no, r)
      | _ => none
    | result => result

def parseEither : Nat → List Token → Parsed Tree
  | 0, _ => none
  | fuel + 1, ts =>
    match parseBoth fuel ts with
    | some (a, .name "or" :: r) => (parseEither fuel r).map fun (b, r) => (.either a b, r)
    | result => result

def parseBoth : Nat → List Token → Parsed Tree
  | 0, _ => none
  | fuel + 1, ts =>
    match parseNegation fuel ts with
    | some (a, .name "and" :: r) => (parseBoth fuel r).map fun (b, r) => (.both a b, r)
    | result => result

def parseNegation : Nat → List Token → Parsed Tree
  | 0, _ => none
  | fuel + 1, ts =>
    match ts with
    | .name "not" :: r => (parseNegation fuel r).map fun (t, r) => (.negation t, r)
    | _ =>
      match parseBinary fuel 1 ts with
      | some (a, r) =>
        match parseComparisons fuel r with
        | some ([], r) => some (a, r)
        | some (rest, r) => some (.compare a rest, r)
        | none => none
      | none => none

def parseComparisons : Nat → List Token → Parsed (List (String × Tree))
  | 0, _ => none
  | fuel + 1, ts =>
    match comparison? ts with
    | none => some ([], ts)
    | some (s, r) =>
      match parseBinary fuel 1 r with
      | some (b, r) => (parseComparisons fuel r).map fun (rest, r) => ((s, b) :: rest, r)
      | none => none

/-- Operators of at least the given binding power. -/
def parseBinary : Nat → Nat → List Token → Parsed Tree
  | 0, _, _ => none
  | fuel + 1, least, ts =>
    match parseFactor fuel ts with
    | some (a, r) => parseOperands fuel least a r
    | none => none

/-- Extends an operand to the right; operators of one binding power group to the left. -/
def parseOperands : Nat → Nat → Tree → List Token → Parsed Tree
  | 0, _, _, _ => none
  | fuel + 1, least, a, ts =>
    match ts with
    | .op s :: r =>
      match bindingPower s with
      | some p =>
        if p < least then some (a, ts)
        else
          match parseBinary fuel (p + 1) r with
          | some (b, r) => parseOperands fuel least (.binary s a b) r
          | none => none
      | none => some (a, ts)
    | _ => some (a, ts)

/-- Signs bind less tightly than a power and more tightly than the other operators. -/
def parseFactor : Nat → List Token → Parsed Tree
  | 0, _ => none
  | fuel + 1, ts =>
    match ts with
    | .op s :: r =>
      if s == "+" || s == "-" || s == "~" then
        (parseFactor fuel r).map fun (t, r) => (.unary s t, r)
      else parsePower fuel ts
    | _ => parsePower fuel ts

/-- A power groups to the right, and its exponent may have a sign. -/
def parsePower : Nat → List Token → Parsed Tree
  | 0, _ => none
  | fuel + 1, ts =>
    match parseAtom fuel ts with
    | some (a, r) =>
      match parseTrailers fuel a r with
      | some (a, .op "**" :: r) => (parseFactor fuel r).map fun (b, r) => (.binary "**" a b, r)
      | result => result
    | none => none

/-- Calls, items and attributes after an operand. -/
def parseTrailers : Nat → Tree → List Token → Parsed Tree
  | 0, _, _ => none
  | fuel + 1, a, ts =>
    match ts with
    | .op "(" :: r =>
      match parseArguments fuel r with
      | some (args, r) => parseTrailers fuel (.call a args) r
      | none => none
    | .op "[" :: r =>
      match parseIndex fuel r with
      | some (i, r) => parseTrailers fuel (.item a i) r
      | none => none
    | .op "." :: .name s :: r =>
      if reservedWords.contains s then none else parseTrailers fuel (.attribute a s) r
    | _ => some (a, ts)

/-- The arguments of a call up to the closing parenthesis. -/
def parseArguments : Nat → List Token → Parsed (List (Option String × Tree))
  | 0, _ => none
  | fuel + 1, ts =>
    match ts with
    | .op ")" :: r => some ([], r)
    | _ =>
      let first : Parsed (Option String × Tree) :=
        match ts with
        | .name s :: .op "=" :: r =>
          if reservedWords.contains s then none
          else (parseExpression fuel r).map fun (t, r) => ((some s, t), r)
        | _ => (parseNamed fuel ts).map fun (t, r) => ((none, t), r)
      match first with
      | some (a, .op ")" :: r) => some ([a], r)
      | some (a, .op "," :: r) => (parseArguments fuel r).map fun (rest, r) => (a :: rest, r)
      | _ => none

/-- An index up to the closing bracket; an index with a colon is a slice. -/
def parseIndex : Nat → List Token → Parsed Tree
  | 0, _ => none
  | fuel + 1, ts =>
    let bound (ts : List Token) : Option (List Token) :=
      if startsWith ":" ts || startsWith "]" ts then some ts
      else (parseExpression fuel ts).map (·.2)
    match bound ts with
    | some (.op ":" :: r) =>
      match bound r with
      | some (.op ":" :: r) =>
        match (bound r).bind (expect "]") with
        | some r => some (.slice, r)
        | none => none
      | some (.op "]" :: r) => some (.slice, r)
      | _ => none
    | _ =>
      match parseElements fuel ts with
      | some ((ts, comma), .op "]" :: r) =>
        match ts, comma with
        | [], _ => none
        | [t], false => some (t, r)
        | ts, _ => some (.tuple ts, r)
      | _ => none

/-- Expressions separated by commas, and whether a comma was seen. -/
def parseElements : Nat → List Token → Parsed (List Tree × Bool)
  | 0, _ => none
  | fuel + 1, ts =>
    if ts.isEmpty || startsWith ")" ts || startsWith "]" ts || startsWith "\x7d" ts then
      some (([], false), ts)
    else
      match parseNamed fuel ts with
      | some (t, .op "," :: r) =>
        (parseElements fuel r).map fun ((rest, _), r) => ((t :: rest, true), r)
      | some (t, r) => some (([t], false), r)
      | none => none

/-- Entries of a table up to the closing brace. -/
def parseEntries : Nat → List Token → Parsed (List (Tree × Tree))
  | 0, _ => none
  | fuel + 1, ts =>
    match ts with
    | .op "\x7d" :: r => some ([], r)
    | _ =>
      match parseExpression fuel ts with
      | some (k, .op ":" :: r) =>
        match parseExpression fuel r with
        | some (v, .op "," :: r) => (parseEntries fuel r).map fun (es, r) => ((k, v) :: es, r)
        | some (v, .op "\x7d" :: r) => some ([(k, v)], r)
        | _ => none
      | _ => none

/-- Names, numbers and bracketed expressions. -/
def parseAtom : Nat → List Token → Parsed Tree
  | 0, _ => none
  | fuel + 1, ts =>
    match ts with
    | .name s :: r => if reservedWords.contains s then none else some (.name s, r)
    | .integer s :: r => some (.integer s, r)
    | .quoted s :: r => some (.quoted s, r)
    | .op "..." :: r => some (.ellipsis, r)
    | .op "(" :: r =>
      match parseElements fuel r with
      | some ((ts, comma), .op ")" :: r) =>
        match ts, comma with
        | [t], false => some (t, r)
        | ts, _ => some (.tuple ts, r)
      | _ => none
    | .op "[" :: r =>
      match parseElements fuel r with
      | some ((ts, _), .op "]" :: r) => some (.list ts, r)
      | _ => none
    | .op "\x7b" :: r =>
      match parseElements fuel r with
      | some ((t :: ts, _), .op "\x7d" :: r) => some (.set (t :: ts), r)
      | _ => (parseEntries fuel r).map fun (es, r) => (.table es, r)
    | _ => none

end

/-- The tree of a complete formula; commas at the outside make a tuple. -/
def parse? (ts : List Token) : Option Tree :=
  let fuel := 24 * (ts.length + 2)
  match parseExpression fuel ts with
  | some (t, []) => some t
  | some (_, .op "," :: _) =>
    match parseElements fuel ts with
    | some ((ts, _), []) => some (.tuple ts)
    | _ => none
  | _ => none

end CircuitIR.Formula
