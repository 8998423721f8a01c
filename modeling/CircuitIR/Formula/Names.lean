import CircuitIR.Expr.Basic
import CircuitIR.Formula.Lexeme

/-!
# Names in formulas

The identifiers that occur in the text of a parameter and what each of them means: a name with a
fixed mathematical meaning, a constructor that written numbers are turned into, or the symbol of
that name. Reserved words are symbols like any other name; they are spelled differently before the
text is split into lexemes. The module also decides which texts are refused before anything else is
looked at.
-/

namespace CircuitIR.Formula

/-- Names with a fixed mathematical meaning. -/
def mathNames : List String :=
  ["pi", "sqrt", "exp", "log", "sin", "cos", "tan", "asin", "acos", "atan", "atan2", "sinh", "cosh",
    "tanh", "Abs", "abs", "sign", "floor", "ceiling"]

/-- Names of the constructors that written numbers, symbols and factorials are turned into. -/
def constructorNames : List String :=
  ["Integer", "Float", "Rational", "Symbol", "factorial", "factorial2"]

/-- Words of the expression grammar that cannot name anything. -/
def reservedWords : List String :=
  ["False", "None", "True", "and", "as", "assert", "async", "await", "break", "class", "continue",
    "def", "del", "elif", "else", "except", "finally", "for", "from", "global", "if", "import",
    "in", "is", "lambda", "nonlocal", "not", "or", "pass", "raise", "return", "try", "while",
    "with", "yield"]

/-- The spelling under which a reserved word enters the grammar. -/
def placeholder (word : String) : String := "_" ++ word ++ "_keyword"

/-- A part of a text: an identifier or a single character outside of identifiers. -/
inductive TextPart where
  | identifier (s : String)
  | other (c : Char)
deriving DecidableEq, Repr

/-- An ASCII letter or the underscore. -/
def isAsciiStart (c : Char) : Bool := c.isAlpha || c == '_'

/-- Splits a text at its identifiers: words that begin with an ASCII letter or an underscore and
follow neither a word character nor a point. -/
def textPartsFrom : Nat → Bool → List Char → List TextPart
  | 0, _, _ => []
  | _, _, [] => []
  | fuel + 1, free, c :: cs =>
    if free && isAsciiStart c then
      let word := cs.takeWhile CharacterClass.isWord
      .identifier (String.ofList (c :: word)) :: textPartsFrom fuel false (cs.drop word.length)
    else .other c :: textPartsFrom fuel (!(CharacterClass.isWord c || c == '.')) cs

def textParts (cs : List Char) : List TextPart := textPartsFrom cs.length true cs

/-! ## Refused texts -/

/-- Skips blanks and looks for a point. -/
def pointFollows : List TextPart → Bool
  | .other c :: ps => if c == '.' then true else CharacterClass.isSpace c && pointFollows ps
  | _ => false

/-- An identifier or a closing bracket is followed by a point. -/
def accessesAttribute : List TextPart → Bool
  | [] => false
  | p :: ps =>
    let closes := match p with
      | .identifier _ => true
      | .other c => c == ')' || c == ']'
    (closes && pointFollows ps) || accessesAttribute ps

/-- Two underscores in a row. -/
def hasDoubleUnderscore : List Char → Bool
  | '_' :: '_' :: _ => true
  | _ :: cs => hasDoubleUnderscore cs
  | [] => false

/-- Quotes, back quotes and semicolons. -/
def isForbidden (c : Char) : Bool := c == '\'' || c == '"' || c == '\x60' || c == ';'

/-- The text has none of the forms that are refused at once. -/
def isPlain (s : String) : Bool :=
  let cs := s.toList
  !hasDoubleUnderscore cs && !accessesAttribute (textParts cs) && !cs.any isForbidden

/-! ## Symbols -/

/-- The identifiers of a text in the order of their names. -/
def identifiers (ps : List TextPart) : List String :=
  ps.foldl
    (fun names p => match p with
      | .identifier s => Expr.insertName s names
      | .other _ => names)
    []

/-- The names that are symbols, each with the name of its symbol; a later entry replaces an earlier
one of the same name. -/
def symbolTable (ps : List TextPart) : List (String × String) :=
  (identifiers ps).foldl
    (fun table s =>
      if mathNames.contains s || constructorNames.contains s then table
      else if reservedWords.contains s then (placeholder s, s) :: table
      else (s, s) :: table)
    []

def symbolOf? (table : List (String × String)) (s : String) : Option String :=
  (table.find? fun p => p.1 == s).map (·.2)

/-- The text with reserved words in their other spelling. -/
def respelled (ps : List TextPart) : List Char :=
  ps.flatMap fun p => match p with
    | .identifier s => (if reservedWords.contains s then placeholder s else s).toList
    | .other c => [c]

end CircuitIR.Formula
