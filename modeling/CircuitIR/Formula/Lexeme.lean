import CircuitIR.Decimal.Reading

/-!
# Lexemes of a formula

Splits the text of a parameter into names, numbers, operators, comments and line ends. Blanks
separate lexemes and are dropped, except in front of a character that begins no lexeme: such a
character and the blanks before it are kept one by one as strays. A line break inside brackets, or
after a backslash, does not end the line.
-/

namespace CircuitIR.Formula

inductive LexemeKind where
  | name
  | number
  | operator
  /-- A character that begins no lexeme. -/
  | stray
  /-- A text that stands for itself. -/
  | quoted
  | comment
  | lineEnd
deriving DecidableEq, Repr, Inhabited

/-- A piece of the text with its kind. -/
structure Lexeme where
  kind : LexemeKind
  text : String
deriving DecidableEq, Repr, Inhabited

namespace Lexeme

def name (s : String) : Lexeme := ⟨.name, s⟩

def number (s : String) : Lexeme := ⟨.number, s⟩

def op (s : String) : Lexeme := ⟨.operator, s⟩

def stray (c : Char) : Lexeme := ⟨.stray, String.singleton c⟩

def quoted (s : String) : Lexeme := ⟨.quoted, s⟩

def lineEnd : Lexeme := ⟨.lineEnd, ""⟩

def isOp (l : Lexeme) (s : String) : Bool := l.kind == .operator && l.text == s

end Lexeme

/-! ## Numbers -/

/-- The rest after an exponent: a letter, a sign and digits. -/
def afterExponent? : List Char → Option (List Char)
  | c :: rest =>
    if c == 'e' || c == 'E' then
      match NumberReader.digitRun (NumberReader.splitSign rest).2 with
      | ([], _) => none
      | (_, r) => some r
    else none
  | [] => none

/-- The part of a text before a rest of it. -/
def before (cs rest : List Char) : List Char := cs.take (cs.length - rest.length)

/-- The rest after a number with a point or an exponent. -/
def afterFloat? (cs : List Char) : Option (List Char) :=
  let (whole, rest) := NumberReader.digitRun cs
  match rest with
  | '.' :: r =>
    let (fraction, r) := NumberReader.digitRun r
    if whole.isEmpty && fraction.isEmpty then none else some ((afterExponent? r).getD r)
  | r => if whole.isEmpty then none else afterExponent? r

/-- The rest after a run of digits of a base, each with at most one underscore before it. -/
def afterBaseDigits (isDigit : Char → Bool) : List Char → List Char
  | '_' :: c :: cs => if isDigit c then afterBaseDigits isDigit cs else '_' :: c :: cs
  | c :: cs => if isDigit c then afterBaseDigits isDigit cs else c :: cs
  | [] => []

/-- The digits of the base that a letter after a zero announces. -/
def baseDigit? (c : Char) : Option (Char → Bool) :=
  if c == 'x' || c == 'X' then
    some fun d => d.isDigit || ('a' ≤ d && d ≤ 'f') || ('A' ≤ d && d ≤ 'F')
  else if c == 'b' || c == 'B' then some fun d => d == '0' || d == '1'
  else if c == 'o' || c == 'O' then some fun d => '0' ≤ d && d ≤ '7'
  else none

/-- The rest after an integer. A leading zero is followed by zeros only. -/
def afterInteger? (cs : List Char) : Option (List Char) :=
  match cs with
  | '0' :: rest =>
    let based : Option (List Char) :=
      match rest with
      | c :: r =>
        match baseDigit? c with
        | some isDigit =>
          let r' := afterBaseDigits isDigit r
          if r'.length < r.length then some r' else none
        | none => none
      | [] => none
    some (based.getD (afterBaseDigits (· == '0') rest))
  | c :: _ =>
    if c.isDigit then some (NumberReader.digitRun cs).2 else none
  | [] => none

/-- The rest after a number at the beginning of a text. A letter `j` makes a number with a point, an
exponent or plain digits imaginary. -/
def afterNumber? (cs : List Char) : Option (List Char) :=
  let imaginary : List Char → Option (List Char)
    | c :: r => if c == 'j' || c == 'J' then some r else none
    | [] => none
  let plain := match NumberReader.digitRun cs with
    | ([], _) => none
    | (_, r) => imaginary r
  match plain with
  | some r => some r
  | none =>
    match afterFloat? cs with
    | some r => some ((imaginary r).getD r)
    | none => afterInteger? cs

/-! ## Operators and words -/

/-- Operators and delimiters, longer ones before their beginnings. -/
def operators : List String :=
  ["**=", "//=", "<<=", ">>=", "...",
    "!=", "%=", "&=", "**", "*=", "+=", "-=", "->", "//", "/=", ":=", "<<", "<=", "==", ">=", ">>",
    "@=", "^=", "|=",
    "%", "&", "(", ")", "*", "+", ",", "-", ".", "/", ":", ";", "<", "=", ">", "@", "[", "]", "^",
    "\x7b", "|", "\x7d", "~"]

/-- The operator at the beginning of a text, with the rest. -/
def operator? (cs : List Char) : Option (String × List Char) :=
  (operators.find? fun s => s.toList.isPrefixOf cs).map fun s => (s, cs.drop s.length)

def isBlank (c : Char) : Bool := c == ' ' || c == '\t' || c == '\x0c'

def depthChange (s : String) : Int :=
  if s == "(" || s == "[" || s == "\x7b" then 1
  else if s == ")" || s == "]" || s == "\x7d" then -1
  else 0

/-- The rest after a line break. -/
def afterLineBreak? : List Char → Option (List Char)
  | '\n' :: r => some r
  | '\r' :: '\n' :: r => some r
  | _ => none

/-! ## The scanner -/

/-- Where the scanner stands. -/
inductive LinePosition where
  /-- At the beginning of a logical line. -/
  | start
  | inside
  /-- Directly after a backslash and a line break. -/
  | continued
deriving DecidableEq

/-- The lexemes of a text; `none` if a bracket or a continued line stays open, or if a line is
indented. -/
def scan : Nat → LinePosition → Int → List Char → Option (List Lexeme)
  | 0, _, _, _ => none
  | fuel + 1, position, depth, cs =>
    let atStart := position == .start && depth == 0
    let body := cs.dropWhile isBlank
    match body with
    | [] => if depth == 0 && position != .continued then some [] else none
    | c :: rest =>
      let comment := body.dropWhile fun c => c != '\r' && c != '\n'
      let indented := (before cs body).any (· != '\x0c')
      if c == '#' then
        (scan fuel position depth comment).map (⟨.comment, ""⟩ :: ·)
      else
        match afterLineBreak? body with
        | some r =>
          if atStart then scan fuel .start depth r
          else (scan fuel (if 0 < depth then .inside else .start) depth r).map (.lineEnd :: ·)
        | none =>
          if atStart && indented then none
          else
            let continuation := if c == '\\' then afterLineBreak? rest else none
            match continuation with
            | some r => scan fuel .continued depth r
            | none =>
              match afterNumber? body with
              | some r =>
                (scan fuel .inside depth r).map
                  (.number (String.ofList (before body r)) :: ·)
              | none =>
                match operator? body with
                | some (s, r) =>
                  (scan fuel .inside (depth + depthChange s) r).map (.op s :: ·)
                | none =>
                  let word := body.takeWhile CharacterClass.isWord
                  if word.isEmpty then
                    (scan fuel .inside depth rest).map
                      ((before cs body).map .stray ++ .stray c :: ·)
                  else
                    let kind : LexemeKind :=
                      if CharacterClass.isIdentifierStart c then .name else .operator
                    (scan fuel .inside depth (body.drop word.length)).map
                      (⟨kind, String.ofList word⟩ :: ·)

/-- The lexemes of a text without the blanks around it. -/
def lexemes (cs : List Char) : Option (List Lexeme) :=
  let cs := CharacterClass.strip cs
  scan (cs.length + 1) .start 0 cs

end CircuitIR.Formula
