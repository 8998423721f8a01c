import CircuitIR.Operation.Involved

/-!
# Circuits

A circuit is a sequence of operations in the order of their execution.
-/

namespace CircuitIR

/-- A sequence of operations. -/
structure Circuit (R : Type) where
  operations : List (Operation R)

namespace Circuit

variable {R : Type}

instance : Inhabited (Circuit R) := ⟨⟨[]⟩⟩

def empty : Circuit R := ⟨[]⟩

def add (c : Circuit R) (op : Operation R) : Circuit R := ⟨c.operations ++ [op]⟩

def append (c d : Circuit R) : Circuit R := ⟨c.operations ++ d.operations⟩

instance : Append (Circuit R) := ⟨append⟩

def length (c : Circuit R) : Nat := c.operations.length

@[simp]
theorem operations_append (c d : Circuit R) :
    (c ++ d).operations = c.operations ++ d.operations := rfl

def isParametrized (c : Circuit R) : Bool := c.operations.any fun op => op.isParametrized

def symbols (c : Circuit R) : List String := c.operations.flatMap fun op => op.symbols

/-- All qubits if an operation acts on all of them, else the union of the finite sets. -/
def involved (c : Circuit R) : Involved :=
  let parts := c.operations.map fun op => op.involved
  if parts.any Involved.isAll then .all
  else
    match Involved.ofList (parts.flatMap Involved.toList) with
    | [] => .none
    | qs => .finite qs

/-- The number of operations that carry at least one of some tags. -/
def count (c : Circuit R) (tags : List String) : Nat :=
  c.operations.countP fun op => op.variant.tags.any tags.contains

end Circuit

/-- Inserts a text into a strictly increasing list. -/
def insertText (s : String) : List String → List String
  | [] => [s]
  | t :: ts => if s < t then s :: t :: ts else if s = t then t :: ts else t :: insertText s ts

/-- The set of the texts of a list, in increasing order. -/
def sortedTexts (ss : List String) : List String := ss.foldr insertText []

def Circuit.operationTypes {R : Type} (c : Circuit R) : List String :=
  sortedTexts (c.operations.map fun op => op.name)

end CircuitIR
