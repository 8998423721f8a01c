import CircuitIR.Datum.Basic
import CircuitIR.Operation.Fields

/-!
# Equality of data

Numbers of all kinds are compared by their values, sequences by their elements, tables by their keys and
values without regard to order. An undefined number differs from everything.
-/

namespace CircuitIR

/-- Equality of parameters: of numbers by value, of expressions by structure. -/
def Parameter.beq : Parameter Float → Parameter Float → Bool
  | .number x, .number y => x == y
  | .symbolic e, .symbolic f => e == f
  | _, _ => false

instance : BEq (Parameter Float) := ⟨Parameter.beq⟩

/-- Equality of tables without regard to order. -/
def ReadoutTable.beq (s t : ReadoutTable) : Bool :=
  s.length == t.length && s.all fun e => t.lookup e.1 == some e.2

def FieldOf.beq : FieldOf Nat (Parameter Float) → FieldOf Nat (Parameter Float) → Bool
  | .qubit q, .qubit r => q == r
  | .qubits qs, .qubits rs => qs == rs
  | .parameter p, .parameter q => p == q
  | .parameters ps, .parameters qs => ps == qs
  | .text s, .text t => s == t
  | .count n, .count m => n == m
  | .flag b, .flag c => b == c
  | .table none, .table none => true
  | .table (some s), .table (some t) => s.beq t
  | _, _ => false

instance : BEq (FieldOf Nat (Parameter Float)) := ⟨FieldOf.beq⟩

/-- Operations are equal if they are of the same kind and have equal fields. -/
def OperationOf.beq (op op' : Operation Float) : Bool :=
  op.variant == op'.variant && op.fields == op'.fields

instance : BEq (Operation Float) := ⟨OperationOf.beq⟩

instance : BEq (Circuit Float) := ⟨fun c d => c.operations == d.operations⟩

namespace Datum

/-- The value of a number that is exact: a whole number or a finite double. -/
def binaryValue? : Datum → Option Binary
  | bool b => some (Binary.ofInt (if b then 1 else 0))
  | int n => some (Binary.ofInt n)
  | real x => Binary.ofFloat? x
  | expr (.number (.float x _)) => some x
  | expr (.number (.exact q)) => if q.den = 1 then some (Binary.ofInt q.num) else none
  | _ => none

def equalNumbers (a b : Datum) : Bool :=
  match a, b with
  | complex re im, complex re' im' => re == re' && im == im'
  | complex re im, real x => re == x && im == 0
  | real x, complex re im => re == x && im == 0
  | complex re im, b => im == 0 && (real re).binaryValue?.isSome && (real re).binaryValue? == b.binaryValue?
  | a, complex re im => im == 0 && (real re).binaryValue?.isSome && (real re).binaryValue? == a.binaryValue?
  | real x, real y => x == y
  | a, b => a.binaryValue?.isSome && a.binaryValue? == b.binaryValue?

mutual

/-- The size of a value, which bounds the depth of comparisons. -/
def weight : Datum → Nat
  | list ds => weightAll ds + 1
  | tuple ds => weightAll ds + 1
  | set _ ds => weightAll ds + 1
  | dict es => weightEntries es + 1
  | calculator _ es => weightEntries es + 1
  | _ => 1

def weightAll : List Datum → Nat
  | [] => 0
  | d :: ds => weight d + weightAll ds + 1

def weightEntries : List (Datum × Datum) → Nat
  | [] => 0
  | (k, d) :: es => weight k + weight d + weightEntries es + 1

end

/-- Equality down to a depth. -/
def equalAt (depth : Nat) (a b : Datum) : Bool :=
  match depth with
  | 0 => false
  | depth + 1 =>
    let equalLists (xs ys : List Datum) : Bool :=
      xs.length == ys.length && (xs.zip ys).all fun (x, y) => equalAt depth x y
    let within (es : List (Datum × Datum)) (e : Datum × Datum) : Bool :=
      es.any fun e' => equalAt depth e.1 e'.1 && equalAt depth e.2 e'.2
    let equalEntries (es es' : List (Datum × Datum)) : Bool :=
      es.length == es'.length && es.all (within es')
    match a, b with
    | null, null => true
    | text s, text t => s == t
    | list xs, list ys => equalLists xs ys
    | tuple xs, tuple ys => equalLists xs ys
    | set _ xs, set _ ys => xs.length == ys.length && xs.all fun x => ys.any (equalAt depth x)
    | dict es, dict es' => equalEntries es es'
    | calculator _ es, calculator _ es' => equalEntries es es'
    | truth b, truth c => b == c
    | truth b, bool c => b == c
    | bool b, truth c => b == c
    | relation s _, relation t _ => s == t
    | operation op, operation op' => op == op'
    | circuit c, circuit d => c.contents == d.contents
    | register k cs, register k' cs' =>
      k.map (·.contents) == k'.map (·.contents) && cs.map (·.contents) == cs'.map (·.contents)
    | involved b, involved c => b == c
    | expr e, expr f => e == f || equalNumbers (expr e) (expr f)
    | a, b => equalNumbers a b

def equal (a b : Datum) : Bool := equalAt (a.weight + 1) a b

instance : BEq Datum := ⟨equal⟩

def lookUp (entries : List (Datum × Datum)) (key : Datum) : Option Datum :=
  (entries.find? fun e => e.1.equal key).map (·.2)

def lookUpText (entries : List (Datum × Datum)) (key : String) : Option Datum :=
  lookUp entries (text key)

/-- Sets the value of a key; a key that is there keeps its place. -/
def setEntry (key value : Datum) : List (Datum × Datum) → List (Datum × Datum)
  | [] => [(key, value)]
  | e :: es => if e.1.equal key then (e.1, value) :: es else e :: setEntry key value es

/-- The table with the given entries; of equal keys the first place and the last value count. -/
def ofEntries (entries : List (Datum × Datum)) : List (Datum × Datum) :=
  entries.foldl (fun es e => setEntry e.1 e.2 es) []

/-- Some element is equal to a value. -/
def member (ds : List Datum) (d : Datum) : Bool := ds.any fun e => e.equal d

end Datum

end CircuitIR
