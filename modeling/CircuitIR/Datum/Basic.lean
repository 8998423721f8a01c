import CircuitIR.Circuit.Basic
import CircuitIR.Fault
import CircuitIR.Matrix.Product

/-!
# Data

The dynamic values that a session passes around: plain data, symbolic expressions, and the objects of the
library. Circuits and calculators can change; such an object has an identity beside its current contents.
-/

namespace CircuitIR

/-- A circuit that can change, by its identity, with its current contents. -/
structure CircuitObject where
  id : Nat
  contents : Circuit Float
deriving Inhabited

/-- A dynamic value. -/
inductive Datum where
  | null
  | bool (b : Bool)
  | int (n : Int)
  | real (x : Float)
  | complex (re im : Float)
  | text (s : String)
  | list (ds : List Datum)
  | tuple (ds : List Datum)
  /-- A table with keys of any kind, in the order of insertion. -/
  | dict (entries : List (Datum × Datum))
  | set (frozen : Bool) (ds : List Datum)
  | expr (e : Expr)
  /-- A symbolic truth value, which is not an expression. -/
  | truth (b : Bool)
  /-- A symbolic relation, which is not an expression. -/
  | relation (text : String) (symbols : List String)
  | operation (op : Operation Float)
  | circuit (c : CircuitObject)
  | register (constant : Option CircuitObject) (circuits : List CircuitObject)
  /-- A store of variables, by its identity, with its current contents. -/
  | calculator (id : Nat) (entries : List (Datum × Datum))
  /-- A resolver that is not part of the library. -/
  | resolver (values : List (String × Datum))
  | matrix (m : ComplexMatrix Float)
  | involved (all : Bool)
deriving Inhabited

namespace Datum

def ofNats (ns : List Nat) : List Datum := ns.map fun n => .int (Int.ofNat n)

def ofInvolved : Involved → Datum
  | .all => involved true
  | .none => involved false
  | .finite qs => set true (ofNats qs)

def ofParameter : Parameter Float → Datum
  | .number x => real x
  | .symbolic e => expr e

def foreign {α : Type} (k : FaultKind) : Except Fault α := .error (.foreign k)

def isZeroFloat (x : Float) : Bool := x == 0

/-- The truth of a value: zero and what is empty are false. A relation has none. -/
def truthy : Datum → Except Fault Bool
  | null => .ok false
  | bool b => .ok b
  | int n => .ok (n != 0)
  | real x => .ok (!isZeroFloat x)
  | complex re im => .ok (!(isZeroFloat re && isZeroFloat im))
  | text s => .ok (!s.isEmpty)
  | list ds => .ok (!ds.isEmpty)
  | tuple ds => .ok (!ds.isEmpty)
  | dict es => .ok (!es.isEmpty)
  | set _ ds => .ok (!ds.isEmpty)
  | truth b => .ok b
  | relation _ _ => foreign .wrongType
  | circuit c => .ok (!c.contents.operations.isEmpty)
  | matrix m =>
    match m.entries.toList with
    | [z] => .ok (!(isZeroFloat z.re && isZeroFloat z.im))
    | _ => foreign .wrongValue
  | _ => .ok true

/-- The elements of a value: the characters of a text, the keys of a table, the operations of a
circuit. -/
def elements : Datum → Except Fault (List Datum)
  | text s => .ok (s.toList.map fun c => text (String.singleton c))
  | list ds => .ok ds
  | tuple ds => .ok ds
  | set _ ds => .ok ds
  | dict es => .ok (es.map (·.1))
  | circuit c => .ok (c.contents.operations.map operation)
  | _ => foreign .wrongType

def length : Datum → Except Fault Nat
  | text s => .ok s.length
  | list ds => .ok ds.length
  | tuple ds => .ok ds.length
  | set _ ds => .ok ds.length
  | dict es => .ok es.length
  | circuit c => .ok c.contents.length
  | matrix m => .ok m.rows
  | _ => foreign .wrongType

mutual

/-- The value can be a key of a table. -/
def isKey : Datum → Bool
  | list _ => false
  | dict _ => false
  | set frozen _ => frozen
  | tuple ds => areKeys ds
  | circuit _ => false
  | register _ _ => false
  | calculator _ _ => false
  | matrix _ => false
  | _ => true

def areKeys : List Datum → Bool
  | [] => true
  | d :: ds => isKey d && areKeys ds

end

def checkKey (d : Datum) : Except Fault Unit :=
  if d.isKey then .ok () else foreign .wrongType

end Datum

end CircuitIR
