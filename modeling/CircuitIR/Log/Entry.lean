import CircuitIR.Fault

/-!
# Traced computations

Computations that write log entries on their way, whether they succeed or fail. Entries are in the
order in which they are written; what follows a failure writes nothing.
-/

namespace CircuitIR

/-- The parts of the library that write log entries. -/
inductive LogArea where
  | parameters
  | indices
  | operations
  | registers
  | records
  | passes
deriving DecidableEq, Repr

def LogArea.logger : LogArea → String
  | parameters => "qirk.ir.dtypes"
  | indices => "qirk.ir.utilities"
  | operations => "qirk.ir.operation"
  | registers => "qirk.ir.register"
  | records => "qirk.ir.serialization"
  | passes => "qirk.ir.passes"

/-- A log entry. An entry that quotes a fault of the surroundings has no text of its own. -/
structure LogEntry where
  area : LogArea
  message : Option String
deriving DecidableEq, Repr

/-- A computation with its log entries. -/
structure Traced (α : Type) where
  entries : List LogEntry
  result : Except Fault α

namespace Traced

variable {α β : Type}

def ok (a : α) : Traced α := ⟨[], .ok a⟩

/-- A computation that writes nothing. -/
def ofExcept (r : Except Fault α) : Traced α := ⟨[], r⟩

def fail (f : Fault) : Traced α := ⟨[], .error f⟩

/-- A fault of the surroundings. -/
def foreign (k : FaultKind) : Traced α := fail (.foreign k)

def log (area : LogArea) (message : String) : Traced Unit := ⟨[⟨area, some message⟩], .ok ()⟩

/-- Writes an entry without a text of its own. -/
def logForeign (area : LogArea) : Traced Unit := ⟨[⟨area, none⟩], .ok ()⟩

def bind (x : Traced α) (f : α → Traced β) : Traced β :=
  match x.result with
  | .error e => ⟨x.entries, .error e⟩
  | .ok a =>
    let y := f a
    ⟨x.entries ++ y.entries, y.result⟩

instance : Monad Traced where
  pure := ok
  bind := bind

instance : MonadLift (Except Fault) Traced := ⟨ofExcept⟩

@[simp]
theorem result_pure (a : α) : (pure a : Traced α).result = .ok a := rfl

@[simp]
theorem result_ofExcept (r : Except Fault α) : (ofExcept r).result = r := rfl

@[simp]
theorem result_fail (f : Fault) : (fail f : Traced α).result = .error f := rfl

@[simp]
theorem result_log (area : LogArea) (message : String) : (log area message).result = .ok () := rfl

@[simp]
theorem result_bind (x : Traced α) (f : α → Traced β) :
    (x >>= f).result = x.result >>= fun a => (f a).result := by
  change (bind x f).result = _
  unfold bind
  cases x.result <;> rfl

instance : LawfulMonad Traced := .mk' Traced
  (fun x => by
    obtain ⟨entries, result⟩ := x
    cases result
    · rfl
    · exact congrArg (Traced.mk · _) (List.append_nil entries))
  (fun _ _ => rfl)
  (fun x f g => by
    obtain ⟨entries, result⟩ := x
    cases result with
    | error => rfl
    | ok a =>
        change bind (bind _ f) g = bind _ fun a => bind (f a) g
        simp only [bind]
        cases (f a).result
        · rfl
        · simp)

theorem result_mapM (f : α → Traced β) (xs : List α) :
    (xs.mapM f).result = xs.mapM fun x => (f x).result := by
  induction xs with
  | nil => rfl
  | cons x xs ih =>
      rw [List.mapM_cons, List.mapM_cons, result_bind]
      refine congrArg ((f x).result >>= ·) (funext fun y => ?_)
      rw [result_bind, ih]
      rfl

end Traced

end CircuitIR
