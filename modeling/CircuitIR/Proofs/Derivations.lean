import CircuitIR.Proofs.SessionEffects

/-!
# Derivations

The steps that derive circuits from circuits: sums, slices, substitution, remapping, decomposition, and the
construction of registers. Each of them first computes contents from the contents of its sources, which may fail,
and then makes new objects with these contents (`Session.Derives.run`).
-/

namespace CircuitIR

open CircuitIR.Action

/-- The contents of what a derivation makes. -/
inductive Contents where
  | circuit (c : Circuit Float)
  | register (r : Register Float)

namespace Contents

/-- All circuits, the constant one of a register first. -/
def circuits : Contents → List (Circuit Float)
  | circuit c => [c]
  | register r => r.allCircuits

/-- Makes new objects with some contents. -/
def allocate : Contents → Action Datum
  | circuit c => circuitDatum c
  | register r => registerDatum r

end Contents

namespace Datum

/-- The circuit objects of a circuit or a register. -/
def objects : Datum → List CircuitObject
  | circuit o => [o]
  | register k cs => k.toList ++ cs
  | _ => []

/-- A value is an object with some contents. -/
inductive Holds : Datum → Contents → Prop
  | circuit (o : CircuitObject) : Holds (circuit o) (.circuit o.contents)
  | register (k : Option CircuitObject) (cs : List CircuitObject) :
      Holds (register k cs) (.register (Register.ofObjects k cs))

variable {d : Datum} {x : Contents} {s : Store}

theorem Holds.circuitIds (h : d.Holds x) : d.circuitIds = d.objects.map (·.id) := by
  cases h <;> rfl

/-- A value is seen as it is if its circuits are in the store with their contents. -/
theorem Holds.refresh (h : d.Holds x) (hs : ∀ o ∈ d.objects, s.circuit o.id = o.contents) :
    s.refresh d = d := by
  have hsame : ∀ o ∈ d.objects, s.refreshCircuit o = o :=
    fun o ho => congrArg (CircuitObject.mk o.id) (hs o ho)
  cases h with
  | circuit o => rw [Store.refresh, hsame o (List.mem_singleton_self o)]
  | register k cs =>
      rw [objects, List.forall_mem_append] at hsame
      rw [Store.refresh, List.map_congr_left hsame.2, List.map_id']
      cases k with
      | none => rfl
      | some o => rw [Option.map_some, hsame.1 o (List.mem_singleton_self o)]

end Datum

theorem Contents.run_allocate (x : Contents) (s : Store) :
    ∃ d, x.allocate.run s = pure (d, s.pushCircuits x.circuits)
      ∧ d.objects = s.newObjects x.circuits ∧ d.Holds x := by
  cases x with
  | circuit c =>
      exact ⟨.circuit ⟨s.circuits.size, c⟩, rfl, rfl, .circuit _⟩
  | register r =>
      obtain ⟨k, cs, hrun, hobjects, rfl⟩ := run_registerDatum_eq r s
      exact ⟨.register k cs, hrun, hobjects, .register k cs⟩

/-! ## Derived contents -/

/-- The slice of some bounds: a stop, a start and a stop, or all three. -/
def Slice.ofBounds : List Datum → Except Fault Slice
  | [stop] => ofData .null stop .null
  | [start, stop] => ofData start stop .null
  | [start, stop, step] => ofData start stop step
  | _ => Datum.foreign .wrongType

/-- The register with the contents of the circuits that are given for it. -/
def Register.ofArguments (args : List Datum) (named : List (String × Datum)) :
    Except Fault (Register Float) := do
  match ← bindFields ["constant_circuit", "circuits"] (fun _ => true) args named with
  | [k, cs] => do
    let constant ← Register.constantOfDatum (k.getD .null)
    let circuits ← Register.circuitsOfDatum (cs.getD (.tuple []))
    return ⟨constant, circuits⟩
  | _ => Datum.foreign .wrongType

/-- What a method derives from a value, with one argument. -/
inductive Datum.Derives : Datum → String → Datum → Except Fault Contents → Prop
  | substitute (c : CircuitObject) (d : Datum) :
      Derives (.circuit c) "substitute_parameters" d do
        let r ← d.toResolver
        return .circuit (← (c.contents.substitute r).result)
  | remap (c : CircuitObject) (d : Datum) :
      Derives (.circuit c) "remap_qubits" d do
        return .circuit (← (c.contents.remap d.toQubitMap).result)
  | substituteRegister (k : Option CircuitObject) (cs : List CircuitObject) (d : Datum) :
      Derives (.register k cs) "substitute_parameters" d do
        let r ← d.toResolver
        return .register (← ((Register.ofObjects k cs).substitute r).result)

/-- What a step derives, from the values of its arguments as they are before the step. -/
inductive Session.Derives (s : Session) : StepAction → Except Fault Contents → Prop
  | add {a b : Argument} {c : CircuitObject} {d : Datum} {ops : List (Operation Float)}
      (source : s.evaluate a = some (.circuit c)) (addend : s.evaluate b = some d)
      (operations : d.addends? = some ops) :
      Derives s (.operator "add" [a, b]) (.ok (.circuit ⟨c.contents.operations ++ ops⟩))
  | slice {a : Argument} {bounds : List Argument} {c : CircuitObject} {ds : List Datum}
      (source : s.evaluate a = some (.circuit c)) (arguments : s.evaluateAll bounds = some ds) :
      Derives s (.operator "slice" (a :: bounds)) do
        let part ← Slice.ofBounds ds
        return .circuit ⟨part.select c.contents.operations⟩
  | decompose {a : Argument} {c : CircuitObject} (source : s.evaluate a = some (.circuit c)) :
      Derives s (.function "passes.decompose_circuit" [a]) do
        return .circuit (← c.contents.decompose.result)
  | method {receiver name : String} {a : Argument} {x d : Datum} {r : Except Fault Contents}
      (source : s.lookUp receiver = some x) (argument : s.evaluate a = some d)
      (contents : x.Derives name d r) : Derives s (.method receiver name [a]) r
  | pass {name : String} {a b : Argument} {x d : Datum} {r : Except Fault Contents}
      (source : s.evaluate a = some x) (argument : s.evaluate b = some d)
      (contents : x.Derives name d r) : Derives s (.function ("passes." ++ name) [a, b]) r
  | register {args : List Argument} {named : List (String × Argument)} {ds : List Datum}
      {es : List (String × Datum)} (sources : s.evaluateAll args = some ds)
      (namedSources : s.evaluateNamed named = some es) :
      Derives s (.make "ClassicalRegister" args named) do
        return .register (← Register.ofArguments ds es)

theorem Datum.Derives.run {x d : Datum} {name : String} {r : Except Fault Contents}
    (h : x.Derives name d r) (s : Store) :
    ((x.invoke name [d]).run s).result = r >>= fun x => (x.allocate.run s).result := by
  cases h with
  | substitute c d =>
      change ((do
        let r ← d.toResolver
        circuitDatum (← c.contents.substitute r) : Action Datum).run s).result = _
      rw [result_run_except_bind, bind_assoc]
      refine congrArg (_ >>= ·) (funext fun r => ?_)
      rw [result_run_traced_bind, bind_assoc]
      rfl
  | remap c d =>
      change ((do circuitDatum (← c.contents.remap d.toQubitMap) : Action Datum).run s).result = _
      rw [result_run_traced_bind, bind_assoc]
      rfl
  | substituteRegister k cs d =>
      change ((do
        let r ← d.toResolver
        registerDatum (← (Register.ofObjects k cs).substitute r) : Action Datum).run s).result = _
      rw [result_run_except_bind, bind_assoc]
      refine congrArg (_ >>= ·) (funext fun r => ?_)
      rw [result_run_traced_bind, bind_assoc]
      rfl

theorem Datum.sliceBy_eq (d : Datum) : ∀ bounds : List Datum,
    d.sliceBy bounds = (do d.slice (← Slice.ofBounds bounds))
  | [] | [_] | [_, _] | [_, _, _] | _ :: _ :: _ :: _ :: _ => rfl

theorem Action.result_construct_register (args : List Datum) (named : List (String × Datum)) (s : Store) :
    ((construct "ClassicalRegister" args named).run s).result
      = Register.ofArguments args named >>= fun r => ((registerDatum r).run s).result := by
  simp only [construct, Register.ofArguments]
  rw [result_run_except_bind, bind_assoc]
  refine congrArg (_ >>= ·) (funext fun values => ?_)
  obtain _ | ⟨k, _ | ⟨cs, _ | _⟩⟩ := values
  · rfl
  · rfl
  · dsimp only
    rw [result_run_except_bind, bind_assoc]
    refine congrArg (_ >>= ·) (funext fun constant => ?_)
    rw [result_run_except_bind, bind_assoc]
    rfl
  · rfl

namespace Session

variable {s : Session}

theorem evaluateAll_pair {a b : Argument} {x y : Datum} (ha : s.evaluate a = some x)
    (hb : s.evaluate b = some y) : s.evaluateAll [a, b] = some [x, y] := by
  rw [evaluateAll, evaluateAll, ha, hb]
  rfl

theorem evaluateAll_singleton {a : Argument} {x : Datum} (ha : s.evaluate a = some x) :
    s.evaluateAll [a] = some [x] := by
  rw [evaluateAll, ha]
  rfl

/-- A derivation computes its contents and then makes new objects. -/
theorem Derives.run {action : StepAction} {r : Except Fault Contents} (h : s.Derives action r) :
    ∃ act, s.action action = some act
      ∧ ∀ store, (act.run store).result = r >>= fun x => (x.allocate.run store).result := by
  cases h with
  | @add a b c d ops source addend operations =>
      refine ⟨(Datum.circuit c).add d, ?_, fun store => ?_⟩
      · rw [action, evaluateAll_pair source addend]
        rfl
      · rw [Datum.add, operations]
        rfl
  | @slice a bounds c ds source arguments =>
      refine ⟨(Datum.circuit c).sliceBy ds, ?_, fun store => ?_⟩
      · rw [action, evaluateAll, source, arguments]
        rfl
      · rw [Datum.sliceBy_eq, result_run_except_bind, bind_assoc]
        rfl
  | @decompose a c source =>
      refine ⟨decomposeAll (.circuit c), ?_, fun store => ?_⟩
      · rw [action, evaluateAll_singleton source]
        rfl
      · rw [decomposeAll, result_run_traced_bind, bind_assoc]
        rfl
  | @method receiver name a x d r source argument contents =>
      refine ⟨x.invoke name [d], ?_, contents.run⟩
      rw [action, source, evaluateAll_singleton argument]
      rfl
  | @pass name a b x d r source argument contents =>
      refine ⟨x.invoke name [d], ?_, contents.run⟩
      rw [action, evaluateAll_pair source argument]
      cases contents with
      | substitute | remap | substituteRegister => rfl
  | @register args named ds es sources namedSources =>
      refine ⟨construct "ClassicalRegister" ds es, ?_, fun store => ?_⟩
      · rw [action, sources, namedSources]
        rfl
      · rw [result_construct_register, bind_assoc]
        rfl

/-- A derivation hands on no list. -/
theorem Derives.leaks {action : StepAction} {r : Except Fault Contents} (h : s.Derives action r) :
    s.leaks action = false := by
  cases h with
  | add => exact leaks_operator (by decide) _
  | slice => exact leaks_operator (by decide) _
  | decompose => exact leaks_function (by decide) (by decide) _
  | method => rfl
  | pass source argument contents =>
      cases contents with
      | substitute | remap | substituteRegister => exact leaks_function (by decide) (by decide) _
  | register => rfl

end Session

end CircuitIR
