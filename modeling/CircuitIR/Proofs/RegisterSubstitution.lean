import CircuitIR.Proofs.MissingSymbols
import CircuitIR.Proofs.NewObjects
import CircuitIR.Proofs.ReachableOperations
import CircuitIR.Proofs.RecordRoundTrip

/-!
# Substitution in registers

A register is substituted as a whole or not at all. Its circuits are scanned in their order, the constant one
first, and the first circuit with a missing symbol gives its place to the failure. New circuits are new objects,
so the register that is substituted keeps its contents in both cases.
-/

namespace CircuitIR

namespace Register

variable {reg made : Register Float} {r : Resolver} {location symbol : String}

/-- The circuits of a register with their places, in the order of the scan. -/
def located (reg : Register Float) : List (String × Circuit Float) :=
  reg.constant.toList.map (fun c => (constantLocation, c))
    ++ reg.circuits.zipIdx.map fun e => (circuitLocation e.2, e.1)

/-- The free symbols of all circuits. -/
def symbols (reg : Register Float) : List String := reg.allCircuits.flatMap Circuit.symbols

/-- A symbol without a number and the place of its circuit: the first circuit with such a symbol, in it the
first operation, of this the first parameter, and the first such name in it. -/
inductive FirstMissing (reg : Register Float) (r : Resolver) (location symbol : String) : Prop
  | intro (c : Circuit Float) (op : Operation Float) (p : Parameter Float)
      (circuit : reg.located.find? (fun e => e.2.lacks r) = some (location, c))
      (operation : c.operations.find? (fun op => op.lacks r) = some op)
      (parameter : op.parameters.find? (fun p => p.lacks r) = some p)
      (name : symbol ∈ p.symbols ∧ r.lacks symbol = true)
      (least : ∀ s ∈ p.symbols, r.lacks s = true → symbol ≤ s)

/-- The circuits of the second register are those of the first one under a resolver, one by one. -/
structure SubstitutesTo (r : Resolver) (reg made : Register Float) : Prop where
  constant : Option.Rel (fun c c' => (c.substitute r).result = .ok c') reg.constant made.constant
  circuits : List.Forall₂ (fun c c' => (c.substitute r).result = .ok c') reg.circuits made.circuits

theorem map_snd_located (reg : Register Float) : reg.located.map (·.2) = reg.allCircuits := by
  rw [located, allCircuits, List.map_append, List.map_map, List.map_map]
  congr 1
  · exact List.map_id _
  · exact List.zipIdx_map_fst 0 reg.circuits

theorem any_symbols (reg : Register Float) (r : Resolver) :
    reg.symbols.any r.lacks = reg.located.any fun e => e.2.lacks r := by
  rw [symbols, List.any_flatMap, ← map_snd_located, List.any_map]
  exact congrArg _ (funext fun e => e.2.any_symbols r)

theorem result_substituteAt (location : String) (c : Circuit Float) (r : Resolver) :
    (substituteAt location c r).result
      = match (c.substitute r).result with
        | .ok made => .ok made
        | .error f =>
          match f.symbol? with
          | none => .error f
          | some (symbol, _) => .error (.unresolvedSymbol symbol (some location)) := by
  unfold substituteAt
  cases h : (c.substitute r).result with
  | ok made => simp only [h]
  | error f => cases hsymbol : f.symbol? <;> simp only [h, hsymbol]

theorem map_allCircuits_substitute (reg : Register Float) (r : Resolver) :
    (reg.substitute r).result.map allCircuits
      = reg.located.mapM fun e => (substituteAt e.1 e.2 r).result := by
  obtain ⟨constant, circuits⟩ := reg
  set places := circuits.zipIdx.map fun e => (circuitLocation e.2, e.1)
  have hcircuits : (circuits.zipIdx.mapM fun e => substituteAt (circuitLocation e.2) e.1 r).result
      = places.mapM fun e => (substituteAt e.1 e.2 r).result := by
    rw [Traced.result_mapM, List.mapM_map]
    rfl
  cases constant with
  | none =>
      change _ = places.mapM fun e => (substituteAt e.1 e.2 r).result
      rw [substitute, Option.mapM_none, pure_bind, Traced.result_bind, hcircuits]
      cases places.mapM fun e => (substituteAt e.1 e.2 r).result <;> rfl
  | some c =>
      change _ = ((constantLocation, c) :: places).mapM fun e => (substituteAt e.1 e.2 r).result
      rw [substitute, Option.mapM_some, map_eq_pure_bind, bind_assoc, Traced.result_bind,
        List.mapM_cons]
      cases (substituteAt constantLocation c r).result with
      | error f => rfl
      | ok c' =>
          rw [ok_bind, pure_bind, ok_bind, Traced.result_bind, hcircuits]
          cases places.mapM fun e => (substituteAt e.1 e.2 r).result <;> rfl

theorem substitutesTo (h : (reg.substitute r).result = .ok made) : SubstitutesTo r reg made := by
  obtain ⟨constant, hconstant, h⟩ := Traced.bind_result_eq_ok.1 h
  obtain ⟨circuits, hcircuits, h⟩ := Traced.bind_result_eq_ok.1 h
  obtain rfl := Except.ok.inj h
  constructor
  · cases hreg : reg.constant with
    | none =>
        rw [hreg] at hconstant
        obtain rfl : none = constant := Except.ok.inj hconstant
        exact .none
    | some c =>
        rw [hreg] at hconstant
        obtain ⟨c', hc', hconstant⟩ := Traced.bind_result_eq_ok.1 hconstant
        obtain rfl : some c' = constant := Except.ok.inj hconstant
        exact .some (substituteAt_eq_ok hc')
  · rw [Traced.result_mapM, mapM_eq_ok_iff] at hcircuits
    have hplaces : List.Forall₂ (fun e c' => (e.1.substitute r).result = .ok c') reg.circuits.zipIdx
        circuits := hcircuits.imp fun _ _ => substituteAt_eq_ok
    rwa [← List.zipIdx_map_fst 0 reg.circuits, List.forall₂_map_left_iff]

theorem isParametrized_eq_false (h : (reg.substitute r).result = .ok made) :
    ∀ c ∈ made.allCircuits, c.isParametrized = false := by
  intro c' hc'
  obtain ⟨c, -, hc⟩ := exists_circuit_of_substitute h c' hc'
  exact (Circuit.substitute_eq_ok hc).1

theorem exists_substituteAt (hreal : ∀ c ∈ reg.allCircuits, c.IsRealUnder r) :
    ∀ e ∈ reg.located, e.2.lacks r = false → ∃ c', (substituteAt e.1 e.2 r).result = .ok c' := by
  intro e he hlacks
  have hc : e.2 ∈ reg.allCircuits := map_snd_located reg ▸ List.mem_map_of_mem he
  obtain ⟨c', hc'⟩ := Circuit.exists_substitute (hreal e.2 hc) hlacks
  refine ⟨c', ?_⟩
  rw [result_substituteAt, hc']

theorem exists_substitute (hreal : ∀ c ∈ reg.allCircuits, c.IsRealUnder r)
    (h : reg.symbols.any r.lacks = false) : ∃ made, (reg.substitute r).result = .ok made := by
  rw [any_symbols, List.any_eq_false] at h
  obtain ⟨cs, hcs⟩ := exists_mapM_eq_ok fun e he =>
    exists_substituteAt hreal e he (Bool.eq_false_iff.2 (h e he))
  exact exists_of_map_eq_ok ((map_allCircuits_substitute reg r).trans hcs)

theorem exists_firstMissing (hreal : ∀ c ∈ reg.allCircuits, c.IsRealUnder r)
    (h : reg.symbols.any r.lacks = true) :
    ∃ location symbol, reg.FirstMissing r location symbol
      ∧ (reg.substitute r).result = .error (.unresolvedSymbol symbol (some location)) := by
  rw [any_symbols] at h
  -- what is found at each level has something to be found at the next one
  obtain ⟨⟨location, c⟩, hc, hlacks⟩ := exists_find?_of_any h
  obtain ⟨op, hop, hlacks⟩ := exists_find?_of_any hlacks
  obtain ⟨p, hp, hlacks⟩ := exists_find?_of_any hlacks
  obtain ⟨symbol, hsymbol, hlacks⟩ := exists_find?_of_any hlacks
  have hreal' : c.IsRealUnder r :=
    hreal c (map_snd_located reg ▸ List.mem_map_of_mem (List.mem_of_find?_eq_some hc))
  have hfault : (c.substitute r).result = .error (.unresolvedSymbol symbol none) :=
    Circuit.substitute_of_find? hreal' hop
      (OperationOf.substitute_of_find? (hreal' op (List.mem_of_find?_eq_some hop)) hp
        (Parameter.substitute_of_find? hsymbol))
  have hlocated : (substituteAt location c r).result
      = .error (.unresolvedSymbol symbol (some location)) := by
    rw [result_substituteAt, hfault]
    rfl
  refine ⟨location, symbol, ⟨c, op, p, hc, hop, hp, ?_, ?_⟩, ?_⟩
  · exact ⟨List.mem_of_find?_eq_some hsymbol, hlacks⟩
  · exact p.least_of_find? hsymbol
  · have hfailure := mapM_eq_error_of_find? hc (exists_substituteAt hreal) hlocated
    exact eq_error_of_map ((map_allCircuits_substitute reg r).trans hfailure)

end Register

/-- A table of names and numbers as a value. -/
def Datum.ofValues (values : List (String × Float)) : Datum :=
  .dict (values.map fun v => (.text v.1, .real v.2))

theorem Datum.toResolver_ofValues (values : List (String × Float)) :
    (ofValues values).toResolver = .ok (.ofList values) := by
  refine congrArg Except.ok (funext fun name => ?_)
  have hreal : (values.map fun v => (v.1, real v.2)).lookup name = (values.lookup name).map real := by
    induction values with
    | nil => rfl
    | cons v values ih =>
        obtain ⟨s, x⟩ := v
        rw [List.map_cons, List.lookup_cons, List.lookup_cons]
        cases name == s with
        | true => rfl
        | false => exact ih
  have htable : lookUpText (values.map fun v => (text v.1, real v.2)) name
      = (values.lookup name).map real := by
    rw [← hreal, ← lookUpText_map, List.map_map]
    rfl
  rw [htable, Resolver.ofList]
  cases values.lookup name <;> rfl

namespace Register

theorem result_invoke_substitute (reg : Register Float) (values : List (String × Float)) (s : Store) :
    ((reg.invoke "substitute_parameters" [.ofValues values]).run s).result
      = ((reg.substitute (.ofList values)).result >>= fun made =>
          ((Action.registerDatum made).run s).result) := by
  have hcall : reg.invoke "substitute_parameters" [.ofValues values] = (do
      let resolver ← (Datum.ofValues values).toResolver
      Action.registerDatum (← reg.substitute resolver)) := rfl
  rw [hcall, Datum.toResolver_ofValues, StateT.run_bind, Traced.result_bind]
  change ((do Action.registerDatum (← reg.substitute (.ofList values)) : Action Datum).run s).result
    = _
  rw [StateT.run_bind, Traced.result_bind]
  change ((reg.substitute (.ofList values) >>= fun made => pure (made, s)).result >>= _) = _
  rw [Traced.result_bind]
  cases (reg.substitute (.ofList values)).result <;> rfl

variable {s : Session} {receiver : String} {argument : Argument} {k : Option CircuitObject}
  {cs : List CircuitObject} {values : List (String × Float)}

/-- **A register is substituted as a whole or not at all.** Where every parameter whose symbols are all in the
table evaluates to a real number, substitution in a session makes a new register if no symbol is missing, with
the circuits of the register under the table, one by one, and no symbolic parameter left. Otherwise it fails
with the first missing symbol and the place of its circuit. In both cases no circuit of the session changes, and
the name of the register stands for what it stood for. -/
theorem substitute_allOrNothing (bind : Option String)
    (hreceiver : s.lookUp receiver = some (.register k cs))
    (hargument : s.evaluate argument = some (.ofValues values))
    (hreal : ∀ c ∈ (ofObjects k cs).allCircuits, c.IsRealUnder (.ofList values)) :
    ∃ s' events outcome,
      s.step ⟨.method receiver "substitute_parameters" [argument], bind⟩ = (s', events, outcome)
      ∧ ((∀ name ∈ (ofObjects k cs).symbols, name ∈ values.map (·.1)) → ∃ k' cs',
          outcome = .value (.register k' cs')
          ∧ (ofObjects k cs).SubstitutesTo (.ofList values) (ofObjects k' cs')
          ∧ ∀ c ∈ (ofObjects k' cs').allCircuits, c.isParametrized = false)
      ∧ ((∃ name ∈ (ofObjects k cs).symbols, name ∉ values.map (·.1)) → ∃ location symbol,
          (ofObjects k cs).FirstMissing (.ofList values) location symbol
          ∧ outcome = .fault (.unresolvedSymbol symbol (some location)))
      ∧ s.store.Extends s'.store
      ∧ (bind ≠ some receiver → (∀ c ∈ k.toList ++ cs, c.id < s.store.circuits.size) →
          s'.lookUp receiver = some (.register k cs)) := by
  have haction : s.action (.method receiver "substitute_parameters" [argument])
      = some ((ofObjects k cs).invoke "substitute_parameters" [.ofValues values]) := by
    have harguments : s.evaluateAll [argument] = some [.ofValues values] := by
      rw [Session.evaluateAll, hargument]
      rfl
    rw [Session.action, hreceiver, harguments]
    rfl
  have hmissing : (ofObjects k cs).symbols.any (Resolver.ofList values).lacks = true
      ↔ ∃ name ∈ (ofObjects k cs).symbols, name ∉ values.map (·.1) := by
    rw [List.any_eq_true]
    exact exists_congr fun name => and_congr_right fun _ => Resolver.lacks_ofList
  have hcall := result_invoke_substitute (ofObjects k cs) values s.store
  cases h : (ofObjects k cs).symbols.any (Resolver.ofList values).lacks with
  | true =>
      -- a step that fails leaves the session as it is
      obtain ⟨location, symbol, hfirst, hfault⟩ := exists_firstMissing hreal h
      rw [hfault] at hcall
      obtain ⟨events, hstep⟩ := Session.step_of_error bind haction hcall
      refine ⟨s, events, _, hstep, fun hall => ?_, fun _ => ?_, .refl s.store, fun _ _ => hreceiver⟩
      · obtain ⟨name, hname, hnot⟩ := hmissing.1 h
        exact absurd (hall name hname) hnot
      · exact ⟨location, symbol, hfirst, rfl⟩
  | false =>
      obtain ⟨made, hmade⟩ := exists_substitute hreal h
      obtain ⟨k', cs', store, hrun, rfl, hextends⟩ := Action.run_registerDatum made s.store
      rw [hmade, ok_bind, hrun] at hcall
      obtain ⟨events, hstep⟩ := Session.step_of_ok bind haction hcall
      have hstore : s.store.Extends
          (({ s with store := store } : Session).bindName bind (.register k' cs')).store := by
        rw [Session.store_bindName]
        exact hextends
      refine ⟨_, events, _, hstep, fun _ => ?_, fun hname => ?_, hstore, fun hbind hexisting => ?_⟩
      · exact ⟨k', cs', rfl, substitutesTo hmade, isParametrized_eq_false hmade⟩
      · exact absurd (hmissing.2 hname) (by rw [h]; exact Bool.false_ne_true)
      · exact Session.lookUp_register hstore (Session.lookup_bindName hbind _ _) hreceiver hexisting

/-- A register with symbols in all of its circuits. -/
def waiting : Register Float where
  constant := some ⟨[.angle .rotateX 0 (.symbolic (.symbol "b"))]⟩
  circuits :=
    [⟨[.fixed .hadamard 1,
        .call "swap" [0, 1] [.number 1, .symbolic (.sum [.symbol "d", .symbol "a", .symbol "c"]),
          .symbolic (.symbol "aa")]]⟩,
      ⟨[.globalPhase (.symbolic (.symbol "ab"))]⟩]

/-- A session in which the register has a name. -/
def waitingSession : Session where
  store := Store.empty.pushCircuits waiting.allCircuits
  names := [("ro", .register (some ⟨0, .empty⟩) [⟨1, .empty⟩, ⟨2, .empty⟩])]

def waitingStep (values : List (String × Float)) : Step where
  action := .method "ro" "substitute_parameters" [.value (.ofValues values)]
  bind := some "made"

def someValues : List (String × Float) := [("b", 0.5), ("a", 2)]

def allValues : List (String × Float) :=
  [("d", 5), ("c", 4), ("ab", 3), ("aa", 1), ("b", 0.5), ("a", 2)]

theorem isRealUnder_waiting : (∀ c ∈ waiting.allCircuits, c.IsRealUnder (.ofList someValues))
    ∧ ∀ c ∈ waiting.allCircuits, c.IsRealUnder (.ofList allValues) := by
  have hparameters : (waiting.allCircuits.flatMap (·.operations)).flatMap OperationOf.parameters
      = [.symbolic (.symbol "b"), .number 1,
        .symbolic (.sum [.symbol "d", .symbol "a", .symbol "c"]), .symbolic (.symbol "aa"),
        .symbolic (.symbol "ab")] := rfl
  have hall : ∀ {r : Resolver},
      (∀ p ∈ (waiting.allCircuits.flatMap (·.operations)).flatMap OperationOf.parameters,
        p.IsRealUnder r) → ∀ c ∈ waiting.allCircuits, c.IsRealUnder r :=
    fun h c hc op hop p hp => h p (List.mem_flatMap.2 ⟨op, List.mem_flatMap.2 ⟨c, hc, hop⟩, hp⟩)
  rw [hparameters] at hall
  simp only [List.forall_mem_cons, Parameter.isRealUnder_iff] at hall
  constructor
  · refine hall ⟨fun _ => ⟨_, rfl⟩, fun _ => ⟨_, rfl⟩, ?_, ?_, ?_, fun _ hp => ?_⟩
    · exact fun h => absurd h (by decide)
    · exact fun h => absurd h (by decide)
    · exact fun h => absurd h (by decide)
    · exact absurd hp List.not_mem_nil
  · refine hall ⟨?_, ?_, ?_, ?_, ?_, fun _ hp => absurd hp List.not_mem_nil⟩
    all_goals exact fun _ => ⟨_, rfl⟩

/-- The constant circuit has its numbers. In the first circuit after it two symbols of a sum are missing, and
then one with a smaller name. -/
theorem substitute_allOrNothing_waiting :
    (∃ s' events, waitingSession.step (waitingStep someValues)
          = (s', events, .fault (.unresolvedSymbol "c" (some "circuits[0]")))
        ∧ waiting.FirstMissing (.ofList someValues) "circuits[0]" "c"
        ∧ s'.lookUp "ro" = waitingSession.lookUp "ro")
    ∧ ∃ s' events k cs,
        waitingSession.step (waitingStep allValues) = (s', events, .value (.register k cs))
        ∧ waiting.SubstitutesTo (.ofList allValues) (ofObjects k cs)
        ∧ s'.lookUp "ro" = waitingSession.lookUp "ro" := by
  have hreceiver : waitingSession.lookUp "ro"
      = some (.register (some ⟨0, _⟩) [⟨1, _⟩, ⟨2, _⟩]) := rfl
  have hargument : ∀ values, waitingSession.evaluate (.value (.ofValues values))
      = some (.ofValues values) := fun _ => rfl
  constructor
  · obtain ⟨s', events, outcome, hstep, -, hfault, -, hsource⟩ := substitute_allOrNothing
      (some "made") hreceiver (hargument someValues) isRealUnder_waiting.1
    obtain ⟨location, symbol, hfirst, rfl⟩ := hfault ⟨"c", by decide, by decide⟩
    have hrun : (waitingSession.step (waitingStep someValues)).2.2
        = .fault (.unresolvedSymbol "c" (some "circuits[0]")) := rfl
    rw [waitingStep, hstep] at hrun
    injection hrun with hfault
    injection hfault with hsymbol hlocation
    obtain rfl := hsymbol
    obtain rfl := Option.some.inj hlocation
    exact ⟨s', events, hstep, hfirst, (hsource (by decide) (by decide)).trans hreceiver.symm⟩
  · obtain ⟨s', events, outcome, hstep, hmade, -, -, hsource⟩ := substitute_allOrNothing
      (some "made") hreceiver (hargument allValues) isRealUnder_waiting.2
    obtain ⟨k, cs, rfl, hto, -⟩ := hmade (by decide)
    exact ⟨s', events, k, cs, hstep, hto, (hsource (by decide) (by decide)).trans hreceiver.symm⟩

end Register

end CircuitIR
