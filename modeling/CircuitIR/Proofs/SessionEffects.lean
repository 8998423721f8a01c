import CircuitIR.Proofs.ConfinedCalls

/-!
# Effects of steps

A step of a session changes at most one circuit, which is known before the step, and a run of steps changes no
circuit that is not among those of its steps. Names and calculators refer only to circuits of the store, since no
step is given a circuit in any other way than by name. All this is about steps that hand on no list: a list that
is read from a circuit, or assigned to one, is the list of the circuit in the program and a copy of it here.
-/

namespace CircuitIR

open CircuitIR.Action

variable {P : ℕ → Prop}

/-! ## Values of names and arguments -/

mutual

theorem Store.within_refresh {s : Store} (hs : s.CalculatorsWithin P) :
    ∀ d : Datum, d.Within P → (s.refresh d).Within P
  | .list ds, h => Store.within_refreshAll hs ds h
  | .tuple ds, h => Store.within_refreshAll hs ds h
  | .dict es, h => Store.within_refreshEntries hs es h
  | .circuit _, h => h
  | .register k cs, h => by
    rw [Datum.within_register, List.forall_mem_append] at h
    rw [Store.refresh, Datum.within_register, List.forall_mem_append, List.forall_mem_map]
    refine ⟨?_, h.2⟩
    cases k with
    | none => exact List.forall_mem_nil _
    | some c => exact List.forall_mem_singleton.2 (h.1 c (List.mem_singleton_self c))
  | .calculator id es, h => by
    rw [Store.refresh, Datum.within_calculator, Store.calculator]
    cases hid : s.calculators[id]? with
    | none => exact List.forall_mem_nil _
    | some es => exact hs es (Array.mem_of_getElem? hid)
  | .null, h | .bool _, h | .int _, h | .real _, h | .complex _ _, h | .text _, h | .set _ _, h
  | .expr _, h | .truth _, h | .relation _ _, h | .operation _, h | .resolver _, h | .matrix _, h
  | .involved _, h => h

theorem Store.within_refreshAll {s : Store} (hs : s.CalculatorsWithin P) :
    ∀ ds : List Datum, (∀ id ∈ Datum.circuitIdsAll ds, P id) →
      ∀ id ∈ Datum.circuitIdsAll (s.refreshAll ds), P id
  | [], h => h
  | d :: ds, h => by
    rw [Datum.circuitIdsAll, List.forall_mem_append] at h
    rw [Store.refreshAll, Datum.circuitIdsAll, List.forall_mem_append]
    exact ⟨Store.within_refresh hs d h.1, Store.within_refreshAll hs ds h.2⟩

theorem Store.within_refreshEntries {s : Store} (hs : s.CalculatorsWithin P) :
    ∀ es : List (Datum × Datum), (∀ id ∈ Datum.circuitIdsEntries es, P id) →
      ∀ id ∈ Datum.circuitIdsEntries (s.refreshEntries es), P id
  | [], h => h
  | (k, d) :: es, h => by
    rw [Datum.circuitIdsEntries, List.forall_mem_append, List.forall_mem_append] at h
    rw [Store.refreshEntries, Datum.circuitIdsEntries, List.forall_mem_append,
      List.forall_mem_append]
    exact ⟨⟨Store.within_refresh hs k h.1.1, Store.within_refresh hs d h.1.2⟩,
      Store.within_refreshEntries hs es h.2⟩

end

namespace Argument

mutual

/-- The circuits that are given as such in an argument. -/
def circuitIds : Argument → List ℕ
  | value d => d.circuitIds
  | name _ => []
  | list as => circuitIdsAll as
  | tuple as => circuitIdsAll as
  | dict es => circuitIdsEntries es
  | resolver es => circuitIdsNamed es

def circuitIdsAll : List Argument → List ℕ
  | [] => []
  | a :: as => circuitIds a ++ circuitIdsAll as

def circuitIdsEntries : List (Argument × Argument) → List ℕ
  | [] => []
  | (k, a) :: es => circuitIds k ++ circuitIds a ++ circuitIdsEntries es

def circuitIdsNamed : List (String × Argument) → List ℕ
  | [] => []
  | (_, a) :: es => circuitIds a ++ circuitIdsNamed es

end

end Argument

/-- The circuits that are given as such in the arguments of a step. -/
def StepAction.circuitIds : StepAction → List ℕ
  | .make _ args named => Argument.circuitIdsAll args ++ Argument.circuitIdsNamed named
  | .function _ args => Argument.circuitIdsAll args
  | .method _ _ args => Argument.circuitIdsAll args
  | .attribute _ _ => []
  | .assign _ _ args => Argument.circuitIdsAll args
  | .operator _ args => Argument.circuitIdsAll args

/-- The arguments of a step are plain data and names: a circuit can be given only by name. -/
def Step.IsPlain (st : Step) : Prop := st.action.circuitIds = []

instance (st : Step) : Decidable st.IsPlain := inferInstanceAs (Decidable (_ = _))

namespace Session

/-- All circuits that a session refers to have a property, and circuits share nothing. -/
structure Within (P : ℕ → Prop) (s : Session) : Prop where
  names : ∀ e ∈ s.names, e.2.Within P
  store : s.store.WellFormed P

variable {s : Session}

theorem Within.lookUp {name : String} {d : Datum} (hs : s.Within P) (h : s.lookUp name = some d) :
    d.Within P := by
  obtain ⟨d', hd', rfl⟩ := Option.map_eq_some_iff.1 h
  obtain ⟨before, after, heq, -⟩ := List.lookup_eq_some_iff.1 hd'
  refine Store.within_refresh hs.store.calculators d' (hs.names (name, d') ?_)
  rw [heq]
  exact List.mem_append_right before List.mem_cons_self

mutual

theorem Within.evaluate (hs : s.Within P) : ∀ (a : Argument) {d : Datum},
    (∀ id ∈ a.circuitIds, P id) → s.evaluate a = some d → d.Within P
  | .value d, _, h, hd => by
    obtain rfl := Option.some.inj hd
    exact h
  | .name n, _, _, hd => hs.lookUp hd
  | .list as, _, h, hd => by
    obtain ⟨ds, hds, rfl⟩ := Option.map_eq_some_iff.1 hd
    exact Datum.within_list.2 (Within.evaluateAll hs as h hds)
  | .tuple as, _, h, hd => by
    obtain ⟨ds, hds, rfl⟩ := Option.map_eq_some_iff.1 hd
    exact Datum.within_tuple.2 (Within.evaluateAll hs as h hds)
  | .dict es, _, h, hd => by
    obtain ⟨es', hes', rfl⟩ := Option.map_eq_some_iff.1 hd
    exact Datum.within_dict.2 (Within.evaluateEntries hs es h hes').ofEntries
  | .resolver es, _, h, hd => by
    obtain ⟨es', hes', rfl⟩ := Option.map_eq_some_iff.1 hd
    exact Datum.within_resolver.2 (Within.evaluateNamed hs es h hes')

theorem Within.evaluateAll (hs : s.Within P) : ∀ (as : List Argument) {ds : List Datum},
    (∀ id ∈ Argument.circuitIdsAll as, P id) → s.evaluateAll as = some ds → ∀ d ∈ ds, d.Within P
  | [], _, _, hds => by
    obtain rfl := Option.some.inj hds
    exact List.forall_mem_nil _
  | a :: as, _, h, hds => by
    rw [Argument.circuitIdsAll, List.forall_mem_append] at h
    obtain ⟨d, hd, hds⟩ := Option.bind_eq_some_iff.1 hds
    obtain ⟨ds, hrest, hds⟩ := Option.bind_eq_some_iff.1 hds
    obtain rfl := Option.some.inj hds
    exact List.forall_mem_cons.2 ⟨Within.evaluate hs a h.1 hd, Within.evaluateAll hs as h.2 hrest⟩

theorem Within.evaluateEntries (hs : s.Within P) : ∀ (es : List (Argument × Argument))
    {ds : List (Datum × Datum)}, (∀ id ∈ Argument.circuitIdsEntries es, P id) →
      s.evaluateEntries es = some ds → Datum.EntriesWithin P ds
  | [], _, _, hds => by
    obtain rfl := Option.some.inj hds
    exact List.forall_mem_nil _
  | (k, a) :: es, _, h, hds => by
    rw [Argument.circuitIdsEntries, List.forall_mem_append, List.forall_mem_append] at h
    obtain ⟨dk, hdk, hds⟩ := Option.bind_eq_some_iff.1 hds
    obtain ⟨d, hd, hds⟩ := Option.bind_eq_some_iff.1 hds
    obtain ⟨ds, hrest, hds⟩ := Option.bind_eq_some_iff.1 hds
    obtain rfl := Option.some.inj hds
    exact List.forall_mem_cons.2 ⟨⟨Within.evaluate hs k h.1.1 hdk, Within.evaluate hs a h.1.2 hd⟩,
      Within.evaluateEntries hs es h.2 hrest⟩

theorem Within.evaluateNamed (hs : s.Within P) : ∀ (es : List (String × Argument))
    {ds : List (String × Datum)}, (∀ id ∈ Argument.circuitIdsNamed es, P id) →
      s.evaluateNamed es = some ds → ∀ e ∈ ds, e.2.Within P
  | [], _, _, hds => by
    obtain rfl := Option.some.inj hds
    exact List.forall_mem_nil _
  | (_, a) :: es, _, h, hds => by
    rw [Argument.circuitIdsNamed, List.forall_mem_append] at h
    obtain ⟨d, hd, hds⟩ := Option.bind_eq_some_iff.1 hds
    obtain ⟨ds, hrest, hds⟩ := Option.bind_eq_some_iff.1 hds
    obtain rfl := Option.some.inj hds
    exact List.forall_mem_cons.2 ⟨Within.evaluate hs a h.1 hd, Within.evaluateNamed hs es h.2 hrest⟩

end

/-! ## Steps -/

/-- The circuit that a step changes, if it succeeds. -/
def target? (s : Session) : StepAction → Option ℕ
  | .method receiver name _ => (s.lookUp receiver).bind fun d => d.changedBy name
  | .operator name args => (s.evaluateAll args).bind (operatorTarget name)
  | _ => none

/-- A step hands on what belongs to an object: it reads or assigns the operations of a circuit or the variables of
a calculator, it copies a circuit without its list or a container with circuits in it, or it adds to a list. -/
def leaks (s : Session) : StepAction → Bool
  | .attribute _ name => name == "operations" || name == "variables"
  | .assign _ name _ => name == "operations" || name == "variables"
  | .function name args => ((s.evaluateAll args).map (functionLeaks name)).getD false
  | .operator name args => ((s.evaluateAll args).map (operatorLeaks name)).getD false
  | _ => false

theorem leaks_operator {name : String} (h : name ≠ "iadd") (args : List Argument) :
    s.leaks (.operator name args) = false := by
  have hleaks : ∀ ds, operatorLeaks name ds = false := by
    intro ds
    unfold operatorLeaks
    split
    · exact absurd rfl h
    · rfl
  rw [leaks, funext hleaks]
  cases s.evaluateAll args <;> rfl

theorem leaks_function {name : String} (hcopy : name ≠ "copy") (hdeepcopy : name ≠ "deepcopy")
    (args : List Argument) : s.leaks (.function name args) = false := by
  have hleaks : ∀ ds, functionLeaks name ds = false := by
    intro ds
    unfold functionLeaks
    split
    · exact absurd rfl hcopy
    · rfl
    · rfl
    · exact absurd rfl hdeepcopy
    · rfl
  rw [leaks, funext hleaks]
  cases s.evaluateAll args <;> rfl

theorem confined_action {action : StepAction} {act : Action Datum} (hs : s.Within P)
    (haction : ∀ id ∈ action.circuitIds, P id) (hleaks : s.leaks action = false)
    (h : s.action action = some act) : Confined P (s.target? action) act := by
  cases action with
  | make className args named =>
      rw [StepAction.circuitIds, List.forall_mem_append] at haction
      obtain ⟨ds, hds, h⟩ := Option.bind_eq_some_iff.1 h
      obtain ⟨es, hes, h⟩ := Option.bind_eq_some_iff.1 h
      obtain rfl := Option.some.inj h
      exact confined_construct className (hs.evaluateAll args haction.1 hds)
        (hs.evaluateNamed named haction.2 hes)
  | function name args =>
      obtain ⟨ds, hds, h⟩ := Option.bind_eq_some_iff.1 h
      obtain rfl := Option.some.inj h
      rw [leaks, hds] at hleaks
      exact confined_function name (hs.evaluateAll args haction hds) hleaks
  | method receiver name args =>
      obtain ⟨d, hd, h⟩ := Option.bind_eq_some_iff.1 h
      obtain ⟨ds, hds, h⟩ := Option.bind_eq_some_iff.1 h
      obtain rfl := Option.some.inj h
      rw [target?, hd]
      exact Datum.confined_invoke (hs.lookUp hd) name (hs.evaluateAll args haction hds)
  | «attribute» receiver name =>
      obtain ⟨d, hd, h⟩ := Option.bind_eq_some_iff.1 h
      obtain rfl := Option.some.inj h
      exact .except fun e he => (hs.lookUp hd).attribute he
  | assign receiver name args =>
      obtain ⟨d, hd, h⟩ := Option.bind_eq_some_iff.1 h
      obtain ⟨ds, hds, h⟩ := Option.bind_eq_some_iff.1 h
      obtain rfl := Option.some.inj h
      have hname : name ≠ "operations" := beq_eq_false_iff_ne.1 (Bool.or_eq_false_iff.1 hleaks).1
      exact .oneArgument fun e he => d.confined_assign hname (hs.evaluateAll args haction hds e he)
  | operator name args =>
      obtain ⟨ds, hds, h⟩ := Option.bind_eq_some_iff.1 h
      obtain rfl := Option.some.inj h
      rw [target?, hds]
      exact confined_operator name (hs.evaluateAll args haction hds)

theorem Within.mono {Q : ℕ → Prop} (hPQ : ∀ id, P id → Q id) (h : s.Within P) : s.Within Q where
  names e he := (h.names e he).mono hPQ
  store := h.store.mono hPQ

theorem Within.bindName {d : Datum} (h : s.Within P) (hd : d.Within P) (name : Option String) :
    (s.bindName name d).Within P := by
  cases name with
  | none => exact h
  | some n => exact ⟨List.forall_mem_cons.2 ⟨hd, h.names⟩, h.store⟩

theorem effect_step (hs : s.Within P) (st : Step) (hst : ∀ id ∈ st.action.circuitIds, P id)
    (hleaks : s.leaks st.action = false) :
    s.store.Effect P (s.target? st.action) (s.step st).1.store
      ∧ (s.step st).1.Within (s.store.Reaches P (s.step st).1.store) := by
  have hsame : s.store.Effect P (s.target? st.action) s.store
      ∧ s.Within (s.store.Reaches P s.store) :=
    ⟨.refl hs.store, hs.mono fun _ => Or.inl⟩
  cases haction : s.action st.action with
  | none =>
      have hstep : (s.step st).1 = s := by rw [step, haction]
      rwa [hstep]
  | some act =>
      cases hrun : (act.run s.store).result with
      | error f =>
          obtain ⟨events, hstep⟩ := step_of_error st.bind haction hrun
          rwa [hstep]
      | ok r =>
          obtain ⟨events, hstep⟩ := step_of_ok st.bind haction hrun
          obtain ⟨heffect, hd⟩ := confined_action hs hst hleaks haction s.store r.1 r.2 hs.store hrun
          have hnames : ∀ e ∈ s.names, e.2.Within (s.store.Reaches P r.2) :=
            fun e he => (hs.names e he).mono fun _ => Or.inl
          have hstore : ({ s with store := r.2 } : Session).Within (s.store.Reaches P r.2) :=
            ⟨hnames, heffect.wellFormed⟩
          rw [hstep, store_bindName]
          exact ⟨heffect, hstore.bindName hd st.bind⟩

theorem within_true (hs : s.store.Separate) : s.Within fun _ => True where
  names _ _ _ _ := trivial
  store := ⟨hs, fun _ _ _ _ => ⟨fun _ _ => trivial, fun _ _ => trivial⟩⟩

/-! ## Runs -/

/-- The session after some steps. -/
def after (s : Session) (steps : List Step) : Session := steps.foldl (fun s st => (s.step st).1) s

/-- The circuits that steps change, in order. -/
def targets (s : Session) : List Step → List ℕ
  | [] => []
  | st :: steps => (s.target? st.action).toList ++ (s.step st).1.targets steps

/-- None of the steps hands on what belongs to an object. -/
def keepsApart (s : Session) : List Step → Bool
  | [] => true
  | st :: steps => !s.leaks st.action && (s.step st).1.keepsApart steps

theorem keepsApart_cons {st : Step} {steps : List Step} : s.keepsApart (st :: steps) = true
    ↔ s.leaks st.action = false ∧ (s.step st).1.keepsApart steps = true := by
  rw [keepsApart, Bool.and_eq_true, Bool.not_eq_true']

/-- What a run of steps does to a store, where `targets` are the circuits that it may change. -/
structure RunEffect (targets : List ℕ) (s s' : Store) : Prop where
  size_le : s.circuits.size ≤ s'.circuits.size
  list? : ∀ id < s.circuits.size, s'.list? id = s.list? id
  circuit : ∀ id < s.circuits.size, id ∉ targets → s'.circuit id = s.circuit id
  separate : s'.Separate

/-- **Steps change no other circuits than their targets**, and circuits keep their lists. -/
theorem effect_after (hs : s.store.Separate) {steps : List Step} (hapart : s.keepsApart steps = true) :
    RunEffect (s.targets steps) s.store (s.after steps).store := by
  induction steps generalizing s with
  | nil => exact ⟨Nat.le_refl _, fun _ _ => rfl, fun _ _ _ => rfl, hs⟩
  | cons st steps ih =>
      obtain ⟨hst, hsteps⟩ := keepsApart_cons.1 hapart
      obtain ⟨heffect, -⟩ := effect_step (within_true hs) st (fun _ _ => trivial) hst
      have hrest := ih heffect.wellFormed.separate hsteps
      have hlt : ∀ id < s.store.circuits.size, id < (s.step st).1.store.circuits.size :=
        fun id hid => Nat.lt_of_lt_of_le hid heffect.size_le
      refine ⟨Nat.le_trans heffect.size_le hrest.size_le, fun id hid => ?_, fun id hid hnot => ?_,
        hrest.separate⟩
      · exact (hrest.list? id (hlt id hid)).trans (heffect.list? id hid)
      · rw [targets, List.mem_append, not_or, Option.mem_toList] at hnot
        calc ((s.step st).1.after steps).store.circuit id
            = (s.step st).1.store.circuit id := hrest.circuit id (hlt id hid) hnot.2
          _ = s.store.circuit id := heffect.circuit id hid hnot.1

/-- **Sessions refer only to circuits that exist.** -/
theorem within_after {s : Session} (hs : s.Within (· < s.store.circuits.size)) {steps : List Step}
    (hplain : ∀ st ∈ steps, st.IsPlain) (hapart : s.keepsApart steps = true) :
    (s.after steps).Within (· < (s.after steps).store.circuits.size) := by
  induction steps generalizing s with
  | nil => exact hs
  | cons st steps ih =>
      obtain ⟨hst, hsteps⟩ := List.forall_mem_cons.1 hplain
      obtain ⟨hleaks, hapart⟩ := keepsApart_cons.1 hapart
      have hliterals : ∀ id ∈ st.action.circuitIds, id < s.store.circuits.size := by
        rw [hst]
        exact List.forall_mem_nil _
      obtain ⟨heffect, hwithin⟩ := effect_step hs st hliterals hleaks
      refine ih (hwithin.mono fun id hid => ?_) hsteps hapart
      obtain hid | ⟨-, hid⟩ := hid
      · exact Nat.lt_of_lt_of_le hid heffect.size_le
      · exact hid

theorem within_start : start.Within (· < start.store.circuits.size) where
  names := List.forall_mem_nil _
  store :=
    { separate := fun _ _ _ h => absurd (Store.lt_size_of_list? h) (Nat.not_lt_zero _)
      calculators := fun _ h => absurd h (Array.not_mem_empty _) }

end Session

end CircuitIR
