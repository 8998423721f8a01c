import CircuitIR.Proofs.Derivations
import Mathlib.Data.List.Nodup

/-!
# Isolation of circuits

What is derived from circuits shares no circuit with anything that was there before, and its circuits have lists
of their own. So it stays as it is however the sources are changed, and the sources stay as they are however it is
changed. Adding one circuit in place to another changes the latter only. Steps that hand on a list are left out:
after one of them, two circuits may have the same list.
-/

namespace CircuitIR

namespace Session

variable {s s' : Session} {d : Datum} {x : Contents}

/-- A circuit is referred to by the value of a name or by the variables of a calculator. -/
def Mentions (s : Session) (id : ℕ) : Prop :=
  (∃ e ∈ s.names, id ∈ e.2.circuitIds)
    ∨ ∃ es ∈ s.store.calculators, ∃ e ∈ es, id ∈ e.1.circuitIds ∨ id ∈ e.2.circuitIds

theorem Within.of_mentions {P : ℕ → Prop} (h : s.Within P) {id : ℕ} (hid : s.Mentions id) : P id := by
  obtain ⟨e, he, hid⟩ | ⟨es, hes, e, he, hid | hid⟩ := hid
  · exact h.names e he id hid
  · exact (h.store.calculators es hes e he).1 id hid
  · exact (h.store.calculators es hes e he).2 id hid

/-- A value that a step makes, with circuits of its own. -/
structure Isolates (s s' : Session) (d : Datum) : Prop where
  /-- No circuit that exists before the step is changed by it. -/
  sources : ∀ id < s.store.circuits.size, s'.store.circuit id = s.store.circuit id
  nodup : d.circuitIds.Nodup
  new : ∀ id ∈ d.circuitIds, s.store.circuits.size ≤ id ∧ id < s'.store.circuits.size
  /-- Nothing that is known before the step is a circuit of the value. -/
  unmentioned : ∀ id ∈ d.circuitIds, ¬ s.Mentions id
  /-- A circuit of the value shares its list with no other circuit, now and later. -/
  ownLists : ∀ later, s'.keepsApart later = true → ∀ id ∈ d.circuitIds, ∀ id' ≠ id,
    (s'.after later).store.list? id' ≠ (s'.after later).store.list? id
  /-- Later changes of other circuits do not change the value. -/
  stays : ∀ later, s'.keepsApart later = true → (∀ id ∈ s'.targets later, id ∉ d.circuitIds) →
    (s'.after later).store.refresh d = d
  /-- Later changes of the circuits of the value change no other circuit. -/
  sourcesStay : ∀ later, s'.keepsApart later = true → (∀ id ∈ s'.targets later, id ∈ d.circuitIds) →
    ∀ id < s.store.circuits.size, (s'.after later).store.circuit id = s.store.circuit id

theorem isolates_of_pushCircuits (hs : s.Within (· < s.store.circuits.size)) (hd : d.Holds x)
    (hobjects : d.objects = s.store.newObjects x.circuits)
    (hstore : s'.store = s.store.pushCircuits x.circuits) : s.Isolates s' d := by
  have hextends : s.store.Extends s'.store := hstore ▸ .pushCircuits s.store x.circuits
  have hids : d.circuitIds = List.range' s.store.circuits.size x.circuits.length := by
    rw [hd.circuitIds, hobjects, Store.map_id_newObjects]
  have hrange : ∀ id ∈ d.circuitIds,
      s.store.circuits.size ≤ id ∧ id < s'.store.circuits.size := by
    intro id hid
    rw [hids, List.mem_range'_1] at hid
    rw [hstore, Store.size_pushCircuits]
    exact hid
  have heffect : s.store.Effect (· < s.store.circuits.size) none s'.store :=
    hstore ▸ .pushCircuits x.circuits hs.store
  have hafter : ∀ {later}, s'.keepsApart later = true →
      RunEffect (s'.targets later) s'.store (s'.after later).store :=
    fun h => effect_after heffect.wellFormed.separate h
  constructor
  case sources => exact hextends.circuit
  case nodup =>
    rw [hids]
    exact List.nodup_range'
  case new => exact hrange
  case unmentioned =>
    intro id hid hmentions
    exact absurd (hs.of_mentions hmentions) (Nat.not_lt.2 (hrange id hid).1)
  case ownLists =>
    intro later hapart id hid id' hne heq
    obtain ⟨l, hl⟩ := Store.exists_list? (Nat.lt_of_lt_of_le (hrange id hid).2 (hafter hapart).size_le)
    exact hne ((hafter hapart).separate id' id l (heq.trans hl) hl)
  case stays =>
    intro later hapart hlater
    refine hd.refresh fun o ho => ?_
    have hid : o.id ∈ d.circuitIds := by
      rw [hd.circuitIds]
      exact List.mem_map_of_mem ho
    calc (s'.after later).store.circuit o.id
        = s'.store.circuit o.id :=
          (hafter hapart).circuit o.id (hrange o.id hid).2 fun h => hlater o.id h hid
      _ = o.contents := by
          rw [hstore]
          exact Store.circuit_newObjects (hobjects ▸ ho)
  case sourcesStay =>
    intro later hapart hlater id hid
    have hnot : id ∉ s'.targets later :=
      fun h => absurd hid (Nat.not_lt.2 (hrange id (hlater id h)).1)
    calc (s'.after later).store.circuit id
        = s'.store.circuit id :=
          (hafter hapart).circuit id (Nat.lt_of_lt_of_le hid hextends.size_le) hnot
      _ = s.store.circuit id := hextends.circuit id hid

/-- A derivation fails and changes nothing, or it makes a value that is isolated. -/
theorem step_derives {action : StepAction} {r : Except Fault Contents}
    (hs : s.Within (· < s.store.circuits.size)) (h : s.Derives action r) (bind : Option String) :
    (∀ f, r = .error f → ∃ events, s.step ⟨action, bind⟩ = (s, events, .fault f))
    ∧ ∀ x, r = .ok x → ∃ s' events d, s.step ⟨action, bind⟩ = (s', events, .value d)
        ∧ d.Holds x ∧ s.Isolates s' d := by
  obtain ⟨act, haction, hrun⟩ := h.run
  constructor
  · rintro f rfl
    exact step_of_error bind haction (hrun s.store)
  · rintro x rfl
    obtain ⟨d, hallocate, hobjects, hd⟩ := x.run_allocate s.store
    have hresult : (act.run s.store).result = .ok (d, s.store.pushCircuits x.circuits) := by
      rw [hrun, ok_bind, hallocate]
      rfl
    obtain ⟨events, hstep⟩ := step_of_ok bind haction hresult
    refine ⟨_, events, d, hstep, hd, isolates_of_pushCircuits hs hd hobjects ?_⟩
    rw [store_bindName]

/-- A circuit that an argument stands for is an object of the store with its current contents. -/
theorem evaluate_circuit {a : Argument} {c : CircuitObject}
    (hs : s.Within (· < s.store.circuits.size)) (ha : a.circuitIds = [])
    (hc : s.evaluate a = some (.circuit c)) :
    c.id < s.store.circuits.size ∧ c.contents = s.store.circuit c.id := by
  cases a with
  | value d =>
      obtain rfl := Option.some.inj hc
      exact absurd ha (List.cons_ne_nil _ _)
  | name n =>
      refine ⟨Datum.within_circuit.1 (hs.lookUp hc), ?_⟩
      obtain ⟨d, -, hd⟩ := Option.map_eq_some_iff.1 hc
      cases d with
      | circuit c' =>
          obtain rfl := Datum.circuit.inj hd
          rfl
      | _ => simp [Store.refresh] at hd
  | list as | tuple as | dict es | resolver es =>
      obtain ⟨_, -, h⟩ := Option.map_eq_some_iff.1 hc
      exact nomatch h

/-- Adding in place appends to the operations of a circuit, and no other circuit changes. -/
theorem step_addTo {a b : Argument} {c : CircuitObject} {d : Datum} {ops : List (Operation Float)}
    (hs : s.store.Separate) (hc : s.evaluate a = some (.circuit c)) (hd : s.evaluate b = some d)
    (hops : d.addends? = some ops) (hsize : c.id < s.store.circuits.size) (bind : Option String) :
    ∃ s' events, s.step ⟨.operator "iadd" [a, b], bind⟩
        = (s', events, .value (.circuit ⟨c.id, s'.store.circuit c.id⟩))
      ∧ s'.store.circuit c.id = ⟨(s.store.circuit c.id).operations ++ ops⟩
      ∧ ∀ id ≠ c.id, s'.store.circuit id = s.store.circuit id := by
  set contents : Circuit Float := ⟨(s.store.circuit c.id).operations ++ ops⟩
  have haction : s.action (.operator "iadd" [a, b]) = some ((Datum.circuit c).addTo d) := by
    rw [action, evaluateAll_pair hc hd]
    rfl
  have hresult : (((Datum.circuit c).addTo d).run s.store).result
      = .ok (.circuit ⟨c.id, contents⟩, s.store.setOperations c.id contents.operations) := by
    rw [Datum.addTo, hops]
    rfl
  obtain ⟨events, hstep⟩ := step_of_ok bind haction hresult
  set s' := ({ s with store := s.store.setOperations c.id contents.operations } : Session).bindName bind
    (.circuit ⟨c.id, contents⟩)
  have hstore : s'.store = s.store.setOperations c.id contents.operations := store_bindName _ bind _
  have hself : s'.store.circuit c.id = contents := by
    rw [hstore]
    exact Store.circuit_setOperations_self hsize
  refine ⟨s', events, ?_, hself, fun id hne => ?_⟩
  · rw [hself]
    exact hstep
  · rw [hstore]
    exact Store.circuit_setOperations_of_ne hs hne.symm

/-- A session that steps lead to, from an empty one, none of which hands on a list. -/
def Reachable (s : Session) : Prop :=
  ∃ steps, (∀ st ∈ steps, st.IsPlain) ∧ start.keepsApart steps = true ∧ start.after steps = s

/-- A shallow copy hands on a list, and adding to the copy changes the circuit. -/
example :
    let s := start.after
      [⟨.make "Circuit" [.list [.value (.operation (.fixed .hadamard 0))]] [], some "a"⟩,
        ⟨.function "copy" [.name "a"], some "b"⟩,
        ⟨.method "b" "add" [.value (.operation (.fixed .pauliZ 2))], none⟩]
    s.store.list? 0 = s.store.list? 1
      ∧ s.store.circuit 0 = ⟨[.fixed .hadamard 0, .fixed .pauliZ 2]⟩ := ⟨rfl, rfl⟩

theorem Reachable.within (hs : s.Reachable) : s.Within (· < s.store.circuits.size) := by
  obtain ⟨steps, hplain, hapart, rfl⟩ := hs
  exact within_after within_start hplain hapart

/-- **Circuits are isolated from what is derived from them.** As long as no step hands on a list, no two circuits
have the same one. After any such steps, sums, slices, substitution, remapping, decomposition and the construction
of registers leave all circuits as they are and make values with circuits and lists of their own. Whatever steps of
this kind follow, such a value is changed only through its own circuits, and through these nothing else is changed.
Adding a circuit in place to a different one appends its operations in order, and no other circuit changes. -/
theorem circuits_isolated (hs : s.Reachable) :
    s.store.Separate
    ∧ (∀ a c, a.circuitIds = [] → s.evaluate a = some (.circuit c) →
      c.id < s.store.circuits.size ∧ c.contents = s.store.circuit c.id)
    ∧ (∀ action r bind, s.Derives action r → s.leaks action = false
        ∧ (∀ f, r = .error f → ∃ events, s.step ⟨action, bind⟩ = (s, events, .fault f))
        ∧ ∀ x, r = .ok x → ∃ s' events d, s.step ⟨action, bind⟩ = (s', events, .value d)
            ∧ d.Holds x ∧ s.Isolates s' d)
    ∧ ∀ a b c e bind, a.circuitIds = [] → b.circuitIds = [] → s.evaluate a = some (.circuit c) →
        s.evaluate b = some (.circuit e) → c.id ≠ e.id → s.leaks (.operator "iadd" [a, b]) = false
        ∧ ∃ s' events, s.step ⟨.operator "iadd" [a, b], bind⟩
            = (s', events, .value (.circuit ⟨c.id, s'.store.circuit c.id⟩))
          ∧ s'.store.circuit c.id
              = ⟨(s.store.circuit c.id).operations ++ (s.store.circuit e.id).operations⟩
          ∧ s'.store.circuit e.id = s.store.circuit e.id
          ∧ ∀ id ≠ c.id, s'.store.circuit id = s.store.circuit id := by
  refine ⟨hs.within.store.separate, fun a c ha hc => evaluate_circuit hs.within ha hc,
    fun action r bind h => ⟨h.leaks, step_derives hs.within h bind⟩,
    fun a b c e bind ha hb hc he hne => ⟨?_, ?_⟩⟩
  · rw [leaks, evaluateAll_pair hc he]
    rfl
  · obtain ⟨hsize, -⟩ := evaluate_circuit hs.within ha hc
    obtain ⟨-, hcontents⟩ := evaluate_circuit hs.within hb he
    obtain ⟨s', events, hstep, hself, hother⟩ := step_addTo hs.within.store.separate hc he rfl hsize bind
    rw [hcontents] at hself
    exact ⟨s', events, hstep, hself, hother e.id hne.symm, hother⟩

/-- The steps that make two circuits with one gate each. -/
def twoCircuits : List Step :=
  [⟨.make "Circuit" [.list [.value (.operation (.fixed .hadamard 0))]] [], some "a"⟩,
    ⟨.make "Circuit" [.list [.value (.operation (.fixed .pauliX 1))]] [], some "b"⟩]

def sumStep : Step := ⟨.operator "add" [.name "a", .name "b"], some "c"⟩

/-- Both sources change, one of them through the operator and one through the method. -/
def changesOfSources : List Step :=
  [⟨.operator "iadd" [.name "a", .name "b"], none⟩,
    ⟨.method "b" "add" [.value (.operation (.fixed .pauliZ 2))], none⟩]

/-- The sum changes, twice. -/
def changesOfSum : List Step :=
  [⟨.operator "iadd" [.name "c", .name "a"], some "d"⟩, ⟨.operator "iadd" [.name "d", .name "b"], none⟩]

/-- A sum outlives the changes of its sources, and its sources outlive the changes of the sum. -/
theorem circuits_isolated_sum :
    (∃ s' events d, (start.after twoCircuits).step sumStep = (s', events, .value d)
        ∧ d = .circuit ⟨2, ⟨[.fixed .hadamard 0, .fixed .pauliX 1]⟩⟩
        ∧ (s'.after changesOfSources).store.circuit 0 = ⟨[.fixed .hadamard 0, .fixed .pauliX 1]⟩
        ∧ (s'.after changesOfSources).store.refresh d = d
        ∧ (s'.after changesOfSum).store.circuit 0 = ⟨[.fixed .hadamard 0]⟩
        ∧ (s'.after changesOfSum).store.circuit 1 = ⟨[.fixed .pauliX 1]⟩)
    ∧ ∃ s' events d, (start.after twoCircuits).step ⟨.operator "iadd" [.name "a", .name "b"], none⟩
          = (s', events, .value d)
        ∧ s'.store.circuit 0 = ⟨[.fixed .hadamard 0, .fixed .pauliX 1]⟩
        ∧ s'.store.circuit 1 = ⟨[.fixed .pauliX 1]⟩ := by
  have hreachable : (start.after twoCircuits).Reachable := ⟨twoCircuits, by decide, by decide, rfl⟩
  obtain ⟨-, -, hderivation, haddTo⟩ := circuits_isolated hreachable
  constructor
  · have hderives : (start.after twoCircuits).Derives sumStep.action
        (.ok (.circuit ⟨[.fixed .hadamard 0] ++ [.fixed .pauliX 1]⟩)) :=
      .add (c := ⟨0, ⟨[.fixed .hadamard 0]⟩⟩) rfl rfl rfl
    obtain ⟨s', events, d, hstep, -, hisolates⟩ := (hderivation _ _ sumStep.bind hderives).2.2 _ rfl
    obtain rfl : ((start.after twoCircuits).step sumStep).1 = s' := congrArg (·.1) hstep
    have hvalue : Outcome.value (.circuit ⟨2, ⟨[.fixed .hadamard 0, .fixed .pauliX 1]⟩⟩) = .value d :=
      congrArg (·.2.2) hstep
    obtain rfl := Outcome.value.inj hvalue
    refine ⟨_, events, _, hstep, rfl, rfl, hisolates.stays _ (by decide) (by decide), ?_, ?_⟩
    · exact (hisolates.sourcesStay _ (by decide) (by decide) 0 (by decide)).trans rfl
    · exact (hisolates.sourcesStay _ (by decide) (by decide) 1 (by decide)).trans rfl
  · obtain ⟨-, s', events, hstep, ha, hb, -⟩ := haddTo (.name "a") (.name "b") _ _ none rfl rfl rfl
      rfl (by decide)
    exact ⟨s', events, _, hstep, ha, hb⟩

end Session

end CircuitIR
