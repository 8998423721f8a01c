import CircuitIR.Proofs.CircuitIdentities
import CircuitIR.Proofs.NewObjects

/-!
# Effects of actions

As long as no two circuits share a list, an action changes at most one circuit that exists, the one that it adds
to, and this is known before it runs. What it makes is new, with lists of its own, and it refers to no other
circuits than its arguments and the variables of the calculators do. `Effect` says this of one run, `Confined` of
an action, and every method, function and operator is confined unless it hands a list on.
-/

namespace CircuitIR

/-- No list is the list of two circuits. -/
def Store.Separate (s : Store) : Prop :=
  ∀ id id' l, s.list? id = some l → s.list? id' = some l → id = id'

/-- All circuits in the variables of calculators have a property. -/
def Store.CalculatorsWithin (P : ℕ → Prop) (s : Store) : Prop :=
  ∀ es ∈ s.calculators, Datum.EntriesWithin P es

/-- Circuits share nothing, and those that calculators refer to have a property. -/
structure Store.WellFormed (P : ℕ → Prop) (s : Store) : Prop where
  separate : s.Separate
  calculators : s.CalculatorsWithin P

/-- A circuit has a property, or it is new in the second store. -/
def Store.Reaches (P : ℕ → Prop) (s s' : Store) (id : ℕ) : Prop :=
  P id ∨ s.circuits.size ≤ id ∧ id < s'.circuits.size

/-- What a run does to a store, where `target` is the circuit that it may change. -/
structure Store.Effect (P : ℕ → Prop) (target : Option ℕ) (s s' : Store) : Prop where
  size_le : s.circuits.size ≤ s'.circuits.size
  list? : ∀ id < s.circuits.size, s'.list? id = s.list? id
  circuit : ∀ id < s.circuits.size, target ≠ some id → s'.circuit id = s.circuit id
  wellFormed : s'.WellFormed (s.Reaches P s')

namespace Store

variable {P Q : ℕ → Prop} {target : Option ℕ} {s s' : Store} {id id' : ℕ} {ops : List (Operation Float)}

theorem WellFormed.mono (hPQ : ∀ id, P id → Q id) (h : s.WellFormed P) : s.WellFormed Q :=
  ⟨h.separate, fun es hes => (h.calculators es hes).mono hPQ⟩

/-- After a new circuit, a list is that of an old circuit, or circuit and list are the new ones. -/
theorem list?_pushCircuit_cases {c : Circuit Float} {l : ℕ} (h : (s.pushCircuit c).list? id = some l) :
    s.list? id = some l ∨ id = s.circuits.size ∧ l = s.lists.size := by
  rw [Store.list?, pushCircuit, Array.getElem?_push] at h
  split at h
  · next hid => exact Or.inr ⟨hid, (Option.some.inj h).symm⟩
  · exact Or.inl h

theorem Separate.pushCircuit (h : s.Separate) (c : Circuit Float) : (s.pushCircuit c).Separate := by
  intro id id' l hl hl'
  obtain hl | ⟨rfl, rfl⟩ := list?_pushCircuit_cases hl <;>
    obtain hl' | ⟨rfl, heq⟩ := list?_pushCircuit_cases hl'
  · exact h id id' l hl hl'
  · exact absurd (lt_of_list? hl) (heq ▸ Nat.lt_irrefl _)
  · exact absurd (lt_of_list? hl') (Nat.lt_irrefl _)
  · rfl

theorem list?_setOperations (s : Store) (id id' : ℕ) (ops : List (Operation Float)) :
    (s.setOperations id ops).list? id' = s.list? id' := by
  unfold setOperations
  split <;> rfl

theorem size_setOperations (s : Store) (id : ℕ) (ops : List (Operation Float)) :
    (s.setOperations id ops).circuits.size = s.circuits.size := by
  unfold setOperations
  split <;> rfl

theorem calculators_setOperations (s : Store) (id : ℕ) (ops : List (Operation Float)) :
    (s.setOperations id ops).calculators = s.calculators := by
  unfold setOperations
  split <;> rfl

theorem circuit_setOperations_self (hid : id < s.circuits.size) :
    (s.setOperations id ops).circuit id = ⟨ops⟩ := by
  obtain ⟨l, hl⟩ := exists_list? hid
  rw [circuit_eq ((list?_setOperations s id id ops).trans hl), setOperations, hl, operations,
    Array.getElem?_setIfInBounds_self_of_lt (lt_of_list? hl)]
  rfl

/-- Adding to a circuit is not seen in a circuit with another list. -/
theorem circuit_setOperations_of_ne (hs : s.Separate) (hne : id ≠ id') :
    (s.setOperations id ops).circuit id' = s.circuit id' := by
  cases hl : s.list? id with
  | none => rw [setOperations, hl]
  | some l =>
      cases hl' : s.list? id' with
      | none => rw [circuit, circuit, list?_setOperations, hl', Option.map_none, Option.map_none]
      | some l' =>
          have hlists : l ≠ l' := fun heq => hne (hs id id' l hl (heq ▸ hl'))
          rw [circuit_eq ((list?_setOperations s id id' ops).trans hl'), circuit_eq hl', setOperations, hl,
            operations, operations, Array.getElem?_setIfInBounds_ne hlists]

theorem Effect.refl (h : s.WellFormed P) : s.Effect P target s where
  size_le := Nat.le_refl _
  list? _ _ := rfl
  circuit _ _ _ := rfl
  wellFormed := h.mono fun _ => Or.inl

theorem Reaches.trans {s'' : Store} (h : s.circuits.size ≤ s'.circuits.size)
    (h' : s'.circuits.size ≤ s''.circuits.size) (hid : s'.Reaches (s.Reaches P s') s'' id) :
    s.Reaches P s'' id := by
  obtain (hP | ⟨hle, hlt⟩) | ⟨hle, hlt⟩ := hid
  · exact Or.inl hP
  · exact Or.inr ⟨hle, Nat.lt_of_lt_of_le hlt h'⟩
  · exact Or.inr ⟨Nat.le_trans h hle, hlt⟩

theorem Effect.trans {s'' : Store} (h : s.Effect P target s')
    (h' : s'.Effect (s.Reaches P s') target s'') : s.Effect P target s'' where
  size_le := Nat.le_trans h.size_le h'.size_le
  list? id hid := (h'.list? id (Nat.lt_of_lt_of_le hid h.size_le)).trans (h.list? id hid)
  circuit id hid hne := by
    calc s''.circuit id = s'.circuit id := h'.circuit id (Nat.lt_of_lt_of_le hid h.size_le) hne
      _ = s.circuit id := h.circuit id hid hne
  wellFormed := h'.wellFormed.mono fun _ => Reaches.trans h.size_le h'.size_le

theorem Effect.pushCircuit (c : Circuit Float) (h : s.WellFormed P) :
    s.Effect P target (s.pushCircuit c) where
  size_le := (Extends.pushCircuit s c).size_le
  list? _ hid := list?_pushCircuit hid c
  circuit _ hid _ := circuit_pushCircuit hid c
  wellFormed := ⟨h.separate.pushCircuit c, fun es hes => (h.calculators es hes).mono fun _ => Or.inl⟩

theorem Effect.pushCircuits (cs : List (Circuit Float)) (h : s.WellFormed P) :
    s.Effect P target (s.pushCircuits cs) := by
  induction cs generalizing s P with
  | nil => exact .refl h
  | cons c cs ih =>
      have hfirst : s.Effect P target (s.pushCircuit c) := .pushCircuit c h
      exact hfirst.trans (ih hfirst.wellFormed)

theorem Effect.pushCalculator {es : List (Datum × Datum)} (hes : Datum.EntriesWithin P es)
    (h : s.WellFormed P) : s.Effect P target (s.pushCalculator es) where
  size_le := Nat.le_refl _
  list? _ _ := rfl
  circuit _ _ _ := rfl
  wellFormed := by
    refine ⟨h.separate, fun es' hes' => ?_⟩
    rw [Store.pushCalculator, Array.mem_push] at hes'
    obtain hes' | rfl := hes'
    · exact (h.calculators es' hes').mono fun _ => Or.inl
    · exact hes.mono fun _ => Or.inl

theorem Effect.setCalculator {es : List (Datum × Datum)} (id : ℕ) (hes : Datum.EntriesWithin P es)
    (h : s.WellFormed P) : s.Effect P target (s.setCalculator id es) where
  size_le := Nat.le_refl _
  list? _ _ := rfl
  circuit _ _ _ := rfl
  wellFormed := by
    refine ⟨h.separate, fun es' hes' => ?_⟩
    obtain hes' | rfl := Array.mem_or_eq_of_mem_setIfInBounds hes'
    · exact (h.calculators es' hes').mono fun _ => Or.inl
    · exact hes.mono fun _ => Or.inl

theorem Effect.setOperations (id : ℕ) (ops : List (Operation Float)) (h : s.WellFormed P) :
    s.Effect P (some id) (s.setOperations id ops) where
  size_le := (size_setOperations s id ops).ge
  list? id' _ := list?_setOperations s id id' ops
  circuit id' _ hne := circuit_setOperations_of_ne h.separate fun heq => hne (congrArg some heq)
  wellFormed := by
    refine ⟨fun id₁ id₂ l => ?_, fun es hes => ?_⟩
    · rw [list?_setOperations, list?_setOperations]
      exact h.separate id₁ id₂ l
    · rw [calculators_setOperations] at hes
      exact (h.calculators es hes).mono fun _ => Or.inl

end Store

namespace Action

/-- An action has effects within bounds: it changes no other circuit than `target`, and its result, with the
circuits `ids`, refers only to circuits with a property or to new ones. -/
def ConfinedBy {α : Type} (ids : α → List ℕ) (P : ℕ → Prop) (target : Option ℕ) (act : Action α) :
    Prop :=
  ∀ s a s', s.WellFormed P → (act.run s).result = .ok (a, s') →
    s.Effect P target s' ∧ ∀ id ∈ ids a, s.Reaches P s' id

/-- An action with a value as its result has effects within bounds. -/
abbrev Confined (P : ℕ → Prop) (target : Option ℕ) (act : Action Datum) : Prop :=
  ConfinedBy Datum.circuitIds P target act

variable {P : ℕ → Prop} {target : Option ℕ} {α β : Type}

theorem ConfinedBy.pure {ids : α → List ℕ} {a : α} (h : ∀ id ∈ ids a, P id) :
    ConfinedBy ids P target (pure a) := by
  intro s a' s' hs hrun
  obtain ⟨rfl, rfl⟩ := Prod.mk.inj (Except.ok.inj hrun)
  exact ⟨.refl hs, fun id hid => Or.inl (h id hid)⟩

/-- What comes after an action may refer to what the action does. -/
theorem ConfinedBy.bind {ids : α → List ℕ} {ids' : β → List ℕ} {x : Action α} {f : α → Action β}
    (hx : ConfinedBy ids P target x)
    (hf : ∀ a Q, (∀ id ∈ ids a, Q id) → (∀ id, P id → Q id) → ConfinedBy ids' Q target (f a)) :
    ConfinedBy ids' P target (x >>= f) := by
  intro s b s'' hs hrun
  rw [StateT.run_bind] at hrun
  obtain ⟨⟨a, s'⟩, hrunx, hrunf⟩ := Traced.bind_result_eq_ok.1 hrun
  obtain ⟨heffect, ha⟩ := hx s a s' hs hrunx
  obtain ⟨heffect', hb⟩ := hf a _ ha (fun _ => Or.inl) s' b s'' heffect.wellFormed hrunf
  exact ⟨heffect.trans heffect', fun id hid => Store.Reaches.trans heffect.size_le
    heffect'.size_le (hb id hid)⟩

theorem result_run_except_bind (x : Except Fault α) (f : α → Action Datum) (s : Store) :
    ((do let a ← x; f a : Action Datum).run s).result = x >>= fun a => ((f a).run s).result := by
  cases x <;> rfl

theorem result_run_traced_bind (x : Traced α) (f : α → Action Datum) (s : Store) :
    ((do let a ← x; f a : Action Datum).run s).result
      = x.result >>= fun a => ((f a).run s).result := by
  obtain ⟨entries, result⟩ := x
  cases result <;> rfl

theorem Confined.pure {d : Datum} (h : d.Within P) : Confined P target (pure d) := ConfinedBy.pure h

theorem Confined.fail (f : Fault) : Confined P target (fail f) := fun _ _ _ _ hrun => nomatch hrun

theorem Confined.foreign (k : FaultKind) : Confined P target (Action.foreign k) :=
  Confined.fail (.foreign k)

theorem Confined.except {x : Except Fault Datum} (h : ∀ d, x = .ok d → d.Within P) :
    Confined P target (liftM x) := by
  intro s d s' hs hrun
  cases x with
  | error f => exact nomatch hrun
  | ok d' =>
      obtain ⟨rfl, rfl⟩ := Prod.mk.inj (Except.ok.inj hrun)
      exact ⟨.refl hs, (h d' rfl).mono fun _ => Or.inl⟩

/-- An action that changes nothing may be said to change something. -/
theorem Confined.of_none {act : Action Datum} (h : Confined P none act) : Confined P target act := by
  intro s d s' hs hrun
  obtain ⟨heffect, hd⟩ := h s d s' hs hrun
  exact ⟨{ heffect with circuit := fun id hid _ => heffect.circuit id hid (Option.some_ne_none id).symm },
    hd⟩

theorem Confined.except_bind {x : Except Fault α} {f : α → Action Datum}
    (h : ∀ a, x = .ok a → Confined P target (f a)) : Confined P target (do let a ← x; f a) := by
  intro s d s' hs hrun
  rw [result_run_except_bind] at hrun
  obtain ⟨a, ha, hrun⟩ := bind_eq_ok.1 hrun
  exact h a ha s d s' hs hrun

theorem Confined.traced_bind {x : Traced α} {f : α → Action Datum}
    (h : ∀ a, x.result = .ok a → Confined P target (f a)) :
    Confined P target (do let a ← x; f a) := by
  intro s d s' hs hrun
  rw [result_run_traced_bind] at hrun
  obtain ⟨a, ha, hrun⟩ := bind_eq_ok.1 hrun
  exact h a ha s d s' hs hrun

theorem Confined.circuitDatum (c : Circuit Float) : Confined P target (circuitDatum c) := by
  intro s d s' hs hrun
  obtain ⟨rfl, rfl⟩ := Prod.mk.inj (Except.ok.inj hrun)
  refine ⟨.pushCircuit c hs, Datum.within_circuit.2 (Or.inr ⟨Nat.le_refl _, ?_⟩)⟩
  rw [Store.size_pushCircuit]
  exact Nat.lt_succ_self _

theorem Confined.registerDatum (reg : Register Float) : Confined P target (registerDatum reg) := by
  intro s d s' hs hrun
  obtain ⟨k, cs, heq, hobjects, -⟩ := run_registerDatum_eq reg s
  rw [heq] at hrun
  obtain ⟨rfl, rfl⟩ := Prod.mk.inj (Except.ok.inj hrun)
  refine ⟨.pushCircuits _ hs, Datum.within_register.2 fun o ho => Or.inr ?_⟩
  have hid : o.id ∈ (s.newObjects reg.allCircuits).map (·.id) := List.mem_map_of_mem (hobjects ▸ ho)
  rw [Store.map_id_newObjects, List.mem_range'_1] at hid
  rw [Store.size_pushCircuits]
  exact hid

theorem Confined.calculatorDatum {es : List (Datum × Datum)} (hes : Datum.EntriesWithin P es) :
    Confined P target (calculatorDatum es) := by
  intro s d s' hs hrun
  obtain ⟨rfl, rfl⟩ := Prod.mk.inj (Except.ok.inj hrun)
  exact ⟨.pushCalculator hes hs, Datum.within_calculator.2 (hes.mono fun _ => Or.inl)⟩

theorem Confined.extendCircuit_bind {c : CircuitObject} (ops : List (Operation Float))
    {f : CircuitObject → Datum} (hf : ∀ contents, (f ⟨c.id, contents⟩).Within P) :
    Confined P (some c.id) (do let c ← extendCircuit c ops; return f c) := by
  intro s d s' hs hrun
  obtain ⟨rfl, rfl⟩ := Prod.mk.inj (Except.ok.inj hrun)
  exact ⟨.setOperations c.id _ hs, (hf _).mono fun _ => Or.inl⟩

theorem Confined.setCalculator_bind (id : ℕ) {es : List (Datum × Datum)}
    (hes : Datum.EntriesWithin P es) {d : Datum} (hd : d.Within P) :
    Confined P target (do modify fun s => s.setCalculator id es; return d) := by
  intro s d' s' hs hrun
  obtain ⟨rfl, rfl⟩ := Prod.mk.inj (Except.ok.inj hrun)
  exact ⟨.setCalculator id hes hs, hd.mono fun _ => Or.inl⟩

mutual

/-- A copy refers to new circuits where the value has circuits, and inside what is shared to those of the
value. -/
theorem Confined.deepCopy {P : ℕ → Prop} :
    ∀ d : Datum, d.Within P → Confined P target (deepCopy d)
  | .list ds, h => (Confined.deepCopyAll ds h).bind fun _ _ hds _ => .pure hds
  | .tuple ds, h => (Confined.deepCopyAll ds h).bind fun _ _ hds _ => .pure hds
  | .dict es, h => (Confined.deepCopyEntries es h).bind fun _ _ hes _ => .pure hes
  | .circuit c, _ => .circuitDatum c.contents
  | .register _ _, _ => .registerDatum _
  | .calculator _ _, h => .calculatorDatum (Datum.within_calculator.1 h)
  | .null, h | .bool _, h | .int _, h | .real _, h | .complex _ _, h | .text _, h | .set _ _, h
  | .expr _, h | .truth _, h | .relation _ _, h | .operation _, h | .resolver _, h | .matrix _, h
  | .involved _, h => .pure h

theorem Confined.deepCopyAll {P : ℕ → Prop} :
    ∀ ds : List Datum, (∀ id ∈ Datum.circuitIdsAll ds, P id) →
      ConfinedBy Datum.circuitIdsAll P target (deepCopyAll ds)
  | [], h => .pure h
  | d :: ds, h => by
    rw [Datum.circuitIdsAll, List.forall_mem_append] at h
    refine (Confined.deepCopy d h.1).bind fun d' Q hd' hPQ => ?_
    refine (Confined.deepCopyAll ds fun id hid => hPQ id (h.2 id hid)).bind fun ds' Q' hds' hQQ' => ?_
    exact .pure (List.forall_mem_append.2 ⟨fun id hid => hQQ' id (hd' id hid), hds'⟩)

theorem Confined.deepCopyEntries {P : ℕ → Prop} :
    ∀ es : List (Datum × Datum), (∀ id ∈ Datum.circuitIdsEntries es, P id) →
      ConfinedBy Datum.circuitIdsEntries P target (deepCopyEntries es)
  | [], h => .pure h
  | (k, d) :: es, h => by
    rw [Datum.circuitIdsEntries, List.forall_mem_append, List.forall_mem_append] at h
    obtain ⟨⟨hk, hd⟩, hes⟩ := h
    refine (Confined.deepCopy d hd).bind fun d' Q hd' hPQ => ?_
    refine (Confined.deepCopyEntries es fun id hid => hPQ id (hes id hid)).bind
      fun es' Q' hes' hQQ' => ?_
    refine .pure (List.forall_mem_append.2 ⟨List.forall_mem_append.2 ⟨?_, ?_⟩, hes'⟩)
    · exact fun id hid => hQQ' id (hPQ id (hk id hid))
    · exact fun id hid => hQQ' id (hd' id hid)

end

end Action

end CircuitIR
