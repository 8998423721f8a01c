import CircuitIR.Proofs.IndexRenaming
import CircuitIR.Session.Function
import CircuitIR.Session.Operator

/-!
# The circuits that a value refers to

Values refer to circuit objects by their identities. What is taken from a value, an element, an attribute or the
value of a key, refers to no other circuits than the value does, and operations, records and parameters refer to
none at all.
-/

namespace CircuitIR

namespace Datum

mutual

/-- The identities of all circuits in a value. -/
def circuitIds : Datum → List ℕ
  | list ds => circuitIdsAll ds
  | tuple ds => circuitIdsAll ds
  | set _ ds => circuitIdsAll ds
  | dict es => circuitIdsEntries es
  | circuit c => [c.id]
  | register k cs => (k.toList ++ cs).map (·.id)
  | calculator _ es => circuitIdsEntries es
  | resolver es => circuitIdsNamed es
  | _ => []

def circuitIdsAll : List Datum → List ℕ
  | [] => []
  | d :: ds => circuitIds d ++ circuitIdsAll ds

def circuitIdsEntries : List (Datum × Datum) → List ℕ
  | [] => []
  | (k, d) :: es => circuitIds k ++ circuitIds d ++ circuitIdsEntries es

def circuitIdsNamed : List (String × Datum) → List ℕ
  | [] => []
  | (_, d) :: es => circuitIds d ++ circuitIdsNamed es

end

/-- All circuits in a value have a property. -/
def Within (P : ℕ → Prop) (d : Datum) : Prop := ∀ id ∈ d.circuitIds, P id

/-- All circuits in a table have a property. -/
def EntriesWithin (P : ℕ → Prop) (es : List (Datum × Datum)) : Prop :=
  ∀ e ∈ es, e.1.Within P ∧ e.2.Within P

variable {P Q : ℕ → Prop} {d key container : Datum} {ds : List Datum} {es : List (Datum × Datum)}

theorem Within.mono (hPQ : ∀ id, P id → Q id) (h : d.Within P) : d.Within Q :=
  fun id hid => hPQ id (h id hid)

theorem EntriesWithin.mono (hPQ : ∀ id, P id → Q id) (h : EntriesWithin P es) : EntriesWithin Q es :=
  fun e he => ⟨(h e he).1.mono hPQ, (h e he).2.mono hPQ⟩

theorem circuitIdsAll_eq (ds : List Datum) : circuitIdsAll ds = ds.flatMap circuitIds := by
  induction ds with
  | nil => rfl
  | cons d ds ih => rw [circuitIdsAll, ih, List.flatMap_cons]

theorem circuitIdsEntries_eq (es : List (Datum × Datum)) :
    circuitIdsEntries es = es.flatMap fun e => e.1.circuitIds ++ e.2.circuitIds := by
  induction es with
  | nil => rfl
  | cons e es ih => rw [circuitIdsEntries, ih, List.flatMap_cons]

theorem circuitIdsNamed_eq (es : List (String × Datum)) :
    circuitIdsNamed es = es.flatMap fun e => e.2.circuitIds := by
  induction es with
  | nil => rfl
  | cons e es ih => rw [circuitIdsNamed, ih, List.flatMap_cons]

theorem forall_mem_circuitIdsAll : (∀ id ∈ circuitIdsAll ds, P id) ↔ ∀ d ∈ ds, d.Within P := by
  rw [circuitIdsAll_eq, List.forall_mem_flatMap]
  rfl

theorem forall_mem_circuitIdsEntries :
    (∀ id ∈ circuitIdsEntries es, P id) ↔ EntriesWithin P es := by
  rw [circuitIdsEntries_eq, List.forall_mem_flatMap]
  exact forall₂_congr fun _ _ => List.forall_mem_append

@[simp]
theorem within_list : (list ds).Within P ↔ ∀ d ∈ ds, d.Within P := forall_mem_circuitIdsAll

@[simp]
theorem within_tuple : (tuple ds).Within P ↔ ∀ d ∈ ds, d.Within P := forall_mem_circuitIdsAll

@[simp]
theorem within_set {frozen : Bool} : (set frozen ds).Within P ↔ ∀ d ∈ ds, d.Within P :=
  forall_mem_circuitIdsAll

@[simp]
theorem within_dict : (dict es).Within P ↔ EntriesWithin P es := forall_mem_circuitIdsEntries

@[simp]
theorem within_calculator {id : ℕ} : (calculator id es).Within P ↔ EntriesWithin P es :=
  forall_mem_circuitIdsEntries

@[simp]
theorem within_circuit {c : CircuitObject} : (circuit c).Within P ↔ P c.id := List.forall_mem_singleton

@[simp]
theorem within_register {k : Option CircuitObject} {cs : List CircuitObject} :
    (register k cs).Within P ↔ ∀ c ∈ k.toList ++ cs, P c.id := List.forall_mem_map

@[simp]
theorem within_resolver {es : List (String × Datum)} :
    (resolver es).Within P ↔ ∀ e ∈ es, e.2.Within P := by
  rw [Within, circuitIds, circuitIdsNamed_eq, List.forall_mem_flatMap]
  rfl

theorem within_of_eq_nil (h : d.circuitIds = []) : d.Within P := by
  rw [Within, h]
  exact List.forall_mem_nil _

/-! ## Parts of values -/

theorem Within.elements (h : d.Within P) (hd : d.elements = .ok ds) : ∀ e ∈ ds, e.Within P := by
  cases d with
  | list | tuple | set =>
      obtain rfl := Except.ok.inj hd
      simpa using h
  | dict es =>
      obtain rfl := Except.ok.inj hd
      exact List.forall_mem_map.2 fun e he => (within_dict.1 h e he).1
  | text | circuit =>
      obtain rfl := Except.ok.inj hd
      exact List.forall_mem_map.2 fun _ _ => within_of_eq_nil rfl
  | _ => exact nomatch hd

theorem EntriesWithin.lookUp (h : EntriesWithin P es) (hd : lookUp es key = some d) : d.Within P := by
  obtain ⟨e, he, rfl⟩ := Option.map_eq_some_iff.1 hd
  exact (h e (List.mem_of_find?_eq_some he)).2

theorem EntriesWithin.setEntry (h : EntriesWithin P es) (hkey : key.Within P) (hd : d.Within P) :
    EntriesWithin P (setEntry key d es) := by
  induction es with
  | nil => exact List.forall_mem_singleton.2 ⟨hkey, hd⟩
  | cons e es ih =>
      obtain ⟨he, hes⟩ := List.forall_mem_cons.1 h
      rw [Datum.setEntry]
      split
      · exact List.forall_mem_cons.2 ⟨⟨he.1, hd⟩, hes⟩
      · exact List.forall_mem_cons.2 ⟨he, ih hes⟩

theorem EntriesWithin.ofEntries (h : EntriesWithin P es) : EntriesWithin P (ofEntries es) := by
  have hfold : ∀ acc, EntriesWithin P acc →
      EntriesWithin P (es.foldl (fun acc e => Datum.setEntry e.1 e.2 acc) acc) := by
    induction es with
    | nil => exact fun acc hacc => hacc
    | cons e es ih =>
        obtain ⟨he, hes⟩ := List.forall_mem_cons.1 h
        exact fun acc hacc => ih hes _ (hacc.setEntry he.1 he.2)
  exact hfold [] (List.forall_mem_nil _)

theorem Within.toEntry {e : Datum × Datum} (h : d.Within P) (he : d.toEntry = .ok e) :
    e.1.Within P ∧ e.2.Within P := by
  rw [Datum.toEntry, bind_eq_ok] at he
  obtain ⟨ds, hds, he⟩ := he
  have hwithin := h.elements hds
  split at he
  · obtain ⟨-, -, he⟩ := bind_eq_ok.1 he
    obtain rfl := Except.ok.inj he
    simpa using hwithin
  · exact nomatch he

theorem Within.toDict (h : d.Within P) (hes : d.toDict = .ok es) : EntriesWithin P es := by
  unfold Datum.toDict at hes
  split at hes
  · obtain rfl := Except.ok.inj hes
    exact within_dict.1 h
  · obtain ⟨ds, hds, hes⟩ := bind_eq_ok.1 hes
    obtain ⟨entries, hentries, hes⟩ := bind_eq_ok.1 hes
    obtain rfl := Except.ok.inj hes
    refine EntriesWithin.ofEntries (forall_of_mapM_eq_ok (fun e he p hp => ?_) hentries)
    exact (h.elements hds e he).toEntry hp

theorem elementAt_mem {α : Type} {xs : List α} {i : Int} {x : α} (h : elementAt xs i = .ok x) : x ∈ xs := by
  simp only [elementAt] at h
  generalize (if i < 0 then i + xs.length else i) = j at h
  by_cases hj : j < 0
  · rw [if_pos hj] at h
    exact nomatch h
  · rw [if_neg hj] at h
    split at h
    · obtain rfl := Except.ok.inj h
      exact List.mem_of_getElem? ‹_›
    · exact nomatch h

theorem Within.item (h : container.Within P) (hd : container.item key = .ok d) : d.Within P := by
  cases container with
  | dict es =>
      obtain ⟨-, -, hd⟩ := bind_eq_ok.1 hd
      cases hlookUp : lookUp es key with
      | none => rw [hlookUp] at hd; exact nomatch hd
      | some v =>
          rw [hlookUp] at hd
          obtain rfl := Except.ok.inj hd
          exact (within_dict.1 h).lookUp hlookUp
  | list | tuple =>
      obtain ⟨i, -, hd⟩ := bind_eq_ok.1 hd
      simp only [within_list, within_tuple] at h
      exact h d (elementAt_mem hd)
  | text | circuit =>
      obtain ⟨i, -, hd⟩ := bind_eq_ok.1 hd
      obtain ⟨x, -, hd⟩ := bind_eq_ok.1 hd
      obtain rfl := Except.ok.inj hd
      exact within_of_eq_nil rfl
  | _ => exact nomatch hd

theorem Within.remapItem (h : container.Within P) (hd : container.remapItem key = .ok d) :
    d.Within P := by
  unfold Datum.remapItem at hd
  split at hd
  · exact nomatch hd
  · exact h.item hd

theorem Within.remapItems {images : List Datum} (h : container.Within P)
    (himages : container.remapItems ds = .ok images) : ∀ e ∈ images, e.Within P :=
  forall_of_mapM_eq_ok (fun _ _ _ he => h.remapItem he) himages

/-! ## Values without circuits -/

theorem within_ofNats (ns : List ℕ) : ∀ d ∈ ofNats ns, d.Within P :=
  List.forall_mem_map.2 fun _ _ => within_of_eq_nil rfl

theorem within_texts (ss : List String) : ∀ d ∈ ss.map text, d.Within P :=
  List.forall_mem_map.2 fun _ _ => within_of_eq_nil rfl

theorem within_operations (ops : List (Operation Float)) : ∀ d ∈ ops.map operation, d.Within P :=
  List.forall_mem_map.2 fun _ _ => within_of_eq_nil rfl

theorem within_ofParameter (p : Parameter Float) : (ofParameter p).Within P := by
  cases p <;> exact within_of_eq_nil rfl

theorem within_ofInvolved (involved : Involved) : (ofInvolved involved).Within P := by
  cases involved with
  | finite qs => exact within_set.2 (within_ofNats qs)
  | _ => exact within_of_eq_nil rfl

theorem within_parameterRecord (p : Parameter Float) : p.record.Within P := by
  cases p <;> exact within_of_eq_nil rfl

theorem within_fieldRecord (field : FieldOf ℕ (Parameter Float)) : field.record.Within P := by
  cases field with
  | qubits qs => exact within_list.2 (within_ofNats qs)
  | parameter p => exact within_parameterRecord p
  | parameters ps => exact within_list.2 (List.forall_mem_map.2 fun p _ => within_parameterRecord p)
  | table t =>
      cases t with
      | none => exact within_of_eq_nil rfl
      | some t =>
          exact within_dict.2 (List.forall_mem_map.2 fun _ _ =>
            ⟨within_of_eq_nil rfl, within_of_eq_nil rfl⟩)
  | _ => exact within_of_eq_nil rfl

theorem within_fieldValue (field : FieldOf ℕ (Parameter Float)) : field.value.Within P := by
  cases field with
  | qubits qs => exact within_tuple.2 (within_ofNats qs)
  | parameter p => exact within_ofParameter p
  | parameters ps => exact within_tuple.2 (List.forall_mem_map.2 fun p _ => within_ofParameter p)
  | table t => exact within_fieldRecord (.table t)
  | _ => exact within_of_eq_nil rfl

theorem within_operationRecord (op : Operation Float) : op.record.Within P := by
  refine within_dict.2 (List.forall_mem_cons.2 ⟨⟨within_of_eq_nil rfl, within_of_eq_nil rfl⟩, ?_⟩)
  exact List.forall_mem_map.2 fun e _ => ⟨within_of_eq_nil rfl, within_fieldRecord e.2⟩

theorem within_circuitRecord (c : Circuit Float) : c.record.Within P := by
  refine within_dict.2 (List.forall_mem_singleton.2 ⟨within_of_eq_nil rfl, within_list.2 ?_⟩)
  exact List.forall_mem_map.2 fun op _ => within_operationRecord op

theorem within_registerRecord (reg : Register Float) : reg.record.Within P := by
  rw [Register.record, within_dict, EntriesWithin, List.forall_mem_cons, List.forall_mem_singleton]
  refine ⟨⟨within_of_eq_nil rfl, ?_⟩, within_of_eq_nil rfl, ?_⟩
  · cases reg.constant with
    | none => exact within_of_eq_nil rfl
    | some c => exact within_circuitRecord c
  · exact within_list.2 (List.forall_mem_map.2 fun c _ => within_circuitRecord c)

theorem Within.attribute {name : String} (h : d.Within P) {e : Datum} (he : d.attribute name = .ok e) :
    e.Within P := by
  cases d with
  | operation op =>
      simp only [Datum.attribute] at he
      split at he
      · obtain rfl := Except.ok.inj he
        exact within_of_eq_nil rfl
      · obtain rfl := Except.ok.inj he
        exact within_tuple.2 (within_texts op.variant.tags)
      · split at he
        · obtain rfl := Except.ok.inj he
          exact within_fieldValue _
        · exact nomatch he
  | circuit c =>
      simp only [Datum.attribute] at he
      split at he
      · obtain rfl := Except.ok.inj he
        exact within_list.2 (within_operations c.contents.operations)
      · exact nomatch he
  | register k cs =>
      rw [within_register, List.forall_mem_append] at h
      simp only [Datum.attribute] at he
      split at he
      · obtain rfl := Except.ok.inj he
        cases k with
        | none => exact within_of_eq_nil rfl
        | some c => exact within_circuit.2 (h.1 c (List.mem_singleton_self c))
      · obtain rfl := Except.ok.inj he
        exact within_tuple.2 (List.forall_mem_map.2 fun c hc => within_circuit.2 (h.2 c hc))
      · exact nomatch he
  | calculator id es =>
      simp only [Datum.attribute] at he
      split at he
      · obtain rfl := Except.ok.inj he
        exact h
      · exact nomatch he
  | _ => exact nomatch he

end Datum

theorem mem_of_bindFields {names : List String} {optional : String → Bool} {args : List Datum}
    {named : List (String × Datum)} {values : List (Option Datum)} {d : Datum}
    (h : bindFields names optional args named = .ok values) (hd : some d ∈ values) :
    d ∈ args ∨ ∃ e ∈ named, e.2 = d := by
  simp only [bindFields] at h
  iterate 3
    split at h
    · exact nomatch h
  obtain rfl := Except.ok.inj h
  rw [List.map_map, List.mem_map] at hd
  obtain ⟨⟨name, i⟩, -, hd⟩ := hd
  cases hi : args[i]? with
  | some d' =>
      simp only [Function.comp, hi] at hd
      obtain rfl := Option.some.inj hd
      exact Or.inl (List.mem_of_getElem? hi)
  | none =>
      simp only [Function.comp, hi] at hd
      obtain ⟨before, after, rfl, -⟩ := List.lookup_eq_some_iff.1 hd
      exact Or.inr ⟨(name, d), List.mem_append_right before List.mem_cons_self, rfl⟩

end CircuitIR
