import CircuitIR.Proofs.RecordRoundTrip
import CircuitIR.Session.Run

/-!
# New objects

Some steps of a session make new circuits from old ones. The store grows by these, and what was in it stays, so
the values of all names but the one that is bound are seen as before.
-/

namespace CircuitIR

namespace Store

/-- The store with some new circuits. -/
def pushCircuits (s : Store) (cs : List (Circuit Float)) : Store := cs.foldl pushCircuit s

/-- The objects for some new circuits. -/
def newObjects (s : Store) (cs : List (Circuit Float)) : List CircuitObject :=
  (cs.zipIdx s.circuits.size).map fun e => ⟨e.2, e.1⟩

theorem pushCircuits_cons (s : Store) (c : Circuit Float) (cs : List (Circuit Float)) :
    s.pushCircuits (c :: cs) = (s.pushCircuit c).pushCircuits cs := rfl

theorem size_pushCircuit (s : Store) (c : Circuit Float) :
    (s.pushCircuit c).circuits.size = s.circuits.size + 1 := Array.size_push _

theorem newObjects_cons (s : Store) (c : Circuit Float) (cs : List (Circuit Float)) :
    s.newObjects (c :: cs) = ⟨s.circuits.size, c⟩ :: (s.pushCircuit c).newObjects cs := by
  rw [newObjects, newObjects, size_pushCircuit]
  rfl

theorem map_contents_newObjects (s : Store) (cs : List (Circuit Float)) :
    (s.newObjects cs).map (·.contents) = cs := by
  rw [newObjects, List.map_map]
  exact List.zipIdx_map_fst s.circuits.size cs

variable {s : Store} {id l : ℕ}

theorem lt_of_list? (h : s.list? id = some l) : l < s.lists.size :=
  s.lt_size l (Array.mem_of_getElem? h)

theorem lt_size_of_list? (h : s.list? id = some l) : id < s.circuits.size :=
  (Array.getElem?_eq_some_iff.1 h).1

theorem exists_list? (h : id < s.circuits.size) : ∃ l, s.list? id = some l :=
  ⟨s.circuits[id], Array.getElem?_eq_getElem h⟩

theorem circuit_eq (h : s.list? id = some l) : s.circuit id = ⟨s.operations l⟩ := by
  rw [circuit, h]
  rfl

theorem list?_pushCircuit (h : id < s.circuits.size) (c : Circuit Float) :
    (s.pushCircuit c).list? id = s.list? id := by
  rw [list?, pushCircuit, Array.getElem?_push_lt h]
  exact (Array.getElem?_eq_getElem h).symm

theorem list?_pushCircuit_size (s : Store) (c : Circuit Float) :
    (s.pushCircuit c).list? s.circuits.size = some s.lists.size := Array.getElem?_push_size

theorem operations_pushCircuit (h : l < s.lists.size) (c : Circuit Float) :
    (s.pushCircuit c).operations l = s.operations l := by
  rw [operations, operations, pushCircuit, Array.getElem?_push_lt h, Array.getElem?_eq_getElem h]

theorem circuit_pushCircuit (h : id < s.circuits.size) (c : Circuit Float) :
    (s.pushCircuit c).circuit id = s.circuit id := by
  obtain ⟨l, hl⟩ := exists_list? h
  rw [circuit_eq hl, circuit_eq ((list?_pushCircuit h c).trans hl),
    operations_pushCircuit (lt_of_list? hl)]

theorem circuit_pushCircuit_size (s : Store) (c : Circuit Float) :
    (s.pushCircuit c).circuit s.circuits.size = c := by
  rw [circuit_eq (list?_pushCircuit_size s c), operations, pushCircuit, Array.getElem?_push_size]
  rfl

end Store

/-- All circuits of the first store are in the second one, with the same contents. -/
structure Store.Extends (s s' : Store) : Prop where
  size_le : s.circuits.size ≤ s'.circuits.size
  circuit : ∀ id < s.circuits.size, s'.circuit id = s.circuit id

namespace Store.Extends

theorem refl (s : Store) : s.Extends s := ⟨Nat.le_refl _, fun _ _ => rfl⟩

theorem trans {s s' s'' : Store} (h : s.Extends s') (h' : s'.Extends s'') : s.Extends s'' := by
  refine ⟨Nat.le_trans h.size_le h'.size_le, fun id hid => ?_⟩
  calc s''.circuit id = s'.circuit id := h'.circuit id (Nat.lt_of_lt_of_le hid h.size_le)
    _ = s.circuit id := h.circuit id hid

theorem pushCircuit (s : Store) (c : Circuit Float) : s.Extends (s.pushCircuit c) where
  size_le := by
    rw [Store.size_pushCircuit]
    exact Nat.le_succ _
  circuit _ hid := Store.circuit_pushCircuit hid c

theorem pushCircuits (s : Store) (cs : List (Circuit Float)) : s.Extends (s.pushCircuits cs) := by
  induction cs generalizing s with
  | nil => exact .refl s
  | cons c cs ih =>
      rw [pushCircuits_cons]
      exact (pushCircuit s c).trans (ih _)

end Store.Extends

namespace Store

variable {s : Store} {cs : List (Circuit Float)} {o : CircuitObject}

theorem size_pushCircuits (s : Store) (cs : List (Circuit Float)) :
    (s.pushCircuits cs).circuits.size = s.circuits.size + cs.length := by
  induction cs generalizing s with
  | nil => rfl
  | cons c cs ih =>
      rw [pushCircuits_cons, ih, size_pushCircuit, List.length_cons]
      omega

theorem map_id_newObjects (s : Store) (cs : List (Circuit Float)) :
    (s.newObjects cs).map (·.id) = List.range' s.circuits.size cs.length := by
  rw [newObjects, List.map_map]
  exact List.zipIdx_map_snd s.circuits.size cs

theorem circuit_newObjects (ho : o ∈ s.newObjects cs) : (s.pushCircuits cs).circuit o.id = o.contents := by
  induction cs generalizing s with
  | nil => exact absurd ho List.not_mem_nil
  | cons c cs ih =>
      rw [newObjects_cons, List.mem_cons] at ho
      rw [pushCircuits_cons]
      obtain rfl | ho := ho
      · have hlt : s.circuits.size < (s.pushCircuit c).circuits.size := by
          rw [size_pushCircuit]
          exact Nat.lt_succ_self _
        rw [(Extends.pushCircuits (s.pushCircuit c) cs).circuit _ hlt, circuit_pushCircuit_size]
      · exact ih ho

end Store

namespace Store.Extends

/-- A register of existing circuits is seen as before. -/
theorem refresh_register {s s' : Store} {d : Datum} {k : Option CircuitObject}
    {cs : List CircuitObject} (h : s.Extends s') (hd : s.refresh d = .register k cs)
    (hexisting : ∀ c ∈ k.toList ++ cs, c.id < s.circuits.size) :
    s'.refresh d = .register k cs := by
  cases d with
  | register k₀ cs₀ =>
      rw [Store.refresh, Datum.register.injEq] at hd
      obtain ⟨rfl, rfl⟩ := hd
      have hsame : ∀ c : CircuitObject, c.id < s.circuits.size →
          s'.refreshCircuit c = s.refreshCircuit c :=
        fun c hc => congrArg (CircuitObject.mk c.id) (h.circuit c.id hc)
      rw [List.forall_mem_append, List.forall_mem_map] at hexisting
      rw [Store.refresh, List.map_congr_left fun c hc => hsame c (hexisting.2 c hc)]
      cases k₀ with
      | none => rfl
      | some c =>
          have hc : c.id < s.circuits.size :=
            hexisting.1 (s.refreshCircuit c) (List.mem_singleton_self _)
          rw [Option.map_some, Option.map_some, hsame c hc]
  | _ => simp [Store.refresh] at hd

end Store.Extends

namespace Action

variable {s : Store}

theorem run_newCircuit (c : Circuit Float) (s : Store) :
    (newCircuit c).run s = pure (⟨s.circuits.size, c⟩, s.pushCircuit c) := rfl

theorem run_mapM_newCircuit (cs : List (Circuit Float)) (s : Store) :
    (cs.mapM newCircuit).run s = pure (s.newObjects cs, s.pushCircuits cs) := by
  induction cs generalizing s with
  | nil => rfl
  | cons c cs ih =>
      rw [List.mapM_cons, StateT.run_bind, run_newCircuit, pure_bind, StateT.run_bind, ih, pure_bind,
        Store.newObjects_cons, Store.pushCircuits_cons]
      rfl

theorem run_registerDatum_eq (reg : Register Float) (s : Store) :
    ∃ k cs, (registerDatum reg).run s = pure (.register k cs, s.pushCircuits reg.allCircuits)
      ∧ k.toList ++ cs = s.newObjects reg.allCircuits ∧ Register.ofObjects k cs = reg := by
  obtain ⟨constant, circuits⟩ := reg
  cases constant with
  | none =>
      refine ⟨none, s.newObjects circuits, ?_, rfl, ?_⟩
      · rw [registerDatum, Option.mapM_none, pure_bind, StateT.run_bind, run_mapM_newCircuit, pure_bind]
        rfl
      · rw [Register.ofObjects, Store.map_contents_newObjects]
        rfl
  | some c =>
      refine ⟨some ⟨s.circuits.size, c⟩, (s.pushCircuit c).newObjects circuits, ?_, ?_, ?_⟩
      · rw [registerDatum, Option.mapM_some, map_eq_pure_bind, bind_assoc, StateT.run_bind,
          run_newCircuit, pure_bind, pure_bind, StateT.run_bind, run_mapM_newCircuit, pure_bind,
          ← Store.pushCircuits_cons]
        rfl
      · exact (Store.newObjects_cons s c circuits).symm
      · rw [Register.ofObjects, Store.map_contents_newObjects]
        rfl

theorem run_registerDatum (reg : Register Float) (s : Store) :
    ∃ k cs s', (registerDatum reg).run s = pure (.register k cs, s')
      ∧ Register.ofObjects k cs = reg ∧ s.Extends s' := by
  obtain ⟨k, cs, hrun, -, hcontents⟩ := run_registerDatum_eq reg s
  exact ⟨k, cs, _, hrun, hcontents, Store.Extends.pushCircuits s reg.allCircuits⟩

end Action

namespace Session

variable {s : Session} {action : StepAction} {act : Action Datum}

theorem step_of_ok {d : Datum} {store : Store} (bind : Option String)
    (haction : s.action action = some act) (h : (act.run s.store).result = .ok (d, store)) :
    ∃ events, s.step ⟨action, bind⟩
      = (({ s with store := store }).bindName bind d, events, .value d) := by
  unfold step
  rw [haction]
  dsimp only
  rw [h]
  exact ⟨_, rfl⟩

theorem step_of_error {f : Fault} (bind : Option String) (haction : s.action action = some act)
    (h : (act.run s.store).result = .error f) :
    ∃ events, s.step ⟨action, bind⟩ = (s, events, .fault f) := by
  unfold step
  rw [haction]
  dsimp only
  rw [h]
  exact ⟨_, rfl⟩

theorem store_bindName (s : Session) (name : Option String) (d : Datum) :
    (s.bindName name d).store = s.store := by
  cases name <;> rfl

theorem lookup_bindName {name : Option String} {n : String} (h : name ≠ some n) (s : Session)
    (d : Datum) : (s.bindName name d).names.lookup n = s.names.lookup n := by
  cases name with
  | none => rfl
  | some m =>
      have hne : n ≠ m := fun heq => h (congrArg some heq.symm)
      rw [bindName, List.lookup_cons, beq_eq_false_iff_ne.2 hne]

/-- The register of a name stays, as long as the name and the circuits of the register do. -/
theorem lookUp_register {s' : Session} {name : String} {k : Option CircuitObject}
    {cs : List CircuitObject} (hextends : s.store.Extends s'.store)
    (hnames : s'.names.lookup name = s.names.lookup name)
    (hlookUp : s.lookUp name = some (.register k cs))
    (hexisting : ∀ c ∈ k.toList ++ cs, c.id < s.store.circuits.size) :
    s'.lookUp name = some (.register k cs) := by
  rw [lookUp, Option.map_eq_some_iff] at hlookUp ⊢
  obtain ⟨d, hd, hrefresh⟩ := hlookUp
  exact ⟨d, hnames.trans hd, hextends.refresh_register hrefresh hexisting⟩

end Session

end CircuitIR
