import CircuitIR.Proofs.ElementaryGates
import CircuitIR.Proofs.GateMatrix
import CircuitIR.Proofs.Wave

/-!
# Evolution of waves

A concrete gate acts on waves by its matrix, and a sequence of gates by one action after the other. In
a frame that contains their qubits the gates have a matrix, and it acts as the sequence does
(`exists_unitaryIn`). A transformation of waves that is realized by two sequences therefore gives them
the same matrix in every frame.
-/

namespace CircuitIR

variable {frame : List ℕ}

namespace OperationOf

variable {op : Operation ℝ} {m : ComplexMatrix ℝ} {qs : List ℕ}

theorem unitary_interaction (g : Interaction) (hne : qs ≠ []) (θ : ℝ) :
    (interaction g qs (.number θ) : Operation ℝ).unitary = .ok (g.unitary qs.length θ) := by
  cases qs with
  | nil => exact absurd rfl hne
  | cons q qs => rfl

theorem unitary_multiControlledNot (hne : qs ≠ []) :
    (multiControlledNot qs : Operation ℝ).unitary = .ok (multiControlledNotUnitary qs.length) := by
  cases qs with
  | nil => exact absurd rfl hne
  | cons q qs => rfl

theorem unitary_fourier (hne : qs ≠ []) (s i : Bool) :
    (fourier qs s i : Operation ℝ).unitary = .ok (fourierUnitary qs.length s i) := by
  cases qs with
  | nil => exact absurd rfl hne
  | cons q qs => rfl

/-- The action of an operation on waves; operations without a matrix leave them as they are. -/
noncomputable def action (op : Operation ℝ) (ψ : Wave) : Wave :=
  match op.unitary with
  | .ok m => m.act op.qubits ψ
  | .error _ => ψ

theorem action_eq_act (h : op.unitary = .ok m) : op.action = m.act op.qubits := by
  funext ψ
  rw [action, h]

theorem action_add (op : Operation ℝ) (ψ φ : Wave) :
    op.action (fun x => ψ x + φ x) = fun x => op.action ψ x + op.action φ x := by
  cases h : op.unitary with
  | error e => simp only [action, h]
  | ok m =>
      rw [action_eq_act h]
      exact ComplexMatrix.act_add m op.qubits ψ φ

theorem action_comm {op op' : Operation ℝ} (hdisjoint : ∀ q ∈ op.qubits, q ∉ op'.qubits)
    (ψ : Wave) : op.action (op'.action ψ) = op'.action (op.action ψ) := by
  cases h : op.unitary with
  | error e => simp only [action, h]
  | ok m =>
      cases h' : op'.unitary with
      | error e => simp only [action, h']
      | ok m' =>
          rw [action_eq_act h, action_eq_act h']
          exact ComplexMatrix.act_comm hdisjoint m m' ψ

end OperationOf

/-- Sends a wave through a sequence of operations. -/
noncomputable def evolve (ops : List (Operation ℝ)) (ψ : Wave) : Wave :=
  ops.foldl (fun ψ op => op.action ψ) ψ

@[simp]
theorem evolve_nil (ψ : Wave) : evolve [] ψ = ψ := rfl

@[simp]
theorem evolve_cons (op : Operation ℝ) (ops : List (Operation ℝ)) (ψ : Wave) :
    evolve (op :: ops) ψ = evolve ops (op.action ψ) := rfl

@[simp]
theorem evolve_append (ops ops' : List (Operation ℝ)) (ψ : Wave) :
    evolve (ops ++ ops') ψ = evolve ops' (evolve ops ψ) :=
  List.foldl_append

theorem evolve_add (ops : List (Operation ℝ)) (ψ φ : Wave) :
    evolve ops (fun x => ψ x + φ x) = fun x => evolve ops ψ x + evolve ops φ x := by
  induction ops generalizing ψ φ with
  | nil => rfl
  | cons op ops ih => rw [evolve_cons, OperationOf.action_add, ih, evolve_cons, evolve_cons]

/-- An operation on other qubits can be moved past a sequence. -/
theorem evolve_action_comm {ops : List (Operation ℝ)} {op : Operation ℝ}
    (hdisjoint : ∀ q, Touches ops q → q ∉ op.qubits) (ψ : Wave) :
    evolve ops (op.action ψ) = op.action (evolve ops ψ) := by
  induction ops generalizing ψ with
  | nil => rfl
  | cons op' ops ih =>
      have hfirst : ∀ q ∈ op'.qubits, q ∉ op.qubits := fun q hq =>
        hdisjoint q (touches_cons.2 (Or.inl hq))
      have hrest : ∀ q, Touches ops q → q ∉ op.qubits := fun q hq =>
        hdisjoint q (touches_cons.2 (Or.inr hq))
      rw [evolve_cons, OperationOf.action_comm hfirst, ih hrest, evolve_cons]

/-- The gates are concrete, and together they send waves through a transformation. -/
structure Realizes (ops : List (Operation ℝ)) (T : Wave → Wave) : Prop where
  isConcrete : ∀ op ∈ ops, op.IsConcreteGate
  evolve_eq : ∀ ψ, evolve ops ψ = T ψ

namespace Realizes

variable {ops ops' : List (Operation ℝ)} {T U : Wave → Wave}

theorem nil : Realizes [] id := ⟨fun _ h => absurd h List.not_mem_nil, fun _ => rfl⟩

theorem single {op : Operation ℝ} (h : op.IsConcreteGate) : Realizes [op] op.action :=
  ⟨by simpa using h, fun _ => rfl⟩

theorem append (h : Realizes ops T) (h' : Realizes ops' U) : Realizes (ops ++ ops') (U ∘ T) where
  isConcrete op hop := (List.mem_append.1 hop).elim (h.isConcrete op) (h'.isConcrete op)
  evolve_eq ψ := by rw [evolve_append, h.evolve_eq, h'.evolve_eq, Function.comp_apply]

theorem congr (h : Realizes ops T) (heq : ∀ ψ, T ψ = U ψ) : Realizes ops U :=
  ⟨h.isConcrete, fun ψ => (h.evolve_eq ψ).trans (heq ψ)⟩

end Realizes

/-- **The matrix of concrete gates.** In a frame that contains their qubits the gates have a matrix,
which acts as they do one after the other. -/
theorem exists_unitaryIn {ops : List (Operation ℝ)} (hframe : frame.Nodup)
    (hops : ∀ op ∈ ops, op.IsConcreteGate) (hsub : ∀ q, Touches ops q → q ∈ frame) :
    ∃ m, (⟨ops⟩ : Circuit ℝ).unitaryIn (.ofList frame) = .ok m
      ∧ m.HasSize (2 ^ frame.length) ∧ ∀ ψ, m.act frame ψ = evolve ops ψ := by
  -- the product of the gates so far is the initial value of the fold
  have hfold : ∀ total : ComplexMatrix ℝ, total.HasSize (2 ^ frame.length) →
      ∃ m, ops.foldlM (fun total op => do return (← op.unitaryIn (.ofList frame)) * total) total
          = Except.ok m
        ∧ m.HasSize (2 ^ frame.length) ∧ ∀ ψ, m.act frame ψ = evolve ops (total.act frame ψ) := by
    induction ops with
    | nil => exact fun total htotal => ⟨total, rfl, htotal, fun _ => rfl⟩
    | cons op ops ih =>
        intro total htotal
        have hop := hops op List.mem_cons_self
        have hopSub : ∀ q ∈ op.qubits, q ∈ frame := fun q hq => hsub q (touches_cons.2 (Or.inl hq))
        obtain ⟨gate, hunitary, -⟩ := hop.exists_unitary
        have hlift : (gate.lift (op.qubits.map frame.idxOf) frame.length).HasSize
            (2 ^ frame.length) := ⟨rfl, rfl⟩
        obtain ⟨m, hm, hmSize, hmAct⟩ := ih (fun op' h => hops op' (List.mem_cons_of_mem _ h))
          (fun q h => hsub q (touches_cons.2 (Or.inr h))) _ (hlift.mul htotal)
        refine ⟨m, ?_, hmSize, fun ψ => ?_⟩
        · rw [List.foldlM_cons, hop.unitaryIn_eq hunitary hframe hopSub]
          exact hm
        · rw [hmAct, ComplexMatrix.act_mul hframe hlift htotal,
            ComplexMatrix.act_lift hframe hop.distinct hopSub, evolve_cons,
            OperationOf.action_eq_act hunitary]
  obtain ⟨m, hm, hsize, hact⟩ := hfold _ (ComplexMatrix.HasSize.square _ ComplexMatrix.delta)
  refine ⟨m, hm, hsize, fun ψ => ?_⟩
  rw [hact]
  exact congrArg (evolve ops) (ComplexMatrix.act_identity frame ψ)

namespace Realizes

variable {ops ops' : List (Operation ℝ)} {T : Wave → Wave}

/-- Gates that act like a matrix of the size of the frame have this matrix. -/
theorem unitaryIn_eq_ok (h : Realizes ops T) (hframe : frame.Nodup)
    (hsub : ∀ q, Touches ops q → q ∈ frame) {m : ComplexMatrix ℝ}
    (hsize : m.HasSize (2 ^ frame.length)) (hact : ∀ ψ, m.act frame ψ = T ψ) :
    (⟨ops⟩ : Circuit ℝ).unitaryIn (.ofList frame) = .ok m := by
  obtain ⟨m', hm', hsize', hact'⟩ := exists_unitaryIn hframe h.isConcrete hsub
  have heq : m' = m := ComplexMatrix.eq_of_act_eq hframe hsize' hsize fun ψ => by
    rw [hact', h.evolve_eq, hact]
  rw [hm', heq]

/-- Gates that realize the same transformation have the same matrix in every frame. -/
theorem exists_unitaryIn_eq (h : Realizes ops T) (h' : Realizes ops' T) (hframe : frame.Nodup)
    (hsub : ∀ q, Touches ops q → q ∈ frame) (hsub' : ∀ q, Touches ops' q → q ∈ frame) :
    ∃ m, (⟨ops⟩ : Circuit ℝ).unitaryIn (.ofList frame) = .ok m
      ∧ (⟨ops'⟩ : Circuit ℝ).unitaryIn (.ofList frame) = .ok m := by
  obtain ⟨m, hm, hsize, hact⟩ := exists_unitaryIn hframe h.isConcrete hsub
  refine ⟨m, hm, h'.unitaryIn_eq_ok hframe hsub' hsize fun ψ => ?_⟩
  rw [hact, h.evolve_eq]

end Realizes

namespace OperationOf

variable {op : Operation ℝ} {gates : List (Operation ℝ)}

/-- Elementary gates that realize the action of their gate have its matrix in the frame of its own
qubits. -/
theorem IsConcreteGate.unitary_elementary (h : op.IsConcreteGate)
    (helementary : op.elementary? = some gates) (hrealizes : Realizes gates op.action) :
    (⟨gates⟩ : Circuit ℝ).unitary (some (.ofList op.qubits)) = op.unitary := by
  obtain ⟨m, hunitary, hrows, hcols⟩ := h.exists_unitary
  rw [hunitary]
  refine hrealizes.unitaryIn_eq_ok h.distinct (fun q hq => ?_) ⟨hrows, hcols⟩ fun ψ => ?_
  · exact (touches_elementary helementary).1 hq
  · rw [action_eq_act hunitary]

end OperationOf

end CircuitIR
