import CircuitIR.Circuit.Passes
import CircuitIR.Proofs.DepthRenaming
import CircuitIR.Proofs.GateMatrix
import CircuitIR.Proofs.IndexRenaming

/-!
# Renaming of circuits

A map that keeps the qubits of a circuit apart renames every gate of the circuit. The closed form of a gate
does not know the names of its qubits, and a renamed qubit is listed in the renamed frame where the qubit
was in the old one. So the circuit and its renaming have the same matrix, entry for entry and whatever the
scalars are, and their depths agree.
-/

namespace CircuitIR

theorem idxOf_map_of_injOn {f : ℕ → ℕ} {qs : List ℕ} {q : ℕ}
    (hinjective : ∀ p ∈ qs, ∀ r ∈ qs, f p = f r → p = r) (hq : q ∈ qs) :
    (qs.map f).idxOf (f q) = qs.idxOf q := by
  induction qs with
  | nil => exact absurd hq List.not_mem_nil
  | cons r qs ih =>
      have hrest : ∀ p ∈ qs, ∀ r ∈ qs, f p = f r → p = r := fun p hp r hr =>
        hinjective p (List.mem_cons_of_mem _ hp) r (List.mem_cons_of_mem _ hr)
      rw [List.map_cons]
      by_cases hrq : r = q
      · rw [hrq, List.idxOf_cons_self, List.idxOf_cons_self]
      · have hne : f r ≠ f q := fun h => hrq (hinjective r List.mem_cons_self q hq h)
        have hmem : q ∈ qs := (List.mem_cons.1 hq).resolve_left fun h => hrq h.symm
        rw [List.idxOf_cons_ne _ hne, List.idxOf_cons_ne _ hrq, ih hrest hmem]

namespace OperationOf

variable {R : Type} {op : Operation R} {f : ℕ → ℕ}

theorem isParametrized_mapIndices {I J : Type} (f g : I → J) (op : OperationOf I (Parameter R)) :
    (op.mapIndices f g).isParametrized = op.isParametrized := by
  rw [isParametrized, parameters_mapIndices, isParametrized]

theorem involved_mapIndices (f : ℕ → ℕ) (op : Operation R) :
    (op.mapIndices f id).involved = op.involved.map f := by
  have hset : ∀ qs : List ℕ,
      Involved.ofList (qs.map f) = Involved.ofList ((Involved.ofList qs).map f) := by
    intro qs
    refine Involved.ofList_congr fun q => ?_
    simp only [List.mem_map, Involved.mem_ofList]
  cases op with
  | globalPhase | setMeasurements | definition | repeatedMeasurement => rfl
  | interaction a qs θ | multiControlledNot qs | fourier qs s i | call n qs ps =>
      exact congrArg Involved.finite (hset qs)
  | fixed a q | angle a q θ | reset q | measure q r k =>
      exact congrArg Involved.finite (hset [q])
  | pair a c t | controlledPhase c t θ => exact congrArg Involved.finite (hset [c, t])

variable [Scalar R]

/-- The closed form of an operation does not depend on its qubits. -/
theorem closedForm_mapIndices {I J : Type} (f g : I → J) (gate : OperationOf I R) :
    (gate.mapIndices f g).closedForm? = gate.closedForm? := by
  cases gate with
  | interaction | multiControlledNot | fourier => simp only [mapIndices, closedForm?, List.length_map]
  | _ => rfl

omit [Scalar R] in
theorem concrete_mapIndices {I J : Type} (f g : I → J) (op : OperationOf I (Parameter R)) :
    (op.mapIndices f g).concrete? = op.concrete?.map fun gate => gate.mapIndices f g := by
  cases op with
  | angle a q θ | controlledPhase c t θ | interaction a qs θ | globalPhase θ =>
      cases θ <;> rfl
  | call n qs ps =>
      simp only [concrete?, mapIndices, traverseParameters]
      cases ps.mapM Parameter.number? <;> rfl
  | _ => rfl

theorem unitary_mapIndices (f g : ℕ → ℕ) (op : Operation R) :
    (op.mapIndices f g).unitary = op.unitary := by
  have hempty : (op.qubits.map f).isEmpty = op.qubits.isEmpty := List.isEmpty_map
  have hname : (op.mapIndices f g).name = op.name := by
    rw [name, variant_mapIndices, name]
  unfold unitary
  rw [variant_mapIndices, qubits_mapIndices, hempty, hname, parameters_mapIndices,
    concrete_mapIndices]
  cases op.concrete? with
  | none => rfl
  | some gate => simp only [Option.map_some, closedForm_mapIndices]

omit [Scalar R] in
theorem IsConcreteGate.mapIndices (h : op.IsConcreteGate)
    (hinjective : ∀ p ∈ op.qubits, ∀ r ∈ op.qubits, f p = f r → p = r) (g : ℕ → ℕ) :
    (op.mapIndices f g).IsConcreteGate where
  isGate := by rw [variant_mapIndices, h.isGate]
  concrete := by rw [isParametrized_mapIndices, h.concrete]
  distinct := by
    rw [qubits_mapIndices]
    exact h.distinct.map_on fun p hp r hr => hinjective p hp r hr
  nonempty := by
    rw [qubits_mapIndices]
    simpa using h.nonempty

/-- A renamed gate has in the renamed frame the matrix of the gate in the frame. -/
theorem IsConcreteGate.unitaryIn_mapIndices (h : op.IsConcreteGate) {frame : List ℕ}
    (hframe : frame.Nodup) (hinjective : ∀ p ∈ frame, ∀ r ∈ frame, f p = f r → p = r)
    (hsub : ∀ q ∈ op.qubits, q ∈ frame) :
    ∃ m, op.unitaryIn (.ofList frame) = .ok m
      ∧ (op.mapIndices f id).unitaryIn (.ofList (frame.map f)) = .ok m := by
  obtain ⟨m, hunitary, -⟩ := h.exists_unitary
  have hrenamed : (op.mapIndices f id).IsConcreteGate :=
    h.mapIndices (fun p hp r hr => hinjective p (hsub p hp) r (hsub r hr)) id
  have hunitary' : (op.mapIndices f id).unitary = .ok m := by
    rw [unitary_mapIndices, hunitary]
  have hframe' : (frame.map f).Nodup := hframe.map_on fun p hp r hr => hinjective p hp r hr
  have hsub' : ∀ q ∈ (op.mapIndices f id).qubits, q ∈ frame.map f := by
    rw [qubits_mapIndices]
    intro q hq
    obtain ⟨p, hp, rfl⟩ := List.mem_map.1 hq
    exact List.mem_map_of_mem (hsub p hp)
  have hpositions : (op.mapIndices f id).qubits.map (frame.map f).idxOf
      = op.qubits.map frame.idxOf := by
    rw [qubits_mapIndices, List.map_map]
    exact List.map_congr_left fun q hq => idxOf_map_of_injOn hinjective (hsub q hq)
  have hmatrix' := hrenamed.unitaryIn_eq hunitary' hframe' hsub'
  rw [hpositions, List.length_map] at hmatrix'
  exact ⟨_, h.unitaryIn_eq hunitary hframe hsub, hmatrix'⟩

end OperationOf

theorem Involved.ofList_flatMap_map (f : ℕ → ℕ) (parts : List Involved) :
    Involved.ofList ((parts.map (Involved.map f)).flatMap Involved.toList)
      = Involved.ofList ((Involved.ofList (parts.flatMap Involved.toList)).map f) := by
  refine Involved.ofList_congr fun q => ?_
  have hpart : ∀ i : Involved, q ∈ (i.map f).toList ↔ ∃ p ∈ i.toList, f p = q := by
    intro i
    cases i with
    | all | none => simp [Involved.map, Involved.toList]
    | finite qs => simp [Involved.map, Involved.toList, Involved.mem_ofList]
  simp only [List.mem_flatMap, List.mem_map, Involved.mem_ofList]
  constructor
  · rintro ⟨_, ⟨i, hi, rfl⟩, hq⟩
    obtain ⟨p, hp, hpq⟩ := (hpart i).1 hq
    exact ⟨p, ⟨i, hi, hp⟩, hpq⟩
  · rintro ⟨p, ⟨i, hi, hp⟩, hpq⟩
    exact ⟨i.map f, ⟨i, hi, rfl⟩, (hpart i).2 ⟨p, hp, hpq⟩⟩

namespace Circuit

variable {R : Type} {c : Circuit R} {f : ℕ → ℕ} {qs : List ℕ} {m : QubitMap}

/-- The circuit with its qubits sent through a function. -/
def rename (f : ℕ → ℕ) (c : Circuit R) : Circuit R :=
  ⟨c.operations.map fun op => op.mapIndices f id⟩

/-- Every qubit of the circuit is in a list. -/
def CoveredBy (c : Circuit R) (qs : List ℕ) : Prop := ∀ op ∈ c.operations, ∀ q ∈ op.qubits, q ∈ qs

theorem parts_rename (f : ℕ → ℕ) (c : Circuit R) :
    (c.rename f).operations.map (fun op => op.involved)
      = (c.operations.map fun op => op.involved).map (Involved.map f) := by
  rw [rename, List.map_map, List.map_map]
  exact List.map_congr_left fun op _ => OperationOf.involved_mapIndices f op

/-- **A map that renames the qubits of a circuit of gates remaps the circuit.** -/
theorem remap_result (hgates : ∀ op ∈ c.operations, op.variant.isGate = true)
    (hdistinct : ∀ op ∈ c.operations, op.qubits.Nodup) (hcover : c.CoveredBy qs)
    (hm : m.Renames f qs) : (c.remap m).result = .ok (c.rename f) := by
  have hremap : ∀ op ∈ c.operations, (op.remap m).result = .ok (op.mapIndices f id) := by
    intro op hop
    exact OperationOf.remap_result (OperationOf.involved_of_isGate (hgates op hop))
      (hdistinct op hop) (hm.subset (hcover op hop))
  rw [remap, Traced.result_bind, Traced.result_mapM, mapM_eq_ok hremap]
  rfl

/-- The set of the involved qubits of a renamed circuit is the image of the set. -/
theorem involved_rename (f : ℕ → ℕ) (c : Circuit R) :
    (c.rename f).involved = c.involved.map f := by
  set parts := c.operations.map fun op => op.involved with hparts
  have hall : (parts.map (Involved.map f)).any Involved.isAll = parts.any Involved.isAll := by
    rw [List.any_map]
    congr 1
    funext i
    cases i <;> rfl
  simp only [involved, parts_rename, ← hparts, hall, Involved.ofList_flatMap_map]
  by_cases h : parts.any Involved.isAll = true
  · rw [if_pos h, if_pos h]
    rfl
  · rw [if_neg h, if_neg h]
    cases hqs : Involved.ofList (parts.flatMap Involved.toList) with
    | nil => rfl
    | cons q rest =>
        have hne : Involved.ofList ((q :: rest).map f) ≠ [] := by
          rw [Ne, Involved.ofList_eq_nil_iff]
          exact List.cons_ne_nil _ _
        rw [Involved.map]
        cases hqs' : Involved.ofList ((q :: rest).map f) with
        | nil => exact absurd hqs' hne
        | cons r rest' => rfl

theorem involved_eq_none_iff (hgates : ∀ op ∈ c.operations, op.variant.isGate = true)
    (hnonempty : ∀ op ∈ c.operations, op.qubits ≠ []) :
    c.involved = .none ↔ c.operations = [] := by
  constructor
  · intro hnone
    refine List.eq_nil_iff_forall_not_mem.2 fun op hop => ?_
    obtain ⟨q, hq⟩ := List.exists_mem_of_ne_nil _ (hnonempty op hop)
    have hmem := (mem_parts hgates q).2 ⟨op, hop, hq⟩
    have hset := Involved.mem_ofList.2 hmem
    rw [involved, any_isAll_eq_false hgates] at hnone
    cases hqs : Involved.ofList ((c.operations.map fun op => op.involved).flatMap
      Involved.toList) with
    | nil => exact List.not_mem_nil (hqs ▸ hset)
    | cons r rest => simp [hqs] at hnone
  · intro hnil
    rw [involved, hnil]
    rfl

/-- The depth of a circuit of gates on qubits that are kept apart does not change. -/
theorem depth_rename (hgates : ∀ op ∈ c.operations, op.variant.isGate = true)
    (hnonempty : ∀ op ∈ c.operations, op.qubits ≠ []) (hcover : c.CoveredBy qs)
    (hinjective : ∀ p ∈ qs, ∀ r ∈ qs, f p = f r → p = r) :
    ∃ n, c.depth = .ok n ∧ (c.rename f).depth = .ok n := by
  set parts := c.operations.map fun op => op.involved with hparts
  have hinvolved : ∀ op ∈ c.operations, op.involved = .finite (Involved.ofList op.qubits) :=
    fun op hop => OperationOf.involved_of_isGate (hgates op hop)
  have hne : ∀ op ∈ c.operations, op.involved ≠ .finite [] := by
    intro op hop
    rw [hinvolved op hop, Ne, Involved.finite.injEq, Involved.ofList_eq_nil_iff]
    exact hnonempty op hop
  have hset : ∀ i ∈ parts, ∀ q ∈ i.toList, q ∈ {q | q ∈ qs} := by
    intro i hi q hq
    obtain ⟨op, hop, rfl⟩ := List.mem_map.1 hi
    rw [hinvolved op hop] at hq
    exact hcover op hop q (Involved.mem_ofList.1 hq)
  have hf : Set.InjOn f {q | q ∈ qs} := fun p hp r hr => hinjective p hp r hr
  obtain ⟨s, hs, hdepth⟩ := exists_levels hne
  have hsame := (Levels.Renames.start f {q | q ∈ qs}).foldlM_after hf hset
  refine ⟨s.top, hdepth, ?_⟩
  rw [depth_eq, parts_rename, ← hparts, hsame, hs]
  rfl

variable [Scalar R]

/-- **Renaming preserves the matrix of a circuit**, in the renamed frame. -/
theorem unitary_rename (hc : ∀ op ∈ c.operations, op.IsConcreteGate) (hqs : qs.Nodup)
    (hcover : c.CoveredBy qs) (hinjective : ∀ p ∈ qs, ∀ r ∈ qs, f p = f r → p = r) :
    ∃ u, c.unitary (some (.ofList qs)) = .ok u
      ∧ (c.rename f).unitary (some (.ofList (qs.map f))) = .ok u := by
  -- the product of the gates so far is the same in both runs
  have hfold : ∀ ops : List (Operation R), (∀ op ∈ ops, op.IsConcreteGate) →
      (∀ op ∈ ops, ∀ q ∈ op.qubits, q ∈ qs) → ∀ total : ComplexMatrix R, ∃ u,
        ops.foldlM (fun total op => do return (← op.unitaryIn (.ofList qs)) * total) total
            = Except.ok u
          ∧ (ops.map fun op => op.mapIndices f id).foldlM
              (fun total op => do return (← op.unitaryIn (.ofList (qs.map f))) * total) total
            = Except.ok u := by
    intro ops hops hsub total
    induction ops generalizing total with
    | nil => exact ⟨total, rfl, rfl⟩
    | cons op ops ih =>
        obtain ⟨gate, hgate, hgate'⟩ := (hops op List.mem_cons_self).unitaryIn_mapIndices hqs
          hinjective (hsub op List.mem_cons_self)
        obtain ⟨u, hu, hu'⟩ := ih (fun op' h => hops op' (List.mem_cons_of_mem _ h))
          (fun op' h => hsub op' (List.mem_cons_of_mem _ h)) (gate * total)
        refine ⟨u, ?_, ?_⟩
        · rw [List.foldlM_cons, hgate]
          exact hu
        · rw [List.map_cons, List.foldlM_cons, hgate']
          exact hu'
  obtain ⟨u, hu, hu'⟩ := hfold c.operations hc hcover (ComplexMatrix.identity (2 ^ qs.length))
  have hsize : ComplexMatrix.identity (R := R) (2 ^ qs.length)
      = ComplexMatrix.identity (2 ^ (qs.map f).length) := by rw [List.length_map]
  exact ⟨u, hu, (hsize ▸ hu' :)⟩

/-- **Matrices are equivariant under remapping.** A circuit of concrete gates is remapped by every map that
covers a list of its qubits and keeps them apart. In the frame of the images the remapped circuit has the
matrix that the circuit has in the frame of the list. It involves the images of the involved qubits, and
its length, its depth and the order of its kinds of operations are those of the circuit. -/
theorem remap_equivariant (hc : ∀ op ∈ c.operations, op.IsConcreteGate) (hqs : qs.Nodup)
    (hcover : c.CoveredBy qs) (hm : m.Renames f qs) :
    ∃ d, (c.remap m).result = .ok d
      ∧ (∃ u, c.unitary (some (.ofList qs)) = .ok u
          ∧ d.unitary (some (.ofList (qs.map f))) = .ok u)
      ∧ d.involved = c.involved.map f ∧ (d.involved = .none ↔ c.operations = [])
      ∧ d.length = c.length ∧ (∃ n, c.depth = .ok n ∧ d.depth = .ok n)
      ∧ d.operations.map (fun op => op.variant) = c.operations.map fun op => op.variant := by
  have hgates : ∀ op ∈ c.operations, op.variant.isGate = true := fun op hop => (hc op hop).isGate
  have hdistinct : ∀ op ∈ c.operations, op.qubits.Nodup := fun op hop => (hc op hop).distinct
  have hnonempty : ∀ op ∈ c.operations, op.qubits ≠ [] := fun op hop => (hc op hop).nonempty
  have hinvolved := involved_rename f c
  have hnone : (c.rename f).involved = .none ↔ c.operations = [] := by
    rw [hinvolved, ← involved_eq_none_iff hgates hnonempty]
    cases c.involved <;> simp [Involved.map]
  have hvariants : (c.rename f).operations.map (fun op => op.variant)
      = c.operations.map fun op => op.variant := by
    rw [rename, List.map_map]
    exact List.map_congr_left fun op _ => OperationOf.variant_mapIndices f id op
  exact ⟨c.rename f, remap_result hgates hdistinct hcover hm,
    unitary_rename hc hqs hcover hm.injective, hinvolved, hnone, List.length_map _,
    depth_rename hgates hnonempty hcover hm.injective, hvariants⟩

/-- Gates of all sizes on overlapping qubits. -/
def overlappingGates : Circuit Float where
  operations := [.angle .rotateY 5 (.number 0.5), .pair .cnot 5 2, .multiControlledNot [7, 2, 0, 5],
    .fourier [2, 0] false true, .interaction .zz [0, 7] (.number 1)]

/-- Two qubits trade places and the others move to new ones. -/
def tradingPlaces : List (ℤ × ℤ) := [(5, 2), (2, 5), (7, 0), (0, 11), (9, 3)]

theorem remap_equivariant_overlappingGates :
    (∀ op ∈ overlappingGates.operations, op.IsConcreteGate)
      ∧ ∃ d, (overlappingGates.remap (.ofList tradingPlaces)).result = .ok d
        ∧ (∃ u, overlappingGates.unitary (some (.ofList [9, 7, 0, 5, 2])) = .ok u
            ∧ d.unitary (some (.ofList [3, 0, 11, 2, 5])) = .ok u)
        ∧ d.involved = .finite [0, 2, 5, 11] ∧ d.length = 5 ∧ d.depth = .ok 5 := by
  have hgates : ∀ op ∈ overlappingGates.operations, op.IsConcreteGate := by
    simp only [overlappingGates, List.forall_mem_cons]
    exact ⟨⟨rfl, rfl, by decide, by decide⟩, ⟨rfl, rfl, by decide, by decide⟩,
      ⟨rfl, rfl, by decide, by decide⟩, ⟨rfl, rfl, by decide, by decide⟩,
      ⟨rfl, rfl, by decide, by decide⟩, fun _ h => absurd h List.not_mem_nil⟩
  have hcover : overlappingGates.CoveredBy [9, 7, 0, 5, 2] := by
    simp only [CoveredBy, overlappingGates, List.forall_mem_cons, OperationOf.qubits]
    decide
  have hrenames : (QubitMap.ofList tradingPlaces).Renames
      (fun q => ((QubitMap.lookUp tradingPlaces q).getD q).toNat) [9, 7, 0, 5, 2] :=
    QubitMap.renames_ofList (by decide) (by decide)
  obtain ⟨d, hd, hunitary, hinvolved, -, hlength, ⟨n, hn, hdepth⟩, -⟩ :=
    remap_equivariant hgates (by decide) hcover hrenames
  obtain rfl : 5 = n := Except.ok.inj hn
  exact ⟨hgates, d, hd, hunitary, hinvolved, hlength, hdepth⟩

end Circuit

end CircuitIR
