import CircuitIR.Proofs.ElementaryGates
import CircuitIR.Proofs.RenamedDecompositions

/-!
# Circuits that decompose

A gate on many qubits decomposes if it has a qubit at all and, for a Fourier transform, if the powers of two
in its angles are doubles. A pass that succeeds relates the operations of a circuit and of its result one by
one, so what two passes do to a circuit is compared operation by operation. A table that remaps a circuit
remaps its decomposition too, and gives the decomposition of the remapped circuit (`decompose_remap`).
-/

namespace CircuitIR

namespace Fourier

variable {I R : Type} [Scalar R]

theorem isSome_phases_iff (t : I) {l : List (I × ℕ)} :
    (l.mapM (phase? t) : Option (List (OperationOf I (Parameter R)))).isSome
      ↔ ∀ e ∈ l, (Scalar.piOver? R e.2).isSome := by
  induction l with
  | nil => simp
  | cons e l ih =>
      rw [List.forall_mem_cons, ← ih, List.mapM_cons, phase?]
      cases Scalar.piOver? R e.2 with
      | none => simp
      | some angle =>
          cases (l.mapM (phase? t) : Option (List (OperationOf I (Parameter R)))) <;> simp

/-- The gates of a transform exist exactly if the angles at all distances of two of its qubits do. -/
theorem isSome_gates_iff {qs : List I} :
    (gates? qs : Option (List (OperationOf I (Parameter R)))).isSome
      ↔ ∀ k, 0 < k → k < qs.length → (Scalar.piOver? R k).isSome := by
  induction qs with
  | nil => simp [gates?]
  | cons t qs ih =>
      set phases : Option (List (OperationOf I (Parameter R))) := (qs.zipIdx 1).mapM (phase? t)
      have hphases : phases.isSome ↔ ∀ k, 0 < k → k < (t :: qs).length → (Scalar.piOver? R k).isSome := by
        rw [isSome_phases_iff, List.length_cons]
        constructor
        · intro h k hpos hlt
          obtain ⟨j, rfl⟩ := Nat.exists_eq_add_of_le hpos
          have hj : j < qs.length := by omega
          exact h (qs[j], 1 + j) (List.mk_add_mem_zipIdx_iff_getElem?.2 (List.getElem?_eq_getElem hj))
        · intro h e he
          have hle := List.le_snd_of_mem_zipIdx he
          have hlt := List.snd_lt_add_of_mem_zipIdx he
          exact h e.2 (by omega) (by omega)
      have hrest : phases.isSome → (gates? qs : Option (List (OperationOf I (Parameter R)))).isSome :=
        fun h => ih.2 fun k hpos hlt => hphases.1 h k hpos (Nat.lt_succ_of_lt hlt)
      -- the remaining transform needs no angle that its first qubit does not need
      rw [← hphases, gates?_cons]
      change (phases >>= _).isSome = true ↔ _
      cases hcase : phases with
      | none => simp
      | some made =>
          obtain ⟨rest, hgates⟩ := Option.isSome_iff_exists.1 (hrest (by rw [hcase]; rfl))
          simp [hgates]

theorem isSome_piOver?_float {k : ℕ} : (Scalar.piOver? Float k).isSome ↔ k < 1024 := by
  change ((if k < 1024 then some (Float.ofNat (2 ^ k)) else none).map _).isSome = true ↔ _
  by_cases hk : k < 1024 <;> simp [hk]

end Fourier

theorem Variant.isGate_of_isMultiQubitGate {v : Variant} (h : v.isMultiQubitGate = true) :
    v.isGate = true := by
  cases v with
  | interaction | multiControlledNot | fourier => rfl
  | _ => exact absurd h Bool.false_ne_true

namespace OperationOf

/-- What a gate on many qubits needs to be decomposed over doubles. -/
structure IsDecomposable (op : Operation Float) : Prop where
  nonempty : op.variant.isMultiQubitGate = true → op.qubits ≠ []
  inRange : op.variant = .fourier → op.qubits.length ≤ 1024

variable {op op' : Operation Float}

/-- Only the kind and the number of the qubits matter. -/
theorem IsDecomposable.congr (h : op.IsDecomposable) (hvariant : op'.variant = op.variant)
    (hlength : op'.qubits.length = op.qubits.length) : op'.IsDecomposable where
  nonempty hmulti := by
    rw [hvariant] at hmulti
    have hne := List.length_pos_iff.2 (h.nonempty hmulti)
    exact List.length_pos_iff.1 (hlength ▸ hne)
  inRange hfourier := by
    rw [hvariant] at hfourier
    exact hlength ▸ h.inRange hfourier

theorem IsDecomposable.exists_elementary (h : op.IsDecomposable)
    (hmulti : op.variant.isMultiQubitGate = true) : ∃ gates, op.elementary? = some gates := by
  have hne := h.nonempty hmulti
  cases op with
  | interaction g qs θ => exact ⟨_, rfl⟩
  | multiControlledNot qs =>
      change ∃ gates, multiControlledNot? qs = some gates
      rw [multiControlledNot?]
      cases hqs : qs.reverse with
      | nil => exact absurd (List.reverse_eq_nil_iff.1 hqs) hne
      | cons t controls => exact ⟨_, rfl⟩
  | fourier qs s i =>
      have hlength : qs.length ≤ 1024 := h.inRange rfl
      have hinRange : (Fourier.gates? qs : Option (List (Operation Float))).isSome :=
        Fourier.isSome_gates_iff.2 fun k _ hk =>
          Fourier.isSome_piOver?_float.2 (Nat.lt_of_lt_of_le hk hlength)
      obtain ⟨forward, hforward⟩ := Option.isSome_iff_exists.1 hinRange
      rw [elementary?, Fourier.decomposition?, hforward]
      cases i <;> exact ⟨_, rfl⟩
  | _ => exact absurd hmulti Bool.false_ne_true

theorem IsDecomposable.expand_multi (h : op.IsDecomposable)
    (hmulti : op.variant.isMultiQubitGate = true) :
    ∃ gates, op.elementary? = some gates ∧ (Circuit.expand op).result = .ok gates := by
  obtain ⟨gates, hgates⟩ := h.exists_elementary hmulti
  refine ⟨gates, hgates, ?_⟩
  rw [Circuit.expand, if_pos hmulti]
  exact decompose_result hmulti (h.nonempty hmulti) hgates

theorem expand_other {R : Type} [Scalar R] {op : Operation R}
    (hmulti : op.variant.isMultiQubitGate = false) : (Circuit.expand op).result = .ok [op] := by
  rw [Circuit.expand, hmulti]
  rfl

theorem IsDecomposable.exists_expand (h : op.IsDecomposable) :
    ∃ gates, (Circuit.expand op).result = .ok gates := by
  cases hmulti : op.variant.isMultiQubitGate with
  | false => exact ⟨[op], expand_other hmulti⟩
  | true =>
      obtain ⟨gates, -, hgates⟩ := h.expand_multi hmulti
      exact ⟨gates, hgates⟩

end OperationOf

namespace Circuit

variable {R : Type} {c d : Circuit R} {m : QubitMap}

/-- A pass that replaces every operation by one relates the operations of both circuits one by one. -/
theorem mapM_operations_eq_ok_iff {pass : Operation R → Except Fault (Operation R)} :
    (c.operations.mapM pass >>= fun ops => .ok ⟨ops⟩) = .ok d
    ↔ List.Forall₂ (fun op op' => pass op = .ok op') c.operations d.operations := by
  rw [bind_eq_ok, ← mapM_eq_ok_iff]
  constructor
  · rintro ⟨ops, hops, h⟩
    obtain rfl := Except.ok.inj h
    exact hops
  · exact fun h => ⟨d.operations, h, rfl⟩

theorem remap_eq_ok_iff : (c.remap m).result = .ok d
    ↔ List.Forall₂ (fun op op' => (op.remap m).result = .ok op') c.operations d.operations := by
  rw [remap, Traced.result_bind, Traced.result_mapM]
  exact mapM_operations_eq_ok_iff

theorem result_substitute (c : Circuit Float) (r : Resolver) : (c.substitute r).result
    = ((c.operations.mapM fun op => (op.substitute r).result) >>= fun ops => .ok ⟨ops⟩) := by
  rw [substitute, Traced.result_bind, Traced.result_mapM]
  rfl

theorem substitute_eq_ok_iff {c made : Circuit Float} {r : Resolver} :
    (c.substitute r).result = .ok made
    ↔ List.Forall₂ (fun op op' => (op.substitute r).result = .ok op') c.operations
      made.operations := by
  rw [result_substitute]
  exact mapM_operations_eq_ok_iff

theorem result_decompose [Scalar R] (c : Circuit R) : c.decompose.result
    = ((c.operations.mapM fun op => (expand op).result) >>= fun parts => .ok ⟨parts.flatten⟩) := by
  rw [decompose, Traced.result_bind, Traced.result_mapM]
  rfl

theorem decompose_eq_ok_iff [Scalar R] : c.decompose.result = .ok d
    ↔ ∃ parts, List.Forall₂ (fun op gates => (expand op).result = .ok gates) c.operations parts
      ∧ d.operations = parts.flatten := by
  rw [result_decompose, bind_eq_ok]
  refine exists_congr fun parts => and_congr mapM_eq_ok_iff ?_
  exact ⟨fun h => Except.ok.inj h ▸ rfl, fun h => congrArg (Except.ok ∘ mk) h.symm⟩

end Circuit

namespace OperationOf

variable {op op' : Operation Float} {entries : List (ℤ × ℤ)}

/-- What replaces the remapped operation is what replaces the operation, remapped. -/
theorem IsDecomposable.expand_remap (h : op.IsDecomposable)
    (hremap : (op.remap (.ofList entries)).result = .ok op') :
    ∃ gates gates', (Circuit.expand op).result = .ok gates ∧ (Circuit.expand op').result = .ok gates'
      ∧ List.Forall₂ (fun gate gate' => (gate.remap (.ofList entries)).result = .ok gate')
        gates gates' := by
  obtain ⟨hvariant, -, -⟩ := remap_keeps hremap
  cases hmulti : op.variant.isMultiQubitGate with
  | false =>
      have hmulti' : op'.variant.isMultiQubitGate = false := hvariant ▸ hmulti
      exact ⟨[op], [op'], expand_other hmulti, expand_other hmulti', .cons hremap .nil⟩
  | true =>
      have hgate : op.variant.isGate = true := Variant.isGate_of_isMultiQubitGate hmulti
      obtain ⟨hdistinct, hrenames, rfl⟩ := remap_eq_ok (involved_of_isGate hgate) hremap
      obtain ⟨gates, hgates, hexpand⟩ := h.expand_multi hmulti
      set f := QubitMap.image entries
      have hdecomposable : (op.mapIndices f id).IsDecomposable :=
        h.congr hvariant (by rw [qubits_mapIndices, List.length_map])
      obtain ⟨gates', hgates', hexpand'⟩ := hdecomposable.expand_multi (hvariant ▸ hmulti)
      rw [elementary_mapIndices, hgates, Option.map_some, Option.some_inj] at hgates'
      refine ⟨gates, gates', hexpand, hexpand', ?_⟩
      rw [← hgates', List.forall₂_map_right_iff, List.forall₂_same]
      -- the qubits of an emitted gate are different and among those of its gate
      intro gate hmem
      have hsmall := small_elementary hdistinct hgates gate hmem
      exact remap_result (involved_of_isGate hsmall.isGate) hsmall.nodup
        (hrenames.subset hsmall.mem_qubits)

end OperationOf

namespace Circuit

variable {c c' : Circuit Float} {entries : List (ℤ × ℤ)}

/-- **Decomposition commutes with remapping.** If a table remaps a circuit that decomposes, it remaps the
decomposition, and the result is the decomposition of the remapped circuit. -/
theorem decompose_remap (hc : ∀ op ∈ c.operations, op.IsDecomposable)
    (hremap : (c.remap (.ofList entries)).result = .ok c') :
    ∃ d d', c.decompose.result = .ok d ∧ c'.decompose.result = .ok d'
      ∧ (d.remap (.ofList entries)).result = .ok d' := by
  have hparts : ∀ {ops ops' : List (Operation Float)}, (∀ op ∈ ops, op.IsDecomposable) →
      List.Forall₂ (fun op op' => (op.remap (.ofList entries)).result = .ok op') ops ops' →
      ∃ parts parts', List.Forall₂ (fun op gates => (expand op).result = .ok gates) ops parts
        ∧ List.Forall₂ (fun op gates => (expand op).result = .ok gates) ops' parts'
        ∧ List.Forall₂ (List.Forall₂ fun op op' => (op.remap (.ofList entries)).result = .ok op')
          parts parts' := by
    intro ops ops' hops hremap
    induction hremap with
    | nil => exact ⟨[], [], .nil, .nil, .nil⟩
    | cons hop _ ih =>
        rw [List.forall_mem_cons] at hops
        obtain ⟨gates, gates', hgates, hgates', hrel⟩ := hops.1.expand_remap hop
        obtain ⟨parts, parts', hparts, hparts', hrest⟩ := ih hops.2
        exact ⟨gates :: parts, gates' :: parts', .cons hgates hparts, .cons hgates' hparts',
          .cons hrel hrest⟩
  obtain ⟨parts, parts', hd, hd', hrel⟩ := hparts hc (remap_eq_ok_iff.1 hremap)
  refine ⟨⟨parts.flatten⟩, ⟨parts'.flatten⟩, decompose_eq_ok_iff.2 ⟨parts, hd, rfl⟩,
    decompose_eq_ok_iff.2 ⟨parts', hd', rfl⟩, ?_⟩
  exact remap_eq_ok_iff.2 (List.rel_flatten hrel)

/-- Operations of all categories, with a symbolic angle and a table of readout indices. -/
def allCategories : Circuit Float where
  operations := [.definition .bit "ro" 2 true, .fixed .hadamard 5,
    .interaction .ms [0, 7] (.symbolic (.symbol "x")), .multiControlledNot [7, 2, 0, 5],
    .fourier [2, 0, 5] true true, .call "g" [2, 7] [.number 1], .globalPhase (.number 1),
    .setMeasurements 3 "ro", .repeatedMeasurement "ro" 4 (some [(2, 0), (8, 1)]), .reset 0,
    .measure 5 "ro" 1]

theorem decompose_remap_allCategories :
    (∀ op ∈ allCategories.operations, op.IsDecomposable)
      ∧ ∃ c', (allCategories.remap (.ofList [(5, 2), (2, 5), (7, 0), (0, 11)])).result = .ok c'
        ∧ c'.operations = [.definition .bit "ro" 2 true, .fixed .hadamard 2,
          .interaction .ms [11, 0] (.symbolic (.symbol "x")), .multiControlledNot [0, 5, 11, 2],
          .fourier [5, 11, 2] true true, .call "g" [5, 0] [.number 1], .globalPhase (.number 1),
          .setMeasurements 3 "ro", .repeatedMeasurement "ro" 4 (some [(5, 0), (8, 1)]), .reset 11,
          .measure 2 "ro" 1]
        ∧ ∃ d d', allCategories.decompose.result = .ok d ∧ c'.decompose.result = .ok d'
          ∧ (d.remap (.ofList [(5, 2), (2, 5), (7, 0), (0, 11)])).result = .ok d' := by
  have hc : ∀ op ∈ allCategories.operations, op.IsDecomposable := by
    simp only [allCategories, List.forall_mem_cons]
    refine ⟨⟨?_, ?_⟩, ⟨?_, ?_⟩, ⟨?_, ?_⟩, ⟨?_, ?_⟩, ⟨?_, ?_⟩, ⟨?_, ?_⟩, ⟨?_, ?_⟩, ⟨?_, ?_⟩, ⟨?_, ?_⟩,
      ⟨?_, ?_⟩, ⟨?_, ?_⟩, fun _ h => absurd h List.not_mem_nil⟩
    all_goals decide
  have hremap : (allCategories.remap (.ofList [(5, 2), (2, 5), (7, 0), (0, 11)])).result
      = .ok ⟨_⟩ := rfl
  exact ⟨hc, _, hremap, rfl, decompose_remap hc hremap⟩

end Circuit

end CircuitIR
