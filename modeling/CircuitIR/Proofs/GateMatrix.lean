import CircuitIR.Circuit.Unitary
import CircuitIR.Proofs.TensorAxes
import Mathlib.Data.List.Nodup

/-!
# Matrices of gates in a frame

A concrete gate has a closed form of the size of its qubits. In a frame of different qubits that contains
them it has a matrix: the closed form, lifted to the positions at which its qubits are listed. All of this
holds over any scalars, since no arithmetic is done.
-/

namespace CircuitIR

attribute [local instance (high)] instPowNat

variable {R : Type} [Scalar R] {frame : List ℕ} {q : ℕ}

section LastPlace

variable {α : Type} (xs : List α) (p : α → Bool) {i : ℕ}

/-- The last place of a list with a property is a place with the property. -/
theorem exists_getElem_of_lastPlace
    (h : (xs.zipIdx.reverse.find? fun e => p e.1).map (·.2) = some i) :
    ∃ x, xs[i]? = some x ∧ p x = true := by
  obtain ⟨e, he, rfl⟩ := Option.map_eq_some_iff.1 h
  have hmem := List.mem_of_find?_eq_some he
  rw [List.mem_reverse, List.mk_mem_zipIdx_iff_getElem?] at hmem
  exact ⟨e.1, hmem, List.find?_some (p := fun e : α × ℕ => p e.1) he⟩

theorem isSome_lastPlace :
    ((xs.zipIdx.reverse.find? fun e => p e.1).map (·.2)).isSome = true ↔ ∃ x ∈ xs, p x = true := by
  rw [Option.isSome_map, List.find?_isSome]
  constructor
  · rintro ⟨e, he, hp⟩
    exact ⟨e.1, List.fst_mem_of_mem_zipIdx (List.mem_reverse.1 he), hp⟩
  · rintro ⟨x, hx, hp⟩
    obtain ⟨i, hi⟩ := List.mem_iff_getElem?.1 hx
    exact ⟨(x, i), List.mem_reverse.2 (List.mk_mem_zipIdx_iff_getElem?.2 hi), hp⟩

theorem lastPlace_map {β : Type} (f : β → α) (ys : List β) :
    ((ys.map f).zipIdx.reverse.find? fun e => p e.1).map (·.2)
      = (ys.zipIdx.reverse.find? fun e => p (f e.1)).map (·.2) := by
  rw [List.zipIdx_map, ← List.map_reverse, List.find?_map, Option.map_map]
  rfl

end LastPlace

/-- The positions of a frame are in range, and different qubits have different ones. -/
structure Frame.IsPositioned (frame : Frame) : Prop where
  lt {q p : ℕ} : frame.position? q = some p → p < frame.size
  injective {q r p : ℕ} : frame.position? q = some p → frame.position? r = some p → q = r

theorem Frame.isPositioned_ofList (qs : List ℕ) : (Frame.ofList qs).IsPositioned where
  lt {q p} h := by
    obtain ⟨r, hr, -⟩ := exists_getElem_of_lastPlace qs (· == q) h
    exact (List.getElem?_eq_some_iff.1 hr).1
  injective {q q' p} h h' := by
    obtain ⟨r, hr, hq⟩ := exists_getElem_of_lastPlace qs (· == q) h
    obtain ⟨r', hr', hq'⟩ := exists_getElem_of_lastPlace qs (· == q') h'
    rw [← beq_iff_eq.1 hq, ← beq_iff_eq.1 hq', Option.some.inj (hr.symm.trans hr')]

/-- In a frame of different qubits every qubit has the position at which it is listed. -/
theorem Frame.position?_ofList (hframe : frame.Nodup) (hq : q ∈ frame) :
    (Frame.ofList frame).position? q = some (frame.idxOf q) := by
  have hsome : ((Frame.ofList frame).position? q).isSome = true :=
    (isSome_lastPlace frame (· == q)).2 ⟨q, hq, beq_self_eq_true q⟩
  obtain ⟨p, hp⟩ := Option.isSome_iff_exists.1 hsome
  obtain ⟨r, hr, hrq⟩ := exists_getElem_of_lastPlace frame (· == q) hp
  obtain ⟨hlt, hget⟩ := List.getElem?_eq_some_iff.1 hr
  rw [hp, ← beq_iff_eq.1 hrq, ← hget, hframe.idxOf_getElem]

/-- A matrix of the right size is lifted to different positions in range. -/
theorem ComplexMatrix.embed_eq_lift {m : ComplexMatrix R} {positions : List ℕ} {n : ℕ}
    (hrows : m.rows = 2 ^ positions.length) (hcols : m.cols = 2 ^ positions.length)
    (hdistinct : positions.Nodup) (hrange : ∀ p ∈ positions, p < n) :
    m.embed (positions.map Int.ofNat) n = .ok (m.lift positions n) := by
  have hpositions : arePositions (positions.map Int.ofNat) n = true := by
    have hinjective : Function.Injective Int.ofNat := fun _ _ => Int.ofNat.inj
    simpa [arePositions, hdistinct.map hinjective] using hrange
  have hback : (positions.map Int.ofNat).map Int.toNat = positions := by
    rw [List.map_map]
    exact List.map_id'' Int.toNat_natCast positions
  have hlift := embedAxes_eq_lift hrows hcols hdistinct hrange
  simp [embed, hrows, hcols, hpositions, hback, hlift]

theorem Parameter.exists_number {R : Type} {p : Parameter R} (h : p.isSymbolic = false) :
    ∃ x, p = .number x := by
  cases p with
  | number x => exact ⟨x, rfl⟩
  | symbolic e => nomatch h

namespace OperationOf

/-- The operation has a matrix of its own: it is a gate on at least one qubit, its qubits are
different, as for every validated draft, and its parameters are numbers. -/
structure IsConcreteGate {R : Type} (op : Operation R) : Prop where
  isGate : op.variant.isGate = true
  concrete : op.isParametrized = false
  distinct : op.qubits.Nodup
  nonempty : op.qubits ≠ []

variable {op : Operation R} {m : ComplexMatrix R}

theorem unitary_eq_ok {gate : OperationOf ℕ R} (hgate : op.variant.isGate = true)
    (hne : op.qubits ≠ []) (hconcrete : op.concrete? = some gate)
    (hclosed : gate.closedForm? = some m) : op.unitary = .ok m := by
  have hempty : op.qubits.isEmpty = false := by simpa using hne
  simp [unitary, hgate, hempty, hconcrete, hclosed]

theorem IsConcreteGate.exists_unitary (h : op.IsConcreteGate) :
    ∃ m, op.unitary = .ok m ∧ m.rows = 2 ^ op.qubits.length ∧ m.cols = 2 ^ op.qubits.length := by
  obtain ⟨hgate, hconcrete, -, hnonempty⟩ := h
  cases op with
  | fixed g q => exact ⟨g.unitary, rfl, by cases g <;> exact ⟨rfl, rfl⟩⟩
  | angle g q θ =>
      obtain ⟨x, rfl⟩ := Parameter.exists_number (by simpa [isParametrized, parameters] using hconcrete)
      exact ⟨g.unitary x, rfl, by cases g <;> exact ⟨rfl, rfl⟩⟩
  | pair g c t => exact ⟨g.unitary, rfl, by cases g <;> exact ⟨rfl, rfl⟩⟩
  | controlledPhase c t θ =>
      obtain ⟨x, rfl⟩ := Parameter.exists_number (by simpa [isParametrized, parameters] using hconcrete)
      exact ⟨controlledPhaseUnitary x, rfl, ⟨rfl, rfl⟩⟩
  | interaction g qs θ =>
      obtain ⟨x, rfl⟩ := Parameter.exists_number (by simpa [isParametrized, parameters] using hconcrete)
      exact ⟨_, unitary_eq_ok rfl hnonempty rfl rfl, by cases g <;> exact ⟨rfl, rfl⟩⟩
  | multiControlledNot qs => exact ⟨_, unitary_eq_ok rfl hnonempty rfl rfl, ⟨rfl, rfl⟩⟩
  | fourier qs s i => exact ⟨_, unitary_eq_ok rfl hnonempty rfl rfl, ⟨rfl, rfl⟩⟩
  | _ => exact absurd hgate Bool.false_ne_true

/-- In a frame that has positions for its qubits a concrete gate has the lifted closed form. -/
theorem IsConcreteGate.unitaryIn_eq_lift (h : op.IsConcreteGate) (hunitary : op.unitary = .ok m)
    {frame : Frame} (hframe : frame.IsPositioned) {position : ℕ → ℕ}
    (hposition : ∀ q ∈ op.qubits, frame.position? q = some (position q)) :
    op.unitaryIn frame = .ok (m.lift (op.qubits.map position) frame.size) := by
  have hmissing : (op.qubits.filter fun q => (frame.position? q).isNone) = [] := by
    rw [List.filter_eq_nil_iff]
    intro q hq
    simp [hposition q hq]
  have hpositions : op.qubits.filterMap frame.position? = op.qubits.map position := by
    rw [← List.filterMap_eq_map]
    exact List.filterMap_congr hposition
  have hdistinct : (op.qubits.map position).Nodup := by
    refine h.distinct.map_on fun q hq r hr heq => ?_
    exact hframe.injective (hposition q hq) (heq ▸ hposition r hr)
  have hrange : ∀ p ∈ op.qubits.map position, p < frame.size := by
    intro p hp
    obtain ⟨q, hq, rfl⟩ := List.mem_map.1 hp
    exact hframe.lt (hposition q hq)
  obtain ⟨m', hunitary', hrows, hcols⟩ := h.exists_unitary
  obtain rfl : m' = m := Except.ok.inj (hunitary'.symm.trans hunitary)
  have hembed := ComplexMatrix.embed_eq_lift (by rwa [List.length_map]) (by rwa [List.length_map])
    hdistinct hrange
  rw [unitaryIn, hmissing, hpositions, hunitary, h.isGate]
  exact hembed

/-- Where all qubits of a gate have positions, the failure is that of the gate itself. -/
theorem unitaryIn_eq_error {frame : Frame} {f : Fault} (hgate : op.variant.isGate = true)
    (hpositions : ∀ q ∈ op.qubits, (frame.position? q).isSome = true) (h : op.unitary = .error f) :
    op.unitaryIn frame = .error f := by
  have hmissing : (op.qubits.filter fun q => (frame.position? q).isNone) = [] := by
    rw [List.filter_eq_nil_iff]
    intro q hq
    rw [Bool.not_eq_true, Option.isNone_eq_false_iff]
    exact hpositions q hq
  rw [unitaryIn, hmissing, hgate, h]
  rfl

/-- In a list of different qubits that contains its own the positions are those at which these are listed. -/
theorem IsConcreteGate.unitaryIn_eq (h : op.IsConcreteGate) (hunitary : op.unitary = .ok m)
    (hframe : frame.Nodup) (hsub : ∀ q ∈ op.qubits, q ∈ frame) :
    op.unitaryIn (.ofList frame) = .ok (m.lift (op.qubits.map frame.idxOf) frame.length) :=
  h.unitaryIn_eq_lift hunitary (Frame.isPositioned_ofList frame) fun q hq =>
    Frame.position?_ofList hframe (hsub q hq)

end OperationOf

end CircuitIR
