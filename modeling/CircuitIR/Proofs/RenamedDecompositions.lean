import CircuitIR.Circuit.Passes
import CircuitIR.Proofs.EmittedGates
import CircuitIR.Proofs.SuccessfulRemapping
import Mathlib.Data.List.FinRange

/-!
# Decompositions and renaming

The generators of elementary gates never look at a label, so a renamed gate decomposes into the renamed
gates of its decomposition (`elementary_mapIndices`). What is emitted for qubits that are not different is a
renaming of what is emitted for different ones.
-/

namespace CircuitIR

open OperationOf (mapIndices)

variable {I J R : Type} (f g : I → J)

theorem cnotLadder_map (qs : List I) :
    (cnotLadder (qs.map f) : List (OperationOf J (Parameter R)))
      = (cnotLadder qs).map (mapIndices f g) := by
  match qs with
  | [] => rfl
  | [a] => rfl
  | a :: b :: qs =>
      have hrest := cnotLadder_map (b :: qs)
      rw [List.map_cons] at hrest
      rw [List.map_cons, List.map_cons, cnotLadder, hrest, cnotLadder, List.map_cons, mapIndices]

theorem Interaction.gates_map (a : Interaction) (qs : List I) (θ : Parameter R) :
    a.gates (qs.map f) θ = (a.gates qs θ).map (mapIndices f g) := by
  have hrotation : ((qs.map f).getLast?.map fun q => OperationOf.angle .rotateZ q θ).toList
      = (qs.getLast?.map fun q => OperationOf.angle .rotateZ q θ).toList.map (mapIndices f g) := by
    rw [List.getLast?_map]
    cases qs.getLast? <;> rfl
  have hbasis : (qs.map f).map (fun q => (.fixed .hadamard q : OperationOf J (Parameter R)))
      = (qs.map fun q => .fixed .hadamard q).map (mapIndices f g) := by
    rw [List.map_map, List.map_map]
    rfl
  cases a <;>
    simp only [gates, cnotLadder_map f g, hrotation, hbasis, List.map_append, List.map_reverse]

namespace Controlled

variable [Scalar R]

theorem flipBy_map {phase : I → Parameter R → List (OperationOf I (Parameter R))}
    {phase' : J → Parameter R → List (OperationOf J (Parameter R))} {t : I}
    (hphase : ∀ φ, phase' (f t) φ = (phase t φ).map (mapIndices f g)) (controls : List I) :
    flipBy phase' (controls.map f) (f t) = (flipBy phase controls t).map (mapIndices f g) := by
  match controls with
  | [] => rfl
  | [c] => rfl
  | [d, c] => rfl
  | a :: b :: c :: controls =>
      simp only [List.map_cons, flipBy, hphase, List.map_append, List.map_nil, mapIndices]

theorem phase_map (controls : List I) (t : I) (φ : Parameter R) :
    phase (controls.map f) (f t) φ = (phase controls t φ).map (mapIndices f g) := by
  induction controls generalizing t φ with
  | nil => rfl
  | cons x controls ih =>
      cases controls with
      | nil => rfl
      | cons y controls =>
          have hflip := flipBy_map f g (fun φ => ih x φ) (y :: controls)
          rw [List.map_cons] at ih hflip
          simp only [List.map_cons, phase, extend, ih, hflip, List.map_append, mapIndices]

theorem flip_map (controls : List I) (t : I) :
    (flip (controls.map f) (f t) : List (OperationOf J (Parameter R)))
      = (flip controls t).map (mapIndices f g) :=
  flipBy_map f g (fun φ => phase_map f g controls t φ) controls

end Controlled

namespace Fourier

theorem swaps_map (qs : List I) :
    (swaps (qs.map f) : List (OperationOf J (Parameter R))) = (swaps qs).map (mapIndices f g) := by
  rw [swaps, swaps, ← List.map_reverse, List.zip_map, List.length_map, ← List.map_take,
    List.map_map, List.map_map]
  rfl

variable [Scalar R]

/-- The phase that a qubit puts on a target at some distance. -/
def phase? (t : I) (e : I × ℕ) : Option (OperationOf I (Parameter R)) := do
  let angle ← Scalar.piOver? R e.2
  return .controlledPhase e.1 t (.number angle)

theorem gates?_cons (t : I) (qs : List I) :
    (gates? (t :: qs) : Option (List (OperationOf I (Parameter R)))) = do
      let phases ← (qs.zipIdx 1).mapM (phase? t)
      let rest ← gates? qs
      return .fixed .hadamard t :: phases ++ rest := rfl

theorem mapM_phase?_map (t : I) (l : List (I × ℕ)) :
    (l.map (Prod.map f id)).mapM (phase? (f t) : _ → Option (OperationOf J (Parameter R)))
      = (l.mapM (phase? t)).map (List.map (mapIndices f g)) := by
  induction l with
  | nil => rfl
  | cons e l ih =>
      have hfirst : (phase? (f t) (Prod.map f id e) : Option (OperationOf J (Parameter R)))
          = (phase? t e).map (mapIndices f g) := by
        simp only [phase?, Prod.map_fst, Prod.map_snd, id]
        cases Scalar.piOver? R e.2 <;> rfl
      rw [List.map_cons, List.mapM_cons, hfirst, ih, List.mapM_cons]
      cases (phase? t e : Option (OperationOf I (Parameter R))) with
      | none => rfl
      | some phase =>
          cases (l.mapM (phase? t) : Option (List (OperationOf I (Parameter R)))) <;> rfl

theorem gates?_map (qs : List I) :
    (gates? (qs.map f) : Option (List (OperationOf J (Parameter R))))
      = (gates? qs).map (List.map (mapIndices f g)) := by
  induction qs with
  | nil => rfl
  | cons t qs ih =>
      rw [List.map_cons, gates?_cons, List.zipIdx_map, mapM_phase?_map f g, ih, gates?_cons]
      cases ((qs.zipIdx 1).mapM (phase? t) : Option (List (OperationOf I (Parameter R)))) with
      | none => rfl
      | some phases =>
          cases (gates? qs : Option (List (OperationOf I (Parameter R)))) with
          | none => rfl
          | some rest => simp [mapIndices]

theorem inverseGate_mapIndices (op : OperationOf I (Parameter R)) :
    inverseGate (op.mapIndices f g) = (inverseGate op).mapIndices f g := by
  cases op <;> rfl

theorem decomposition?_map (qs : List I) (s i : Bool) :
    (decomposition? (qs.map f) s i : Option (List (OperationOf J (Parameter R))))
      = (decomposition? qs s i).map (List.map (mapIndices f g)) := by
  have hexchanges : (if s then swaps (qs.map f) else [] : List (OperationOf J (Parameter R)))
      = (if s then swaps qs else []).map (mapIndices f g) := by
    cases s
    · rfl
    · exact swaps_map f g qs
  rw [decomposition?, gates?_map f g, hexchanges, decomposition?]
  cases (gates? qs : Option (List (OperationOf I (Parameter R)))) with
  | none => rfl
  | some forward =>
      cases i <;> simp [inverseGate_mapIndices]

end Fourier

namespace OperationOf

/-- **Renamed gates have renamed decompositions.** -/
theorem elementary_mapIndices [Scalar R] (op : OperationOf I (Parameter R)) :
    (op.mapIndices f g).elementary? = op.elementary?.map (List.map (mapIndices f g)) := by
  cases op with
  | interaction a qs θ => exact congrArg some (Interaction.gates_map f g a qs θ)
  | multiControlledNot qs =>
      change multiControlledNot? (qs.map f) = (multiControlledNot? qs).map _
      rw [multiControlledNot?, multiControlledNot?, ← List.map_reverse]
      cases qs.reverse with
      | nil => rfl
      | cons t controls => exact congrArg some (Controlled.flip_map f g controls t)
  | fourier qs s i => exact Fourier.decomposition?_map f g qs s i
  | _ => rfl

/-- A gate on many qubits is a gate on different ones with its qubits renamed. -/
theorem exists_mapIndices_eq {op : OperationOf I (Parameter R)}
    (hmulti : op.variant.isMultiQubitGate = true) :
    ∃ op' : OperationOf (Fin op.qubits.length) (Parameter R),
      op'.qubits.Nodup ∧ op'.mapIndices op.qubits.get op.qubits.get = op := by
  have hlabels := List.nodup_finRange op.qubits.length
  have hqubits := List.map_get_finRange op.qubits
  cases op with
  | interaction a qs θ =>
      exact ⟨.interaction a (List.finRange qs.length) θ, hlabels,
        congrArg (interaction a · θ) hqubits⟩
  | multiControlledNot qs =>
      exact ⟨.multiControlledNot (List.finRange qs.length), hlabels, congrArg _ hqubits⟩
  | fourier qs s i =>
      exact ⟨.fourier (List.finRange qs.length) s i, hlabels, congrArg (fourier · s i) hqubits⟩
  | _ => exact absurd hmulti Bool.false_ne_true

/-- **No symbol is added**: a symbolic angle of an emitted gate is the angle of its gate, on any qubits. -/
theorem mem_parameters_of_elementary [Scalar R] {op : OperationOf I (Parameter R)}
    (hmulti : op.variant.isMultiQubitGate = true) {gates : List (OperationOf I (Parameter R))}
    (h : op.elementary? = some gates) :
    ∀ gate ∈ gates, ∀ p ∈ gate.parameters, p.isSymbolic = true → p ∈ op.parameters := by
  obtain ⟨op', hdistinct, hop⟩ := exists_mapIndices_eq hmulti
  rw [← hop, elementary_mapIndices, Option.map_eq_some_iff] at h
  obtain ⟨gates', hgates', rfl⟩ := h
  intro gate hgate
  obtain ⟨gate', hgate', rfl⟩ := List.mem_map.1 hgate
  have hsmall := small_elementary hdistinct hgates' gate' hgate'
  have hparameters : op.parameters = op'.parameters := by
    rw [← parameters_mapIndices op.qubits.get op.qubits.get op', hop]
  rw [parameters_mapIndices, hparameters]
  exact hsmall.mem_parameters

end OperationOf

end CircuitIR
