import CircuitIR.Gate.Decomposition
import Mathlib.Data.List.Basic

/-!
# Qubits that decompositions touch

A sequence of operations touches the qubits of its members. Every decomposition touches exactly the
qubits of the gate it replaces, whatever the labels and the scalars are; no action is needed for that.
-/

namespace CircuitIR

variable {I P R : Type}

/-- Some operation of a sequence has the qubit. -/
def Touches (ops : List (OperationOf I P)) (q : I) : Prop := ∃ op ∈ ops, q ∈ op.qubits

section Touches

variable {op : OperationOf I P} {ops ops' : List (OperationOf I P)} {q : I}

@[simp]
theorem touches_nil : ¬ Touches ([] : List (OperationOf I P)) q := by
  simp [Touches]

@[simp]
theorem touches_cons : Touches (op :: ops) q ↔ q ∈ op.qubits ∨ Touches ops q := by
  simp [Touches]

@[simp]
theorem touches_append : Touches (ops ++ ops') q ↔ Touches ops q ∨ Touches ops' q := by
  simp [Touches, or_and_right, exists_or]

@[simp]
theorem touches_reverse : Touches ops.reverse q ↔ Touches ops q := by
  simp [Touches]

end Touches

variable {q : I}

theorem touches_cnotLadder (a b : I) (qs : List I) :
    Touches (cnotLadder (a :: b :: qs) : List (OperationOf I (Parameter R))) q
      ↔ q ∈ a :: b :: qs := by
  induction qs generalizing a b with
  | nil => simp [cnotLadder, OperationOf.qubits]
  | cons c qs ih =>
      rw [cnotLadder, touches_cons, ih]
      simp only [OperationOf.qubits, List.mem_cons, List.not_mem_nil, or_false]
      tauto

theorem touches_interaction (g : Interaction) (qs : List I) (θ : Parameter R) :
    Touches (g.gates qs θ) q ↔ q ∈ qs := by
  have hbasis : ∀ rs : List I,
      Touches (rs.map fun r => (.fixed .hadamard r : OperationOf I (Parameter R))) q ↔ q ∈ rs := by
    intro rs
    simp [Touches, OperationOf.qubits]
  have hcore : Touches (Interaction.gates .zz qs θ) q ↔ q ∈ qs := by
    match qs with
    | [] => simp [Interaction.gates, cnotLadder]
    | [a] => simp [Interaction.gates, cnotLadder, OperationOf.qubits]
    | a :: b :: rs =>
        have hlast : ∀ r ∈ (a :: b :: rs).getLast?, r ∈ a :: b :: rs :=
          fun r hr => List.mem_of_getLast? hr
        simp only [Interaction.gates, touches_append, touches_reverse, touches_cnotLadder]
        constructor
        · rintro ((h | h) | h)
          · exact h
          · obtain ⟨op, hop, hq⟩ := h
            rw [Option.mem_toList, Option.map_eq_some_iff] at hop
            obtain ⟨r, hr, rfl⟩ := hop
            rw [OperationOf.qubits, List.mem_singleton] at hq
            exact hq ▸ hlast r hr
          · exact h
        · exact fun h => Or.inr h
  cases g with
  | zz => exact hcore
  | ms =>
      change Touches (_ ++ Interaction.gates .zz qs θ ++ _) q ↔ q ∈ qs
      rw [touches_append, touches_append, hcore, hbasis, or_self, or_self]

namespace Controlled

variable [Scalar R]

theorem touches_flipBy {phase : I → Parameter R → List (OperationOf I (Parameter R))}
    {controls : List I} {t : I}
    (hphase : ∀ φ, Touches (phase t φ) q ↔ q ∈ t :: controls) :
    Touches (flipBy phase controls t) q ↔ q ∈ t :: controls := by
  match controls with
  | [] => simp [flipBy, OperationOf.qubits]
  | [c] => simp [flipBy, OperationOf.qubits, or_comm]
  | [d, c] =>
      simp only [flipBy, toffoli, touches_cons, touches_nil, OperationOf.qubits, List.mem_cons,
        List.not_mem_nil, or_false]
      tauto
  | a :: b :: c :: controls =>
      simp only [flipBy, touches_append, touches_cons, touches_nil, hphase, OperationOf.qubits,
        List.mem_singleton, or_false]
      simp only [List.mem_cons]
      tauto

theorem touches_phase (controls : List I) (t : I) (φ : Parameter R) :
    Touches (phase controls t φ) q ↔ q ∈ t :: controls := by
  induction controls generalizing t φ with
  | nil => simp [phase, OperationOf.qubits]
  | cons x controls ih =>
      cases controls with
      | nil => simp [phase, OperationOf.qubits, or_comm]
      | cons y controls =>
          simp only [phase, extend, touches_append, touches_cons,
            touches_flipBy fun φ => ih x φ, ih, OperationOf.qubits, List.mem_cons,
            List.not_mem_nil, or_false]
          tauto

theorem touches_flip (controls : List I) (t : I) :
    Touches (flip controls t : List (OperationOf I (Parameter R))) q ↔ q ∈ t :: controls :=
  touches_flipBy fun φ => touches_phase controls t φ

end Controlled

namespace Fourier

theorem mem_of_touches_swaps {qs : List I}
    (h : Touches (swaps qs : List (OperationOf I (Parameter R))) q) : q ∈ qs := by
  obtain ⟨op, hop, hq⟩ := h
  obtain ⟨⟨a, b⟩, hpair, rfl⟩ := List.mem_map.1 hop
  have hzip := List.of_mem_zip (List.mem_of_mem_take hpair)
  simp only [OperationOf.qubits, List.mem_cons, List.not_mem_nil, or_false] at hq
  rcases hq with rfl | rfl
  · exact hzip.1
  · exact List.mem_reverse.1 hzip.2

variable [Scalar R]

theorem mem_phases {t : I} {l : List (I × ℕ)} {phases : List (OperationOf I (Parameter R))}
    {op : OperationOf I (Parameter R)}
    (h : l.mapM (fun e => do
      let angle ← Scalar.piOver? R e.2
      return OperationOf.controlledPhase e.1 t (.number angle)) = some phases)
    (hop : op ∈ phases) : ∃ e ∈ l, ∃ x, op = .controlledPhase e.1 t (.number x) := by
  induction l generalizing phases with
  | nil =>
      rw [List.mapM_nil, Option.pure_def, Option.some_inj] at h
      exact absurd (h ▸ hop) List.not_mem_nil
  | cons e l ih =>
      simp only [List.mapM_cons, Option.bind_eq_bind, Option.pure_def,
        Option.bind_eq_some_iff, Option.some_inj] at h
      obtain ⟨gate, ⟨angle, -, rfl⟩, rest, hrest, rfl⟩ := h
      rcases List.mem_cons.1 hop with rfl | hop
      · exact ⟨e, List.mem_cons_self, angle, rfl⟩
      · obtain ⟨e', he', x, rfl⟩ := ih hrest hop
        exact ⟨e', List.mem_cons_of_mem e he', x, rfl⟩

theorem touches_gates {qs : List I} {gates : List (OperationOf I (Parameter R))}
    (h : gates? qs = some gates) : Touches gates q ↔ q ∈ qs := by
  induction qs generalizing gates with
  | nil =>
      rw [gates?, Option.some_inj] at h
      simp [← h]
  | cons t qs ih =>
      simp only [gates?, Option.bind_eq_bind, Option.pure_def, Option.bind_eq_some_iff,
        Option.some_inj] at h
      obtain ⟨phases, hphases, rest, hrest, rfl⟩ := h
      have hlisted : Touches phases q → q ∈ t :: qs := by
        rintro ⟨op, hop, hq⟩
        obtain ⟨e, he, x, rfl⟩ := mem_phases hphases hop
        simp only [OperationOf.qubits, List.mem_cons, List.not_mem_nil, or_false] at hq
        rcases hq with rfl | rfl
        · exact List.mem_cons_of_mem _ (List.fst_mem_of_mem_zipIdx he)
        · exact List.mem_cons_self
      rw [touches_append, touches_cons, ih hrest, OperationOf.qubits, List.mem_singleton]
      constructor
      · rintro ((rfl | h) | h)
        · exact List.mem_cons_self
        · exact hlisted h
        · exact List.mem_cons_of_mem _ h
      · intro h
        rcases List.mem_cons.1 h with rfl | h
        · exact Or.inl (Or.inl rfl)
        · exact Or.inr h

theorem touches_inverse (gates : List (OperationOf I (Parameter R))) :
    Touches (gates.reverse.map inverseGate) q ↔ Touches gates q := by
  have hqubits : ∀ op : OperationOf I (Parameter R), (inverseGate op).qubits = op.qubits := by
    intro op
    cases op <;> rfl
  simp [Touches, hqubits]

theorem touches_decomposition {qs : List I} {s i : Bool}
    {gates : List (OperationOf I (Parameter R))} (h : decomposition? qs s i = some gates) :
    Touches gates q ↔ q ∈ qs := by
  simp only [decomposition?, Option.bind_eq_bind, Option.bind_eq_some_iff] at h
  obtain ⟨forward, hforward, h⟩ := h
  have hexchanges : Touches (if s then swaps qs else [] : List (OperationOf I (Parameter R))) q →
      q ∈ qs := by
    cases s
    · exact fun h => absurd h touches_nil
    · exact mem_of_touches_swaps
  cases i with
  | false =>
      simp only [Bool.false_eq_true, if_false, Option.pure_def, Option.some_inj] at h
      rw [← h, touches_append, touches_gates hforward]
      exact or_iff_left_of_imp hexchanges
  | true =>
      simp only [if_true, Option.pure_def, Option.some_inj] at h
      rw [← h, touches_append, touches_inverse, touches_gates hforward]
      exact or_iff_right_of_imp hexchanges

end Fourier

/-- **A decomposition touches the qubits of its gate**, all of them and no others. -/
theorem OperationOf.touches_elementary [Scalar R] {op : OperationOf I (Parameter R)}
    {gates : List (OperationOf I (Parameter R))} (h : op.elementary? = some gates) :
    Touches gates q ↔ q ∈ op.qubits := by
  cases op with
  | interaction g qs θ =>
      rw [elementary?, Option.some_inj] at h
      exact h ▸ touches_interaction g qs θ
  | multiControlledNot qs =>
      change multiControlledNot? qs = some gates at h
      rw [multiControlledNot?] at h
      cases hqs : qs.reverse with
      | nil => simp [hqs] at h
      | cons t controls =>
          rw [hqs, Option.some_inj] at h
          rw [← h, Controlled.touches_flip, ← hqs, List.mem_reverse]
          rfl
  | fourier qs s i => exact Fourier.touches_decomposition h
  | _ => simp [elementary?] at h

end CircuitIR
