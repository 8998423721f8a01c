import CircuitIR.Proofs.TouchedQubits
import Mathlib.Data.List.Nodup

/-!
# Gates that decompositions emit

A decomposition of a gate on different qubits consists of gates on one qubit or on two different ones, all
of them qubits of the gate. The generators do not check this: that no qubit is paired with itself comes from
the places at which they read the list. An angle that is not a number is the angle of the gate itself, as it
stands there.
-/

namespace CircuitIR

variable {I R : Type}

namespace OperationOf

/-- The gate is on one or two different qubits of a list, and its angle, if it is symbolic, is listed too. -/
def IsSmallGate (qs : List I) (ps : List (Parameter R)) : OperationOf I (Parameter R) → Prop
  | fixed _ q => q ∈ qs
  | angle _ q θ => q ∈ qs ∧ (θ.isSymbolic = true → θ ∈ ps)
  | pair _ c t => c ∈ qs ∧ t ∈ qs ∧ c ≠ t
  | controlledPhase c t θ => c ∈ qs ∧ t ∈ qs ∧ c ≠ t ∧ (θ.isSymbolic = true → θ ∈ ps)
  | _ => False

variable {qs qs' : List I} {ps ps' : List (Parameter R)} {op : OperationOf I (Parameter R)}

theorem IsSmallGate.mono (h : op.IsSmallGate qs ps) (hqs : ∀ q ∈ qs, q ∈ qs')
    (hps : ∀ p ∈ ps, p ∈ ps') : op.IsSmallGate qs' ps' := by
  cases op with
  | fixed g q => exact hqs q h
  | angle g q θ => exact ⟨hqs q h.1, fun hθ => hps θ (h.2 hθ)⟩
  | pair g c t => exact ⟨hqs c h.1, hqs t h.2.1, h.2.2⟩
  | controlledPhase c t θ => exact ⟨hqs c h.1, hqs t h.2.1, h.2.2.1, fun hθ => hps θ (h.2.2.2 hθ)⟩
  | _ => exact h.elim

theorem IsSmallGate.isGate (h : op.IsSmallGate qs ps) : op.variant.isGate = true := by
  cases op with
  | fixed | angle | pair | controlledPhase => rfl
  | _ => exact h.elim

theorem IsSmallGate.nodup (h : op.IsSmallGate qs ps) : op.qubits.Nodup := by
  cases op with
  | fixed g q | angle g q θ => exact List.nodup_singleton q
  | pair g c t => simpa [qubits] using h.2.2
  | controlledPhase c t θ => simpa [qubits] using h.2.2.1
  | _ => exact h.elim

theorem IsSmallGate.mem_qubits (h : op.IsSmallGate qs ps) : ∀ q ∈ op.qubits, q ∈ qs := by
  cases op with
  | fixed g q => exact List.forall_mem_singleton.2 h
  | angle g q θ => exact List.forall_mem_singleton.2 h.1
  | pair g c t => simpa [qubits] using ⟨h.1, h.2.1⟩
  | controlledPhase c t θ => simpa [qubits] using ⟨h.1, h.2.1⟩
  | _ => exact h.elim

theorem IsSmallGate.mem_parameters (h : op.IsSmallGate qs ps) :
    ∀ p ∈ op.parameters, p.isSymbolic = true → p ∈ ps := by
  cases op with
  | angle g q θ => simpa [parameters] using h.2
  | controlledPhase c t θ => simpa [parameters] using h.2.2.2
  | fixed | pair => exact fun _ hp => absurd hp List.not_mem_nil
  | _ => exact h.elim

end OperationOf

/-- All members of a sequence are such gates. -/
def Small (qs : List I) (ps : List (Parameter R)) (ops : List (OperationOf I (Parameter R))) : Prop :=
  ∀ op ∈ ops, op.IsSmallGate qs ps

section Small

variable {qs qs' : List I} {ps ps' : List (Parameter R)} {op : OperationOf I (Parameter R)}
  {ops ops' : List (OperationOf I (Parameter R))}

@[simp]
theorem small_nil : Small qs ps [] := fun _ h => absurd h List.not_mem_nil

@[simp]
theorem small_cons : Small qs ps (op :: ops) ↔ op.IsSmallGate qs ps ∧ Small qs ps ops :=
  List.forall_mem_cons

@[simp]
theorem small_append : Small qs ps (ops ++ ops') ↔ Small qs ps ops ∧ Small qs ps ops' :=
  List.forall_mem_append

@[simp]
theorem small_reverse : Small qs ps ops.reverse ↔ Small qs ps ops := by
  simp [Small]

theorem Small.mono (h : Small qs ps ops) (hqs : ∀ q ∈ qs, q ∈ qs') (hps : ∀ p ∈ ps, p ∈ ps') :
    Small qs' ps' ops :=
  fun op hop => (h op hop).mono hqs hps

theorem Small.mono_qubits (h : Small qs ps ops) (hqs : ∀ q ∈ qs, q ∈ qs') : Small qs' ps ops :=
  h.mono hqs fun _ => id

end Small

theorem small_cnotLadder {qs : List I} (hqs : qs.Nodup) (ps : List (Parameter R)) :
    Small qs ps (cnotLadder qs) := by
  match qs with
  | [] => exact small_nil
  | [a] => exact small_nil
  | a :: b :: qs =>
      have hab : a ≠ b := fun h => (List.nodup_cons.1 hqs).1 (h ▸ List.mem_cons_self)
      have hrest := small_cnotLadder (List.nodup_cons.1 hqs).2 ps
      refine small_cons.2 ⟨⟨by simp, by simp, hab⟩, hrest.mono_qubits fun q hq => ?_⟩
      exact List.mem_cons_of_mem a hq

theorem small_interaction (g : Interaction) {qs : List I} (hqs : qs.Nodup) (θ : Parameter R) :
    Small qs [θ] (g.gates qs θ) := by
  have hladder := small_cnotLadder hqs [θ]
  have hrotation : Small qs [θ]
      (qs.getLast?.map fun q => OperationOf.angle .rotateZ q θ).toList := by
    intro op hop
    rw [Option.mem_toList, Option.map_eq_some_iff] at hop
    obtain ⟨q, hq, rfl⟩ := hop
    exact ⟨List.mem_of_getLast? hq, fun _ => List.mem_singleton_self θ⟩
  have hbasis : Small qs [θ] (qs.map fun q => OperationOf.fixed .hadamard q) := by
    intro op hop
    obtain ⟨q, hq, rfl⟩ := List.mem_map.1 hop
    exact hq
  cases g <;> simp [Interaction.gates, hladder, hrotation, hbasis]

namespace Controlled

variable [Scalar R]

theorem small_toffoli {c d t : I} (h : [t, d, c].Nodup) :
    Small [t, d, c] ([] : List (Parameter R)) (toffoli c d t) := by
  simp only [List.nodup_cons, List.mem_cons, List.not_mem_nil, or_false, not_or] at h
  obtain ⟨⟨htd, htc⟩, hdc, -⟩ := h
  simp [toffoli, OperationOf.IsSmallGate, minusEighth, Parameter.isSymbolic, Ne.symm htd,
    Ne.symm htc, Ne.symm hdc]

theorem small_flipBy {phase : I → Parameter R → List (OperationOf I (Parameter R))}
    {controls : List I} {t : I} (hdistinct : (t :: controls).Nodup)
    (hphase : ∀ x, Small (t :: controls) [] (phase t (.number x))) :
    Small (t :: controls) [] (flipBy phase controls t) := by
  match controls with
  | [] => simp [flipBy, OperationOf.IsSmallGate]
  | [c] =>
      have hct : c ≠ t := fun h => (List.nodup_cons.1 hdistinct).1 (h ▸ List.mem_cons_self)
      simp [flipBy, OperationOf.IsSmallGate, hct]
  | [d, c] => exact small_toffoli hdistinct
  | a :: b :: c :: controls =>
      simp only [flipBy, small_append, small_cons, small_nil, OperationOf.IsSmallGate]
      exact ⟨⟨List.mem_cons_self, hphase _⟩, List.mem_cons_self, trivial⟩

theorem small_phase {controls : List I} {t : I} (hdistinct : (t :: controls).Nodup) (x : R) :
    Small (t :: controls) [] (phase controls t (.number x)) := by
  induction controls generalizing t x with
  | nil => simp [phase, OperationOf.IsSmallGate, Parameter.isSymbolic]
  | cons c controls ih =>
      have hct : c ≠ t := fun h => (List.nodup_cons.1 hdistinct).1 (h ▸ List.mem_cons_self)
      cases controls with
      | nil => simp [phase, OperationOf.IsSmallGate, Parameter.isSymbolic, hct]
      | cons b controls =>
          -- the last control is the target of the flips, and the target of the phase skips it
          have hflip : Small (t :: c :: b :: controls) []
              (flipBy (R := R) (phase (b :: controls)) (b :: controls) c) := by
            have hdistinct' := (List.nodup_cons.1 hdistinct).2
            exact (small_flipBy hdistinct' fun y => ih hdistinct' y).mono_qubits fun q hq =>
              List.mem_cons_of_mem t hq
          have hrest : Small (t :: c :: b :: controls) []
              (phase (b :: controls) t (.number (Scalar.half x))) := by
            have hdistinct' : (t :: b :: controls).Nodup :=
              hdistinct.sublist (.cons_cons t (.cons c (List.Sublist.refl _)))
            refine (ih hdistinct' _).mono_qubits fun q hq => ?_
            rcases List.mem_cons.1 hq with rfl | hq
            · exact List.mem_cons_self
            · exact List.mem_cons_of_mem t (List.mem_cons_of_mem c hq)
          simp only [phase, extend, small_append, small_cons, Parameter.half, Parameter.neg,
            OperationOf.IsSmallGate, Parameter.isSymbolic]
          simp [hflip, hrest, hct]

theorem small_flip {controls : List I} {t : I} (hdistinct : (t :: controls).Nodup) :
    Small (t :: controls) ([] : List (Parameter R)) (flip controls t) :=
  small_flipBy hdistinct fun x => small_phase hdistinct x

end Controlled

namespace Fourier

theorem small_swaps {qs : List I} (hqs : qs.Nodup) (ps : List (Parameter R)) :
    Small qs ps (swaps qs) := by
  intro op hop
  obtain ⟨⟨a, b⟩, hpair, rfl⟩ := List.mem_map.1 hop
  obtain ⟨i, hi, hab⟩ := List.mem_take_iff_getElem.1 hpair
  rw [List.length_zip, List.length_reverse, Nat.min_self] at hi
  have hlow : i < qs.length / 2 := Nat.lt_of_lt_of_le hi (Nat.min_le_left _ _)
  rw [List.getElem_zip, Prod.mk.injEq, List.getElem_reverse] at hab
  obtain ⟨rfl, rfl⟩ := hab
  refine ⟨List.getElem_mem _, List.getElem_mem _, fun heq => ?_⟩
  have hindex := (hqs.getElem_inj_iff).1 heq
  omega

variable [Scalar R]

theorem small_gates {qs : List I} (hqs : qs.Nodup) {gates : List (OperationOf I (Parameter R))}
    (h : gates? qs = some gates) : Small qs [] gates := by
  induction qs generalizing gates with
  | nil =>
      rw [gates?, Option.some_inj] at h
      exact h ▸ small_nil
  | cons t qs ih =>
      obtain ⟨ht, hqs⟩ := List.nodup_cons.1 hqs
      simp only [gates?, Option.bind_eq_bind, Option.pure_def, Option.bind_eq_some_iff,
        Option.some_inj] at h
      obtain ⟨phases, hphases, rest, hrest, rfl⟩ := h
      have hsmall : Small (t :: qs) [] phases := by
        intro op hop
        obtain ⟨e, he, x, rfl⟩ := mem_phases hphases hop
        have hmem : e.1 ∈ qs := List.fst_mem_of_mem_zipIdx he
        refine ⟨List.mem_cons_of_mem t hmem, List.mem_cons_self, fun heq => ht (heq ▸ hmem), ?_⟩
        exact fun h => absurd h Bool.false_ne_true
      refine small_append.2 ⟨small_cons.2 ⟨List.mem_cons_self, hsmall⟩, ?_⟩
      exact (ih hqs hrest).mono_qubits fun q hq => List.mem_cons_of_mem t hq

theorem small_inverse {qs : List I} {gates : List (OperationOf I (Parameter R))}
    (h : Small qs [] gates) : Small qs [] (gates.reverse.map inverseGate) := by
  intro op hop
  obtain ⟨gate, hgate, rfl⟩ := List.mem_map.1 hop
  have hsmall := h gate (List.mem_reverse.1 hgate)
  cases gate with
  | controlledPhase c t θ =>
      cases θ with
      | number x => exact ⟨hsmall.1, hsmall.2.1, hsmall.2.2.1, fun h => absurd h Bool.false_ne_true⟩
      | symbolic e => exact absurd (hsmall.2.2.2 rfl) List.not_mem_nil
  | _ => exact hsmall

theorem small_decomposition {qs : List I} (hqs : qs.Nodup) {s i : Bool}
    {gates : List (OperationOf I (Parameter R))} (h : decomposition? qs s i = some gates) :
    Small qs [] gates := by
  simp only [decomposition?, Option.bind_eq_bind, Option.bind_eq_some_iff] at h
  obtain ⟨forward, hforward, h⟩ := h
  have hgates := small_gates hqs hforward
  have hexchanges : Small qs [] (if s then swaps qs else [] : List (OperationOf I (Parameter R))) := by
    cases s
    · exact small_nil
    · exact small_swaps hqs []
  cases i with
  | false =>
      simp only [Bool.false_eq_true, if_false, Option.pure_def, Option.some_inj] at h
      exact h ▸ small_append.2 ⟨hgates, hexchanges⟩
  | true =>
      simp only [if_true, Option.pure_def, Option.some_inj] at h
      exact h ▸ small_append.2 ⟨hexchanges, small_inverse hgates⟩

end Fourier

/-- **What decompositions emit.** A gate on different qubits decomposes into gates on one or two different
qubits of its own, and no symbolic angle occurs but its own. -/
theorem OperationOf.small_elementary [Scalar R] {op : OperationOf I (Parameter R)}
    (hdistinct : op.qubits.Nodup) {gates : List (OperationOf I (Parameter R))}
    (h : op.elementary? = some gates) : Small op.qubits op.parameters gates := by
  cases op with
  | interaction g qs θ =>
      rw [elementary?, Option.some_inj] at h
      exact h ▸ small_interaction g hdistinct θ
  | multiControlledNot qs =>
      change multiControlledNot? qs = some gates at h
      rw [multiControlledNot?] at h
      cases hqs : qs.reverse with
      | nil => simp [hqs] at h
      | cons t controls =>
          rw [hqs, Option.some_inj] at h
          have hdistinct' : (t :: controls).Nodup := hqs ▸ List.nodup_reverse.2 hdistinct
          refine h ▸ (Controlled.small_flip hdistinct').mono_qubits fun q hq => ?_
          exact List.mem_reverse.1 (hqs ▸ hq)
  | fourier qs s i => exact Fourier.small_decomposition hdistinct h
  | _ => simp [elementary?] at h

end CircuitIR
