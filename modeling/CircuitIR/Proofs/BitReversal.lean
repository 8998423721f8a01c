import CircuitIR.Proofs.GateAction

/-!
# Bit reversal

Reversing the bits of the number that qubits have is reading the qubits in the opposite order. The swaps
of a Fourier transform exchange each qubit with its mirror image, from the two ends of the list inwards,
and so reverse all bits.
-/

namespace CircuitIR

open Assignment (value write value_lt value_write write_value_eq)

variable {qs : List ℕ} {x : Assignment}

namespace Bits

/-- The bits of a number that qubits have, in reverse order. -/
theorem reverse_value (qs : List ℕ) (x : Assignment) :
    reverse qs.length (value qs x) = value qs.reverse x := by
  change ofBits _ = ofBits (qs.reverse.map x)
  congr 1
  refine List.ext_getElem (by simp) fun i hi _ => ?_
  rw [List.length_map, List.length_range] at hi
  have hp : qs.length - 1 - i < qs.length := by omega
  have hbit := Assignment.bit_value_getElem qs x hp
  rw [bit, show qs.length - 1 - (qs.length - 1 - i) = i by omega] at hbit
  simpa using hbit

theorem reverse_lt (n j : ℕ) : reverse n j < 2 ^ n := by
  have hlt := ofBits_lt ((List.range n).map fun i => j.testBit i)
  rwa [List.length_map, List.length_range] at hlt

theorem reverse_reverse {n j : ℕ} (hj : j < 2 ^ n) : reverse n (reverse n j) = j := by
  have hread : ∃ qs : List ℕ, ∃ x, qs.length = n ∧ value qs x = j := by
    have hlength : (List.range n).length = n := List.length_range
    refine ⟨List.range n, write (List.range n) j fun _ => false, hlength, ?_⟩
    exact value_write List.nodup_range (by rwa [hlength]) _
  obtain ⟨qs, x, rfl, rfl⟩ := hread
  have hback := reverse_value qs.reverse x
  rwa [List.length_reverse, List.reverse_reverse, ← reverse_value] at hback

end Bits

namespace Fourier

/-- The assignment in which some qubits have the values of their mirror images. -/
def mirror (qs : List ℕ) (x : Assignment) : Assignment := write qs (value qs.reverse x) x

theorem value_reverse_lt (qs : List ℕ) (x : Assignment) : value qs.reverse x < 2 ^ qs.length := by
  rw [← List.length_reverse]
  exact value_lt qs.reverse x

theorem value_mirror (hqs : qs.Nodup) (x : Assignment) :
    value qs (mirror qs x) = value qs.reverse x :=
  value_write hqs (value_reverse_lt qs x) x

theorem value_reverse_mirror (hqs : qs.Nodup) (x : Assignment) :
    value qs.reverse (mirror qs x) = value qs x := by
  rw [← Bits.reverse_value, value_mirror hqs, ← Bits.reverse_value,
    Bits.reverse_reverse (value_lt qs x)]

/-- Swaps go from the two ends of a list inwards. -/
theorem swaps_cons_append (a b : ℕ) (middle : List ℕ) :
    (swaps (a :: (middle ++ [b])) : List (Operation ℝ)) = .pair .swap a b :: swaps middle := by
  have hlength : (a :: (middle ++ [b])).length / 2 = middle.length / 2 + 1 := by
    simp
    omega
  have hzip : (a :: (middle ++ [b])).zip (a :: (middle ++ [b])).reverse
      = (a, b) :: (middle.zip middle.reverse ++ [(b, a)]) := by
    rw [List.reverse_cons, List.reverse_append, List.reverse_singleton, List.singleton_append,
      List.cons_append, List.zip_cons_cons, List.zip_append (by simp), List.zip_cons_cons,
      List.zip_nil_left]
  have hhalf : middle.length / 2 ≤ (middle.zip middle.reverse).length := by
    simp
    omega
  rw [swaps, hlength, hzip, List.take_succ_cons, List.take_append_of_le_length hhalf,
    List.map_cons, swaps]

theorem nodup_cons_append {a b : ℕ} {middle : List ℕ} (h : (a :: (middle ++ [b])).Nodup) :
    a ≠ b ∧ a ∉ middle ∧ b ∉ middle ∧ middle.Nodup := by
  rw [List.nodup_cons, List.nodup_append_comm, List.singleton_append, List.nodup_cons,
    List.mem_append, List.mem_singleton, not_or] at h
  exact ⟨h.1.2, h.1.1, h.2.1, h.2.2⟩

/-- The outer qubits change places after the inner ones are mirrored. -/
theorem mirror_cons_append {a b : ℕ} {middle : List ℕ}
    (hdistinct : (a :: (middle ++ [b])).Nodup) (x : Assignment) :
    mirror (a :: (middle ++ [b])) x
      = Function.update (Function.update (mirror middle x) a (x b)) b (x a) := by
  obtain ⟨hab, ha, hb, hmiddle⟩ := nodup_cons_append hdistinct
  set y := Function.update (Function.update (mirror middle x) a (x b)) b (x a) with hy
  have hvalue : value (a :: (middle ++ [b])).reverse x = value (a :: (middle ++ [b])) y := by
    rw [List.reverse_cons, List.reverse_append, List.reverse_singleton, List.singleton_append,
      Assignment.value_append_singleton, Assignment.value_cons, Assignment.value_cons,
      Assignment.value_append_singleton, hy, Assignment.value_update_of_notMem hb,
      Assignment.value_update_of_notMem ha, value_mirror hmiddle, Function.update_self,
      Function.update_of_ne hab, Function.update_self, List.length_reverse, List.length_append,
      List.length_singleton, pow_succ]
    ring
  rw [mirror, hvalue]
  refine write_value_eq fun q hq => ?_
  simp only [List.mem_cons, List.mem_append, List.not_mem_nil, or_false, not_or] at hq
  obtain ⟨hqa, hq, hqb⟩ := hq
  rw [hy, Function.update_of_ne hqb, Function.update_of_ne hqa, mirror,
    Assignment.write_apply_of_notMem hq]

/-- **The swaps of a Fourier transform reverse the order of its qubits.** -/
theorem realizes_swaps (hqs : qs.Nodup) : Realizes (swaps qs) fun ψ x => ψ (mirror qs x) := by
  induction qs using List.bidirectionalRec with
  | nil => exact Realizes.nil
  | singleton a =>
      have hnone : (swaps [a] : List (Operation ℝ)) = [] := by
        simp [swaps]
      rw [hnone]
      refine Realizes.nil.congr fun ψ => ?_
      funext x
      exact congrArg ψ (Assignment.write_value [a] x).symm
  | cons_append a middle b ih =>
      obtain ⟨hab, ha, hb, hmiddle⟩ := nodup_cons_append hqs
      rw [swaps_cons_append]
      refine ((Realizes.single (OperationOf.isConcreteGate_pair .swap hab)).append
        (ih hmiddle)).congr fun ψ => ?_
      funext x
      have hfirst : mirror middle x a = x a := Assignment.write_apply_of_notMem ha _ x
      have hlast : mirror middle x b = x b := Assignment.write_apply_of_notMem hb _ x
      rw [Function.comp_apply, OperationOf.action_swap hab, mirror_cons_append hqs, ← hfirst,
        ← hlast]

end Fourier

end CircuitIR
