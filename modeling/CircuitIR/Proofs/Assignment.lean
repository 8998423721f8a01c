import CircuitIR.Matrix.Bits
import Mathlib.Data.List.Induction
import Mathlib.Data.List.Nodup
import Mathlib.Logic.Function.Basic
import Mathlib.Tactic.Ring

/-!
# Assignments

An assignment gives a value to every qubit, whether or not a frame mentions it. A list of qubits reads
a number off an assignment, the first qubit being the most significant bit, and a number can be written
back. Rows and columns of matrices are reached through these two functions, so no later proof takes the
bits of an index apart.
-/

namespace CircuitIR

/-- The values of all qubits. -/
abbrev Assignment := ℕ → Bool

namespace Bits

@[simp]
theorem ofBits_nil : ofBits [] = 0 := rfl

theorem ofBits_append_singleton (bits : List Bool) (b : Bool) :
    ofBits (bits ++ [b]) = 2 * ofBits bits + b.toNat := by
  simp [ofBits]

theorem ofBits_cons (b : Bool) (bits : List Bool) :
    ofBits (b :: bits) = b.toNat * 2 ^ bits.length + ofBits bits := by
  induction bits using List.reverseRecOn with
  | nil => simp [ofBits]
  | append_singleton bits c ih =>
      rw [← List.cons_append, ofBits_append_singleton, ih, ofBits_append_singleton,
        List.length_append, List.length_singleton]
      ring

theorem ofBits_lt (bits : List Bool) : ofBits bits < 2 ^ bits.length := by
  induction bits with
  | nil => simp
  | cons b bits ih =>
      rw [ofBits_cons, List.length_cons, pow_succ]
      cases b <;> simp <;> omega

theorem select_lt (n : ℕ) (positions : List ℕ) (r : ℕ) : select n positions r < 2 ^ positions.length := by
  simpa [select] using ofBits_lt (positions.map fun p => bit n p r)

end Bits

namespace Assignment

/-- The number whose bits are the values of some qubits, the first one being the most significant. -/
def value (qs : List ℕ) (x : Assignment) : ℕ := Bits.ofBits (qs.map x)

/-- The assignment in which some qubits have the bits of a number. -/
def write : List ℕ → ℕ → Assignment → Assignment
  | [], _, x => x
  | q :: qs, j, x => Function.update (write qs j x) q (j.testBit qs.length)

variable {qs rs : List ℕ} {q : ℕ} {x y : Assignment}

@[simp]
theorem value_nil (x : Assignment) : value [] x = 0 := rfl

theorem value_cons (q : ℕ) (qs : List ℕ) (x : Assignment) :
    value (q :: qs) x = (x q).toNat * 2 ^ qs.length + value qs x := by
  simp [value, Bits.ofBits_cons]

theorem value_append_singleton (qs : List ℕ) (q : ℕ) (x : Assignment) :
    value (qs ++ [q]) x = 2 * value qs x + (x q).toNat := by
  simp [value, Bits.ofBits_append_singleton]

@[simp]
theorem value_singleton (q : ℕ) (x : Assignment) : value [q] x = (x q).toNat := by
  simp [value_cons]

theorem value_lt (qs : List ℕ) (x : Assignment) : value qs x < 2 ^ qs.length := by
  simpa [value] using Bits.ofBits_lt (qs.map x)

theorem value_congr (h : ∀ q ∈ qs, x q = y q) : value qs x = value qs y := by
  rw [value, value, List.map_congr_left h]

theorem testBit_value_cons (q : ℕ) (qs : List ℕ) (x : Assignment) :
    (value (q :: qs) x).testBit qs.length = x q := by
  rw [value_cons, Nat.mul_comm, Nat.testBit_two_pow_mul_add _ (value_lt qs x)]
  cases x q <;> simp

@[simp]
theorem write_nil (j : ℕ) (x : Assignment) : write [] j x = x := rfl

theorem write_cons (q : ℕ) (qs : List ℕ) (j : ℕ) (x : Assignment) :
    write (q :: qs) j x = Function.update (write qs j x) q (j.testBit qs.length) := rfl

theorem write_apply_of_notMem (hq : q ∉ qs) (j : ℕ) (x : Assignment) : write qs j x q = x q := by
  induction qs with
  | nil => rfl
  | cons r qs ih =>
      rw [List.mem_cons, not_or] at hq
      rw [write_cons, Function.update_of_ne hq.1, ih hq.2]

/-- Only the bits below the number of qubits are written. -/
theorem write_congr {j k : ℕ} (h : ∀ i < qs.length, j.testBit i = k.testBit i)
    (x : Assignment) : write qs j x = write qs k x := by
  induction qs with
  | nil => rfl
  | cons q qs ih =>
      rw [List.length_cons] at h
      rw [write_cons, write_cons, h _ (Nat.lt_succ_self _), ih fun i hi => h i (by omega)]

theorem write_two_pow_add (qs : List ℕ) (j : ℕ) (x : Assignment) :
    write qs (2 ^ qs.length + j) x = write qs j x := by
  apply write_congr
  intro i hi
  exact Nat.testBit_two_pow_add_gt hi j

theorem write_cons_of_lt (q : ℕ) {j : ℕ} (hj : j < 2 ^ qs.length) (x : Assignment) :
    write (q :: qs) j x = Function.update (write qs j x) q false := by
  rw [write_cons, Nat.testBit_lt_two_pow hj]

theorem write_cons_two_pow_add (q : ℕ) {j : ℕ} (hj : j < 2 ^ qs.length) (x : Assignment) :
    write (q :: qs) (2 ^ qs.length + j) x = Function.update (write qs j x) q true := by
  rw [write_cons, write_two_pow_add, Nat.testBit_two_pow_add_eq, Nat.testBit_lt_two_pow hj]
  rfl

/-- What is read off one assignment and written into another copies the values of the qubits. -/
theorem write_value_apply (qs : List ℕ) (q : ℕ) (x y : Assignment) :
    write qs (value qs y) x q = if q ∈ qs then y q else x q := by
  induction qs with
  | nil => simp
  | cons r qs ih =>
      have htail : write qs (value (r :: qs) y) x = write qs (value qs y) x := by
        rw [value_cons]
        cases y r
        · simp
        · simpa using write_two_pow_add qs (value qs y) x
      rw [write_cons, htail, testBit_value_cons]
      by_cases hq : q = r
      · subst hq
        simp
      · simp [ih, hq]

/-- An assignment that agrees with another outside of some qubits is got by writing what they read. -/
theorem write_value_eq (h : ∀ q ∉ qs, x q = y q) : write qs (value qs y) x = y := by
  funext q
  rw [write_value_apply]
  by_cases hq : q ∈ qs
  · rw [if_pos hq]
  · rw [if_neg hq, h q hq]

@[simp]
theorem write_value (qs : List ℕ) (x : Assignment) : write qs (value qs x) x = x :=
  write_value_eq fun _ _ => rfl

/-- What is written on different qubits can be read again. -/
theorem value_write (hqs : qs.Nodup) {j : ℕ} (hj : j < 2 ^ qs.length) (x : Assignment) :
    value qs (write qs j x) = j := by
  induction qs generalizing j with
  | nil =>
      rw [List.length_nil, pow_zero, Nat.lt_one_iff] at hj
      rw [hj, value_nil]
  | cons q qs ih =>
      rw [List.nodup_cons] at hqs
      have hvalue : ∀ b i, i < 2 ^ qs.length →
          value qs (Function.update (write qs i x) q b) = i := by
        intro b i hi
        rw [← ih hqs.2 hi]
        refine value_congr fun r hr => ?_
        rw [ih hqs.2 hi, Function.update_of_ne (ne_of_mem_of_not_mem hr hqs.1)]
      rw [List.length_cons, pow_succ] at hj
      by_cases hlow : j < 2 ^ qs.length
      · rw [write_cons_of_lt q hlow, value_cons, hvalue _ _ hlow]
        simp
      · obtain ⟨i, rfl⟩ := Nat.exists_eq_add_of_le (not_lt.1 hlow)
        have hi : i < 2 ^ qs.length := by omega
        rw [write_cons_two_pow_add q hi, value_cons, hvalue _ _ hi]
        simp

/-- The assignment with the bits of a number on some qubits, and with zeros elsewhere. -/
def ofIndex (qs : List ℕ) (j : ℕ) : Assignment := write qs j fun _ => false

theorem ofIndex_congr (hq : q ∉ qs) (j k : ℕ) : ofIndex qs j q = ofIndex qs k q := by
  rw [ofIndex, ofIndex, write_apply_of_notMem hq, write_apply_of_notMem hq]

theorem value_ofIndex (hqs : qs.Nodup) {j : ℕ} (hj : j < 2 ^ qs.length) :
    value qs (ofIndex qs j) = j := value_write hqs hj _

theorem write_apply_congr (h : q ∉ qs → x q = y q) (j : ℕ) : write qs j x q = write qs j y q := by
  induction qs with
  | nil => exact h List.not_mem_nil
  | cons r qs ih =>
      by_cases hq : q = r
      · simp [write_cons, hq]
      · rw [write_cons, write_cons, Function.update_of_ne hq, Function.update_of_ne hq]
        exact ih fun hmem => h (by simp [hq, hmem])

@[simp]
theorem write_write (qs : List ℕ) (j k : ℕ) (x : Assignment) :
    write qs j (write qs k x) = write qs j x := by
  funext q
  exact write_apply_congr (fun hq => write_apply_of_notMem hq k x) j

theorem write_update_of_notMem (hq : q ∉ qs) (j : ℕ) (b : Bool) (x : Assignment) :
    write qs j (Function.update x q b) = Function.update (write qs j x) q b := by
  funext r
  by_cases hr : r = q
  · subst hr
    rw [write_apply_of_notMem hq, Function.update_self, Function.update_self]
  · rw [Function.update_of_ne hr]
    exact write_apply_congr (fun _ => Function.update_of_ne hr _ _) j

theorem update_of_eq {b : Bool} (h : x q = b) : Function.update x q b = x :=
  h ▸ Function.update_eq_self q x

theorem value_update_of_notMem (hq : q ∉ qs) (b : Bool) (x : Assignment) :
    value qs (Function.update x q b) = value qs x :=
  value_congr fun _ hr => Function.update_of_ne (ne_of_mem_of_not_mem hr hq) _ _

theorem value_write_of_disjoint (h : ∀ q ∈ qs, q ∉ rs) (j : ℕ) (x : Assignment) :
    value qs (write rs j x) = value qs x :=
  value_congr fun q hq => write_apply_of_notMem (h q hq) j x

theorem write_comm (h : ∀ q ∈ qs, q ∉ rs) (j k : ℕ) (x : Assignment) :
    write qs j (write rs k x) = write rs k (write qs j x) := by
  funext q
  by_cases hq : q ∈ qs
  · rw [write_apply_of_notMem (h q hq)]
    exact write_apply_congr (fun hnot => absurd hq hnot) j
  · rw [write_apply_of_notMem hq]
    exact write_apply_congr (fun _ => (write_apply_of_notMem hq j x).symm) k

theorem bit_value_getElem (qs : List ℕ) (x : Assignment) {p : ℕ} (hp : p < qs.length) :
    Bits.bit qs.length p (value qs x) = x qs[p] := by
  induction qs generalizing p with
  | nil => exact absurd hp (Nat.not_lt_zero p)
  | cons q qs ih =>
      cases p with
      | zero => exact testBit_value_cons q qs x
      | succ p =>
          have hp' : p < qs.length := Nat.lt_of_succ_lt_succ hp
          have hposition : qs.length + 1 - 1 - (p + 1) = qs.length - 1 - p := by omega
          rw [List.getElem_cons_succ, ← ih hp', Bits.bit, Bits.bit, List.length_cons, hposition,
            value_cons, Nat.mul_comm, Nat.testBit_two_pow_mul_add _ (value_lt qs x),
            if_pos (by omega)]

end Assignment

end CircuitIR
