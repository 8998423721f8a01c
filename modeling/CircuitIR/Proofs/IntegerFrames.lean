import CircuitIR.Datum.Equality
import CircuitIR.Proofs.GateMatrix
import CircuitIR.Proofs.IndexRenaming
import CircuitIR.Session.Method
import Mathlib.Data.Nat.Bitwise

/-!
# Frames of integers

A session takes the frame of a matrix from a list of values, which it compares as numbers. Whole numbers keep all
their bits when they are brought to lowest terms, so different integers differ as values too, and a list of
integers has a frame in which each listed qubit has a place of its own.
-/

namespace CircuitIR

attribute [local instance (high)] instPowNat

namespace Binary

/-- The lowest one of a positive number, which is what its trailing zeros are counted by. -/
theorem exists_lowestOne (n : ℕ) (hn : 0 < n) : ∃ k, n - (n &&& (n - 1)) = 2 ^ k ∧ 2 ^ k ∣ n := by
  induction n using Nat.strongRecOn with
  | ind n ih =>
      obtain ⟨a, heven | hodd⟩ := Nat.even_or_odd' n
      · have ha : 0 < a := by omega
        obtain ⟨k, hk, hdvd⟩ := ih a (by omega) ha
        have hpred : n - 1 = 2 * (a - 1) + 1 := by omega
        have hand : n &&& (n - 1) = 2 * (a &&& (a - 1)) := by
          rw [hpred, heven]
          apply Nat.eq_of_testBit_eq
          intro i
          rw [Nat.testBit_and]
          cases i <;> simp [Nat.testBit_succ, Nat.mul_add_div]
        refine ⟨k + 1, ?_, ?_⟩
        · rw [hand, heven, ← Nat.mul_sub, hk, pow_succ, Nat.mul_comm]
        · rw [heven, pow_succ, Nat.mul_comm 2 a]
          exact Nat.mul_dvd_mul_right hdvd 2
      · have hand : n &&& (n - 1) = 2 * a := by
          rw [hodd]
          apply Nat.eq_of_testBit_eq
          intro i
          rw [Nat.testBit_and]
          cases i <;> simp [Nat.testBit_succ, Nat.mul_add_div]
        refine ⟨0, ?_, one_dvd n⟩
        rw [hand, hodd]
        omega

theorem two_pow_trailingZeros_dvd (n : ℕ) : 2 ^ trailingZeros n ∣ n := by
  rcases Nat.eq_zero_or_pos n with rfl | hn
  · exact dvd_zero _
  · obtain ⟨k, hk, hdvd⟩ := exists_lowestOne n hn
    rwa [trailingZeros, hk, Nat.log2_two_pow]

/-- A whole number is its mantissa times the power of two that is taken out. -/
theorem mantissa_ofInt (n : ℤ) : (ofInt n).mantissa * 2 ^ (ofInt n).exponent.toNat = n := by
  by_cases hn : n = 0
  · simp [ofInt, scaled, hn]
  · have hdvd : (2 : ℤ) ^ trailingZeros n.natAbs ∣ n := by
      rw [← Int.natAbs_dvd_natAbs, Int.natAbs_pow]
      exact two_pow_trailingZeros_dvd n.natAbs
    have hshift : n >>> trailingZeros n.natAbs = n / 2 ^ trailingZeros n.natAbs :=
      Int.shiftRight_eq_div_pow n _
    simp only [ofInt, scaled, if_neg hn, Int.zero_add, Int.toNat_natCast]
    rw [hshift]
    exact Int.ediv_mul_cancel hdvd

theorem ofInt_injective : Function.Injective ofInt := by
  intro m n h
  rw [← mantissa_ofInt m, ← mantissa_ofInt n, h]

end Binary

namespace Datum

theorem int_equal_int (m n : ℤ) : (int m).equal (int n) = true ↔ m = n := by
  have hequal : (int m).equal (int n) = (some (Binary.ofInt m) == some (Binary.ofInt n)) :=
    Bool.true_and _
  rw [hequal, beq_iff_eq, Option.some_inj, Binary.ofInt_injective.eq_iff]

theorem checkKey_ints (qs : List ℤ) : (qs.map int).forM checkKey = .ok () := by
  induction qs with
  | nil => rfl
  | cons q qs ih => exact ih

theorem writtenAll_ints (qs : List ℤ) : writtenAll (qs.map int) = qs.map toString := by
  induction qs with
  | nil => rfl
  | cons q qs ih => rw [List.map_cons, writtenAll, ih]; rfl

end Datum

namespace Frame

/-- The frame of a list of integers. An integer that is listed twice has its last position. -/
def ofIntegers (qs : List ℤ) : Frame where
  size := qs.length
  position? q := (qs.zipIdx.reverse.find? fun e => e.1 == (q : ℤ)).map (·.2)
  text := listText (qs.map toString)

theorem ofDatum_ints (qs : List ℤ) : ofDatum (.list (qs.map .int)) = .ok (ofIntegers qs) := by
  have hfind : ∀ q : ℤ, ((qs.map Datum.int).zipIdx.reverse.find? fun e => e.1.equal (.int q)).map (·.2)
      = (qs.zipIdx.reverse.find? fun e => e.1 == q).map (·.2) := by
    intro q
    have hequal : ∀ n : ℤ, (Datum.int n).equal (.int q) = (n == q) := fun n =>
      Bool.eq_iff_iff.2 ((Datum.int_equal_int n q).trans beq_iff_eq.symm)
    rw [lastPlace_map fun d : Datum => d.equal (.int q)]
    simp only [hequal]
  have hvalues : (Datum.list (qs.map .int)).elements = .ok (qs.map .int) := rfl
  have htext : (Datum.list (qs.map .int)).written = listText (qs.map toString) :=
    congrArg listText (Datum.writtenAll_ints qs)
  rw [ofDatum, hvalues, ok_bind, Datum.checkKey_ints, ok_bind, htext, List.length_map, ofIntegers]
  simp only [hfind]
  rfl

theorem ofIntegers_map_ofNat (qs : List ℕ) : ofIntegers (qs.map Int.ofNat) = ofList qs := by
  have hfind : ∀ q : ℕ, ((qs.map Int.ofNat).zipIdx.reverse.find? fun e => e.1 == (q : ℤ)).map (·.2)
      = (qs.zipIdx.reverse.find? fun e => e.1 == q).map (·.2) := by
    intro q
    rw [lastPlace_map fun n : ℤ => n == (q : ℤ)]
    simp only [Int.ofNat_eq_natCast, Nat.cast_inj, Bool.beq_eq_decide_eq]
  simp only [ofIntegers, ofList, hfind, List.length_map, List.map_map]
  rfl

theorem isPositioned_ofIntegers (qs : List ℤ) : (ofIntegers qs).IsPositioned where
  lt {q p} h := by
    obtain ⟨r, hr, -⟩ := exists_getElem_of_lastPlace qs (· == (q : ℤ)) h
    exact (List.getElem?_eq_some_iff.1 hr).1
  injective {q q' p} h h' := by
    obtain ⟨r, hr, hq⟩ := exists_getElem_of_lastPlace qs (· == (q : ℤ)) h
    obtain ⟨r', hr', hq'⟩ := exists_getElem_of_lastPlace qs (· == (q' : ℤ)) h'
    apply Int.ofNat_inj.1
    rw [← beq_iff_eq.1 hq, ← beq_iff_eq.1 hq', Option.some.inj (hr.symm.trans hr')]

theorem isSome_position?_ofIntegers {qs : List ℤ} {q : ℕ} :
    ((ofIntegers qs).position? q).isSome = true ↔ (q : ℤ) ∈ qs := by
  refine (isSome_lastPlace qs (· == (q : ℤ))).trans ?_
  simp

end Frame

end CircuitIR
