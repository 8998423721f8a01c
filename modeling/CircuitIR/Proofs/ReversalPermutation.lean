import CircuitIR.Proofs.IntegerFrames
import CircuitIR.Proofs.InverseFourier
import CircuitIR.Session.Function

/-!
# The bit reversal permutation

The table of all reversed numbers is made through texts: a number is written with all its binary digits, zeros in
front included, and the digits are read backwards. This reads its bits from the least significant one on, so the
table is an involution. The exchanges of a Fourier transform move basis states as the table says, and their
matrix is the permutation matrix of the table.
-/

namespace CircuitIR

namespace Bits

/-! ### Binary digits -/

/-- All digits but the last are those of half the number. Zero has a digit too, so the width is positive. -/
theorem digits_succ {n : ℕ} (hn : 0 < n) (j : ℕ) :
    digits (n + 1) j = digits n (j / 2) ++ [Nat.digitChar (j % 2)] := by
  by_cases hj : j < 2
  · have hzeros : List.replicate n '0' = List.replicate (n - 1) '0' ++ ['0'] := by
      rw [← List.replicate_succ', Nat.sub_one_add_one hn.ne']
    rw [digits, digits, Nat.div_eq_of_lt hj, Nat.mod_eq_of_lt hj, Nat.toDigits_of_lt_base hj,
      Nat.toDigits_zero, List.leftpad, List.leftpad, List.length_singleton, List.length_singleton,
      Nat.add_sub_cancel, hzeros]
  · rw [digits, digits, Nat.toDigits_of_base_le Nat.one_lt_two (not_lt.1 hj), List.leftpad,
      List.leftpad, List.length_append, List.length_singleton, Nat.add_sub_add_right,
      List.append_assoc]

/-- Backwards the digits of a number are its bits, from the least significant one on. -/
theorem reverse_digits (n : ℕ) {j : ℕ} (hj : j < 2 ^ (n + 1)) :
    (digits (n + 1) j).reverse
      = (List.range (n + 1)).map fun i => Nat.digitChar (j.testBit i).toNat := by
  have hlast : ∀ j : ℕ, Nat.digitChar (j % 2) = Nat.digitChar (j.testBit 0).toNat := fun j => by
    rw [Nat.testBit_zero]
    rcases Nat.mod_two_eq_zero_or_one j with h | h <;> rw [h] <;> rfl
  induction n generalizing j with
  | zero =>
      have hj : j < 2 := hj
      have hdigits : digits 1 j = [Nat.digitChar (j % 2)] := by
        rw [digits, Nat.toDigits_of_lt_base hj, Nat.mod_eq_of_lt hj]
        rfl
      rw [hdigits, hlast]
      rfl
  | succ n ih =>
      have hhalf : j / 2 < 2 ^ (n + 1) := by
        rw [pow_succ] at hj
        omega
      rw [digits_succ n.succ_pos, List.reverse_append, List.reverse_singleton, ih hhalf, hlast,
        List.range_succ_eq_map (n := n + 1), List.map_cons, List.map_map]
      simp only [Nat.testBit_div_two, List.singleton_append]
      rfl

theorem ofDigitChars_map_digitChar (bits : List Bool) :
    Nat.ofDigitChars 2 (bits.map fun b => Nat.digitChar b.toNat) 0 = ofBits bits := by
  have hstep : ∀ (r : ℕ) (b : Bool), 2 * r + ((Nat.digitChar b.toNat).toNat - '0'.toNat)
      = 2 * r + b.toNat := fun r b => by
    cases b <;> rfl
  rw [Nat.ofDigitChars_eq_foldl, List.foldl_map, ofBits]
  simp only [hstep]

/-! ### The table -/

theorem reversalPermutation_eq (n : ℕ) :
    reversalPermutation n = (List.range (2 ^ n)).map (reverse n) := by
  cases n with
  | zero => rfl
  | succ n =>
      refine List.map_congr_left fun j hj => ?_
      have hbits := reverse_digits n (List.mem_range.1 hj)
      rw [hbits, reverse, ← ofDigitChars_map_digitChar, List.map_map]
      rfl

theorem getElem?_reversalPermutation {n j k : ℕ} :
    (reversalPermutation n)[j]? = some k ↔ j < 2 ^ n ∧ reverse n j = k := by
  rw [reversalPermutation_eq, List.getElem?_eq_some_iff]
  simp

theorem testBit_reverse {n i : ℕ} (hi : i < n) (j : ℕ) :
    (reverse n j).testBit i = j.testBit (n - 1 - i) := by
  have hp : n - 1 - i < (List.range n).length := by
    rw [List.length_range]
    omega
  have hbit := Assignment.bit_value_getElem (List.range n) j.testBit hp
  rw [List.length_range, List.getElem_range, bit, show n - 1 - (n - 1 - i) = i by omega] at hbit
  exact hbit

/-- A table of the numbers with `n` bits in which each has its bits in reverse order. -/
structure IsReversalTable (n : ℕ) (r : List ℕ) : Prop where
  length_eq : r.length = 2 ^ n
  lt : ∀ k ∈ r, k < 2 ^ n
  nodup : r.Nodup
  testBit : ∀ j k : ℕ, r[j]? = some k → ∀ i < n, k.testBit i = j.testBit (n - 1 - i)
  involutive : ∀ j k : ℕ, r[j]? = some k → r[k]? = some j

theorem isReversalTable_reversalPermutation (n : ℕ) :
    IsReversalTable n (reversalPermutation n) where
  length_eq := by rw [reversalPermutation_eq, List.length_map, List.length_range]
  lt k hk := by
    obtain ⟨j, hj⟩ := List.mem_iff_getElem?.1 hk
    rw [← (getElem?_reversalPermutation.1 hj).2]
    exact reverse_lt n j
  nodup := by
    rw [reversalPermutation_eq]
    refine List.nodup_range.map_on fun j hj k hk heq => ?_
    rw [← reverse_reverse (List.mem_range.1 hj), heq, reverse_reverse (List.mem_range.1 hk)]
  testBit j k hk i hi := by
    rw [← (getElem?_reversalPermutation.1 hk).2, testBit_reverse hi]
  involutive j k hk := by
    obtain ⟨hj, rfl⟩ := getElem?_reversalPermutation.1 hk
    exact getElem?_reversalPermutation.2 ⟨reverse_lt n j, reverse_reverse hj⟩

end Bits

/-- The table of a number of bits is given out as a list; without bits it has the one number zero. -/
theorem reversalDatum_int (n : ℕ) :
    reversalDatum (.int n) = .ok (.list (Datum.ofNats (Bits.reversalPermutation n))) := by
  rw [reversalDatum]
  cases n with
  | zero => exact if_pos ((Datum.int_equal_int 0 0).2 rfl)
  | succ n =>
      rw [if_neg (mt (Datum.int_equal_int _ _).1 (Int.natCast_ne_zero.2 n.succ_ne_zero))]
      exact if_neg (Int.not_lt.2 (Int.natCast_nonneg _))

namespace Fourier

open Assignment (value value_lt)
open ComplexMatrix (rowsAt)

variable {qs : List ℕ}

/-! ### Exchanges -/

/-- Exchanges of the qubits in the first half of a list with their mirror images. -/
structure IsMirroring (qs : List ℕ) (ops : List (Operation ℝ)) : Prop where
  length_eq : ops.length = qs.length / 2
  exchange : ∀ i (hi : i < qs.length / 2), ops[i]? = some (.pair .swap qs[i] qs[qs.length - 1 - i])

theorem isMirroring_swaps (qs : List ℕ) : IsMirroring qs (swaps qs) where
  length_eq := by
    rw [swaps, List.length_map, List.length_take, List.length_zip, List.length_reverse]
    omega
  exchange i hi := by
    have hlt : i < (qs.zip qs.reverse).length := by
      rw [List.length_zip, List.length_reverse]
      omega
    rw [swaps, List.getElem?_map, List.getElem?_take_of_lt hi, List.getElem?_eq_getElem hlt,
      List.getElem_zip, List.getElem_reverse]
    rfl

/-- The matrix of the exchanges has a one in each row, in the column with the reversed number. -/
theorem unitary_swaps (hqs : qs.Nodup) :
    (⟨swaps qs⟩ : Circuit ℝ).unitary (some (.ofList qs))
      = .ok (rowsAt (2 ^ qs.length) (Bits.reverse qs.length)) := by
  refine (realizes_swaps hqs).unitaryIn_eq_ok hqs (fun q => mem_of_touches_swaps) ⟨rfl, rfl⟩
    fun ψ => ?_
  funext x
  refine ComplexMatrix.act_rowsAt ?_ (fun q hq => ?_) ψ
  · rw [Bits.reverse_value, value_mirror hqs]
  · exact (Assignment.write_apply_of_notMem hq _ x).symm

theorem hasEntries_reversal (n : ℕ) :
    (rowsAt (2 ^ n) (Bits.reverse n) : ComplexMatrix ℝ).HasEntries (2 ^ n) fun j k =>
      if (Bits.reversalPermutation n)[j]? = some k then 1 else 0 where
  toHasSize := .square _ _
  entry j k hj hk := by
    rw [ComplexMatrix.entry_rowsAt _ hj hk]
    refine if_congr ?_ rfl rfl
    rw [Bits.getElem?_reversalPermutation, and_iff_right hj]

/-- The operation exchanges two qubits. -/
def isExchange (op : Operation ℝ) : Bool := op.variant == .pair .swap

theorem isExchange_inverseGate (op : Operation ℝ) : isExchange (inverseGate op) = isExchange op := by
  cases op <;> rfl

theorem filter_isExchange_swaps (qs : List ℕ) : (swaps qs).filter isExchange = swaps qs := by
  refine List.filter_eq_self.2 fun op hop => ?_
  obtain ⟨e, -, rfl⟩ := List.mem_map.1 hop
  rfl

theorem filter_isExchange_gates (qs : List ℕ) : (gates qs).filter isExchange = [] := by
  refine List.filter_eq_nil_iff.2 fun op hop => ?_
  obtain ⟨q, rfl⟩ | ⟨c, t, x, rfl⟩ := mem_gates hop <;> exact Bool.false_ne_true

theorem filter_isExchange_sequence (qs : List ℕ) (i : Bool) :
    (sequence qs true i).filter isExchange = swaps qs := by
  have hforward := filter_isExchange_gates qs
  have hinverse : ((gates qs).reverse.map inverseGate).filter isExchange = [] := by
    have hkind : isExchange ∘ inverseGate = isExchange := funext isExchange_inverseGate
    rw [List.filter_map, hkind, List.filter_reverse, hforward, List.reverse_nil, List.map_nil]
  cases i with
  | false =>
      change (gates qs ++ swaps qs).filter isExchange = swaps qs
      rw [List.filter_append, hforward, filter_isExchange_swaps, List.nil_append]
  | true =>
      change (swaps qs ++ (gates qs).reverse.map inverseGate).filter isExchange = swaps qs
      rw [List.filter_append, hinverse, filter_isExchange_swaps, List.append_nil]

/-- **Bit reversal is an involution, and exchanges realize it.** The table for any number of bits has each
number below the power of two once, with its bits in reverse order, and applied twice it changes nothing. On any
number of different qubits the transform exchanges each qubit in the first half with its mirror image, and the
matrix of these exchanges has a one exactly where the table leads from the row to the column. -/
theorem reversal_swaps_unitary (n : ℕ) :
    ∃ r, reversalDatum (.int n) = .ok (.list (Datum.ofNats r)) ∧ Bits.IsReversalTable n r
      ∧ ∀ qs : List ℕ, qs.length = n → qs.Nodup → ∃ exchanges m,
        IsMirroring qs exchanges
        ∧ (qs ≠ [] → ∀ i, ∃ ops, (.fourier qs true i : Operation ℝ).decompose.result = .ok ops
          ∧ ops.filter isExchange = exchanges)
        ∧ (⟨exchanges⟩ : Circuit ℝ).unitary (some (.ofList qs)) = .ok m
        ∧ m.HasEntries (2 ^ n) fun j k => if r[j]? = some k then 1 else 0 := by
  refine ⟨_, reversalDatum_int n, Bits.isReversalTable_reversalPermutation n, ?_⟩
  rintro qs rfl hqs
  exact ⟨swaps qs, _, isMirroring_swaps qs,
    fun hne i => ⟨sequence qs true i, decompose_eq_sequence hne true i, filter_isExchange_sequence qs i⟩,
    unitary_swaps hqs, hasEntries_reversal qs.length⟩

theorem reversal_swaps_unitary_three_qubits :
    [3, 0, 1].length = 3 ∧ [3, 0, 1].Nodup ∧ [3, 0, 1] ≠ []
      ∧ reversalDatum (.int 3) = .ok (.list (Datum.ofNats [0, 4, 2, 6, 1, 5, 3, 7]))
      ∧ ∃ ops m, (.fourier [3, 0, 1] true false : Operation ℝ).decompose.result = .ok ops
        ∧ ops.filter isExchange = [.pair .swap 3 1]
        ∧ (⟨[.pair .swap 3 1]⟩ : Circuit ℝ).unitary (some (.ofList [3, 0, 1])) = .ok m
        ∧ m.entry 1 4 = 1 ∧ m.entry 3 6 = 1 ∧ m.entry 1 1 = 0 := by
  have hlength : [3, 0, 1].length = 3 := by decide
  have hqs : [3, 0, 1].Nodup := by decide
  have hne : [3, 0, 1] ≠ [] := by decide
  have htable : reversalDatum (.int 3) = .ok (.list (Datum.ofNats [0, 4, 2, 6, 1, 5, 3, 7])) :=
    rfl
  obtain ⟨r, hr, -, hexchanges⟩ := reversal_swaps_unitary 3
  obtain ⟨exchanges, m, hmirror, hgates, hm, hentries⟩ := hexchanges [3, 0, 1] hlength hqs
  obtain ⟨op, rfl⟩ := List.length_eq_one_iff.1 hmirror.length_eq
  obtain rfl : op = .pair .swap 3 1 := Option.some.inj (hmirror.exchange 0 (by decide))
  have hvalues : Datum.ofNats r = Datum.ofNats [0, 4, 2, 6, 1, 5, 3, 7] :=
    Datum.list.inj (Except.ok.inj (hr.symm.trans htable))
  obtain rfl : r = [0, 4, 2, 6, 1, 5, 3, 7] :=
    List.map_injective_iff.2 (fun _ _ h => Int.ofNat.inj (Datum.int.inj h)) hvalues
  obtain ⟨ops, hops, hfilter⟩ := hgates hne false
  refine ⟨hlength, hqs, hne, htable, ops, m, hops, hfilter, hm, ?_, ?_, ?_⟩
  · rw [hentries.entry 1 4 (by decide) (by decide)]
    rfl
  · rw [hentries.entry 3 6 (by decide) (by decide)]
    rfl
  · rw [hentries.entry 1 1 (by decide) (by decide)]
    rfl

end Fourier

end CircuitIR
