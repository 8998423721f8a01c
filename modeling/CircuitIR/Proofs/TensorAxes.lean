import CircuitIR.Matrix.Embedding
import CircuitIR.Proofs.Assignment
import Mathlib.Algebra.BigOperators.Ring.List
import Mathlib.Data.List.Sort

/-!
# Axes of embedded matrices

Sorting the axes of a Kronecker product by their positions gives for each position the place where its axis
stands. Transposing by these places therefore moves the bits of an index from their positions to the places
of the listed axes, and the Kronecker product has the bits at the listed positions in its first factor and
all others in its second. So the embedded matrix is the lifted one.
-/

namespace CircuitIR

variable {n : ℕ} {axes : List ℕ}

namespace Bits

theorem ofBits_append (as bs : List Bool) :
    ofBits (as ++ bs) = ofBits as * 2 ^ bs.length + ofBits bs := by
  induction as with
  | nil => simp
  | cons a as ih =>
      rw [List.cons_append, ofBits_cons, ofBits_cons, ih, List.length_append, pow_add]
      ring

/-- Each bit counts for the power of two of its place. -/
theorem ofBits_map_eq_sum (haxes : axes.Nodup) (f : ℕ → Bool) :
    ofBits (axes.map f)
      = (axes.map fun a => (f a).toNat * 2 ^ (axes.length - 1 - axes.idxOf a)).sum := by
  induction axes with
  | nil => rfl
  | cons a axes ih =>
      rw [List.nodup_cons] at haxes
      have hrest : ∀ b ∈ axes, (a :: axes).length - 1 - (a :: axes).idxOf b
          = axes.length - 1 - axes.idxOf b := by
        intro b hb
        have hne : a ≠ b := fun heq => haxes.1 (heq ▸ hb)
        have hlt : axes.idxOf b < axes.length := List.idxOf_lt_length_of_mem hb
        rw [List.idxOf_cons_ne _ hne, List.length_cons]
        omega
      rw [List.map_cons, ofBits_cons, ih haxes.2, List.map_cons, List.sum_cons, List.length_map,
        List.idxOf_cons_self, List.length_cons, Nat.add_sub_cancel, Nat.sub_zero]
      congr 2
      exact List.map_congr_left fun b hb => by rw [← hrest b hb, List.length_cons, Nat.add_sub_cancel]

theorem select_append (n : ℕ) (axes others : List ℕ) (r : ℕ) :
    select n (axes ++ others) r = select n axes r * 2 ^ others.length + select n others r := by
  rw [select, List.map_append, ofBits_append, List.length_map, select, select]

/-- Numbers have the same bits at some positions exactly if they select the same number there. -/
theorem select_eq_iff {r c : ℕ} :
    select n axes r = select n axes c ↔ ∀ p ∈ axes, bit n p r = bit n p c := by
  induction axes with
  | nil => simp [select]
  | cons a axes ih =>
      have hcons : ∀ k, select n (a :: axes) k
          = (bit n a k).toNat * 2 ^ axes.length + select n axes k := fun k => by
        rw [select, List.map_cons, ofBits_cons, List.length_map, select]
      have hr := select_lt n axes r
      have hc := select_lt n axes c
      rw [hcons, hcons, List.forall_mem_cons, ← ih]
      constructor
      · intro h
        cases hbit : bit n a r <;> cases hbit' : bit n a c <;> simp [hbit, hbit'] at h ⊢ <;> omega
      · rintro ⟨hbit, hselect⟩
        rw [hbit, hselect]

theorem bit_mul_two_pow_add_left {i j p : ℕ} (hj : j < 2 ^ n) (hp : p < n) :
    bit (2 * n) p (i * 2 ^ n + j) = bit n p i := by
  have hposition : 2 * n - 1 - p = n + (n - 1 - p) := by omega
  rw [bit, bit, Nat.mul_comm i, Nat.testBit_two_pow_mul_add _ hj, if_neg (by omega), hposition,
    Nat.add_sub_cancel_left]

theorem bit_mul_two_pow_add_right {i j p : ℕ} (hj : j < 2 ^ n) (hp : p < n) :
    bit (2 * n) (n + p) (i * 2 ^ n + j) = bit n p j := by
  have hposition : 2 * n - 1 - (n + p) = n - 1 - p := by omega
  rw [bit, bit, hposition, Nat.mul_comm i, Nat.testBit_two_pow_mul_add _ hj, if_pos (by omega)]

end Bits

namespace Axes

theorem perm_append_rest (haxes : axes.Nodup) (hrange : ∀ a ∈ axes, a < n) :
    (axes ++ rest n axes).Perm (List.range n) := by
  have hrest : (rest n axes).Nodup := List.nodup_range.filter _
  refine (List.perm_ext_iff_of_nodup ?_ List.nodup_range).2 fun a => ?_
  · refine haxes.append hrest fun a ha hrest => ?_
    simp [rest, ha] at hrest
  · rw [List.mem_append, rest, List.mem_filter, List.mem_range]
    by_cases ha : a ∈ axes
    · simp [ha, hrange a ha]
    · simp [ha]

theorem perm_argsort {order : List ℕ} (horder : order.Perm (List.range n)) :
    (argsort order).Perm (List.range n) := by
  rw [argsort, horder.length_eq, List.length_range]
  exact List.mergeSort_perm _ _

theorem pairwise_argsort (xs : List ℕ) :
    ((argsort xs).map fun i => xs.getD i 0).Pairwise (· ≤ ·) := by
  have hsorted : (argsort xs).Pairwise fun i j => decide (xs.getD i 0 ≤ xs.getD j 0) = true := by
    refine List.pairwise_mergeSort (fun i j k hij hjk => ?_) (fun i j => ?_) _
    · rw [decide_eq_true_eq] at hij hjk ⊢
      exact hij.trans hjk
    · rw [Bool.or_eq_true, decide_eq_true_eq, decide_eq_true_eq]
      exact Nat.le_total _ _
  exact List.pairwise_map.2 (hsorted.imp fun h => of_decide_eq_true h)

/-- Sorting all axes gives for each one the place where it is listed. -/
theorem argsort_eq {order : List ℕ} (horder : order.Perm (List.range n)) :
    argsort order = (List.range n).map order.idxOf := by
  have hlength : order.length = n := by rw [horder.length_eq, List.length_range]
  have hnodup : order.Nodup := horder.nodup_iff.2 List.nodup_range
  have hperm := perm_argsort horder
  have hself : (List.range n).map (fun i => order.getD i 0) = order := by
    apply List.ext_getElem
    · rw [List.length_map, List.length_range, hlength]
    · intro i hi hi'
      simp [hi']
  -- the values in the order of their indices are increasing and are all axes, hence the range itself
  have hvalues : (argsort order).map (fun i => order.getD i 0) = List.range n := by
    have hall : ((argsort order).map fun i => order.getD i 0).Perm (List.range n) := by
      have hmap := hperm.map fun i => order.getD i 0
      rw [hself] at hmap
      exact hmap.trans horder
    exact hall.eq_of_pairwise (fun _ _ _ _ => Nat.le_antisymm) (pairwise_argsort order)
      List.pairwise_le_range
  calc argsort order
      = (argsort order).map fun i => order.idxOf (order.getD i 0) := by
        conv_lhs => rw [← List.map_id (argsort order)]
        refine List.map_congr_left fun i hi => ?_
        have hi : i < order.length := by
          rw [hlength]
          exact List.mem_range.1 (hperm.mem_iff.1 hi)
        simp [hi, hnodup.idxOf_getElem]
    _ = (List.range n).map order.idxOf := by
        rw [← hvalues, List.map_map]
        rfl

theorem source_eq_sum (axes : List ℕ) (k : ℕ) :
    source axes k = (axes.zipIdx.map fun a =>
      (Bits.bit axes.length a.2 k).toNat * 2 ^ (axes.length - 1 - a.1)).sum := by
  rw [List.sum_eq_foldr, List.foldr_map, source]

theorem source_map_range (f : ℕ → ℕ) (n r : ℕ) :
    source ((List.range n).map f) r
      = ((List.range n).map fun t => (Bits.bit n t r).toNat * 2 ^ (n - 1 - f t)).sum := by
  have hzip : ((List.range n).map f).zipIdx = (List.range n).map fun t => (f t, t) := by
    apply List.ext_getElem <;> simp
  rw [source_eq_sum, hzip, List.map_map, List.length_map, List.length_range]
  rfl

/-- Transposing by the places of the axes selects the bits in the order of the axes. -/
theorem source_argsort {order : List ℕ} (horder : order.Perm (List.range n)) (r : ℕ) :
    source (argsort order) r = Bits.select n order r := by
  have hlength : order.length = n := by rw [horder.length_eq, List.length_range]
  have hnodup : order.Nodup := horder.nodup_iff.2 List.nodup_range
  rw [argsort_eq horder, source_map_range, Bits.select, Bits.ofBits_map_eq_sum hnodup, hlength]
  exact (horder.map _).sum_nat.symm

/-- The axes of the rows and those of the columns are transposed apart. -/
theorem source_append {i j : ℕ} (haxes : axes.Perm (List.range n)) (hj : j < 2 ^ n) :
    source (axes ++ axes.map fun a => n + a) (i * 2 ^ n + j)
      = source axes i * 2 ^ n + source axes j := by
  have hlength : axes.length = n := by rw [haxes.length_eq, List.length_range]
  have hlt : ∀ a ∈ axes.zipIdx, a.1 < n ∧ a.2 < n := by
    intro a ha
    have haxis : a.1 ∈ List.range n := haxes.mem_iff.1 (List.fst_mem_of_mem_zipIdx ha)
    have hplace := List.snd_lt_of_mem_zipIdx ha
    exact ⟨List.mem_range.1 haxis, by omega⟩
  simp only [source_eq_sum, List.length_append, List.length_map, hlength, List.zipIdx_append, List.map_append,
    List.sum_append, ← two_mul]
  congr 1
  · rw [← List.sum_map_mul_right]
    refine congrArg List.sum (List.map_congr_left fun a ha => ?_)
    obtain ⟨haxis, hplace⟩ := hlt a ha
    have hpower : 2 * n - 1 - a.1 = n - 1 - a.1 + n := by omega
    rw [Bits.bit_mul_two_pow_add_left hj hplace, hpower, pow_add, mul_assoc]
  · have hshift : (axes.map fun a => n + a).zipIdx (0 + n)
        = axes.zipIdx.map fun a => (n + a.1, n + a.2) := by
      apply List.ext_getElem <;> simp
    rw [hshift, List.map_map]
    refine congrArg List.sum (List.map_congr_left fun a ha => ?_)
    obtain ⟨haxis, hplace⟩ := hlt a ha
    have hpower : 2 * n - 1 - (n + a.1) = n - 1 - a.1 := by omega
    rw [Function.comp_apply, Bits.bit_mul_two_pow_add_right hj hplace, hpower]

end Axes

namespace ComplexMatrix

variable {R : Type} [Scalar R] {positions : List ℕ}

theorem get_transposeAxes {m : ComplexMatrix R} (hrows : m.rows = 2 ^ n) (hcols : m.cols = 2 ^ n)
    (haxes : axes.Perm (List.range n)) {i j : ℕ} (hi : i < 2 ^ n) (hj : j < 2 ^ n) :
    (m.transposeAxes (axes ++ axes.map fun a => n + a)).get i j
      = m.get (Axes.source axes i) (Axes.source axes j) := by
  have hsize : m.entries.size = 2 ^ n * 2 ^ n := by rw [m.size_eq, hrows, hcols]
  have hindex : i * 2 ^ n + j < 2 ^ n * 2 ^ n := DenseMatrix.index_lt hi hj
  simp only [DenseMatrix.get, DenseMatrix.transposeAxes, hcols]
  rw [dif_pos (by simpa [hsize] using hindex), Array.getElem_ofFn, Axes.source_append haxes hj]
  rfl

theorem get_identity {i j : ℕ} (hi : i < n) (hj : j < n) :
    (identity n : ComplexMatrix R).get i j = delta i j :=
  DenseMatrix.get_ofFn _ hi hj

theorem get_kronecker {a b : ComplexMatrix R} {i j k l : ℕ} (hi : i < a.rows) (hj : j < a.cols)
    (hk : k < b.rows) (hl : l < b.cols) :
    (a.kronecker b).get (i * b.rows + k) (j * b.cols + l) = a.get i j * b.get k l := by
  have hdiv : ∀ d x y : ℕ, y < d → (x * d + y) / d = x := by
    intro d x y hy
    rw [Nat.mul_comm, Nat.mul_add_div (by omega), Nat.div_eq_of_lt hy, Nat.add_zero]
  have hmod : ∀ d x y : ℕ, y < d → (x * d + y) % d = y := by
    intro d x y hy
    rw [Nat.mul_comm, Nat.mul_add_mod, Nat.mod_eq_of_lt hy]
  rw [kronecker, DenseMatrix.get_ofFn _ (DenseMatrix.index_lt hi hk) (DenseMatrix.index_lt hj hl),
    hdiv _ _ _ hk, hdiv _ _ _ hl, hmod _ _ _ hk, hmod _ _ _ hl]

/-- The other axes have the same bits exactly if they select the same number. -/
theorem select_rest_eq_iff {r c : ℕ} :
    Bits.select n (Axes.rest n positions) r = Bits.select n (Axes.rest n positions) c
      ↔ Bits.agreeOutside n positions r c = true := by
  rw [Bits.select_eq_iff]
  simp only [Axes.rest, List.mem_filter, List.mem_range, Bits.agreeOutside, List.all_eq_true,
    Bool.or_eq_true, beq_iff_eq]
  constructor
  · intro h p hp
    by_cases hmem : positions.contains p
    · exact Or.inl hmem
    · exact Or.inr (h p ⟨hp, by simpa using hmem⟩)
  · rintro h p ⟨hp, hmem⟩
    exact (h p hp).resolve_left (by simpa using hmem)

/-- **A matrix that is embedded at different positions in range is the lifted one.** -/
theorem embedAxes_eq_lift {m : ComplexMatrix R} (hrows : m.rows = 2 ^ positions.length)
    (hcols : m.cols = 2 ^ positions.length) (hdistinct : positions.Nodup)
    (hrange : ∀ p ∈ positions, p < n) : m.embedAxes positions n = m.lift positions n := by
  set others := Axes.rest n positions with hothers
  have horder : (positions ++ others).Perm (List.range n) := Axes.perm_append_rest hdistinct hrange
  have hsize : 2 ^ positions.length * 2 ^ others.length = 2 ^ n := by
    rw [← pow_add, ← List.length_append, horder.length_eq, List.length_range]
  have hfullRows : (m.kronecker (identity (2 ^ others.length))).rows = 2 ^ n := by
    rw [← hsize, ← hrows]
    rfl
  have hfullCols : (m.kronecker (identity (2 ^ others.length))).cols = 2 ^ n := by
    rw [← hsize, ← hcols]
    rfl
  refine DenseMatrix.ext_get hfullRows hfullCols fun i j hi hj => ?_
  have hi : i < 2 ^ n := hfullRows ▸ hi
  have hj : j < 2 ^ n := hfullCols ▸ hj
  have hlt : ∀ r, Bits.select n positions r < 2 ^ positions.length := Bits.select_lt n positions
  have hltOthers : ∀ r, Bits.select n others r < 2 ^ others.length := Bits.select_lt n others
  calc (m.embedAxes positions n).get i j
      = (m.kronecker (identity (2 ^ others.length))).get
          (Bits.select n (positions ++ others) i) (Bits.select n (positions ++ others) j) := by
        rw [embedAxes, get_transposeAxes hfullRows hfullCols (Axes.perm_argsort horder) hi hj,
          Axes.source_argsort horder, Axes.source_argsort horder]
    _ = m.get (Bits.select n positions i) (Bits.select n positions j)
          * (identity (2 ^ others.length)).get (Bits.select n others i) (Bits.select n others j) := by
        rw [Bits.select_append, Bits.select_append]
        exact get_kronecker (hrows ▸ hlt i) (hcols ▸ hlt j) (hltOthers i) (hltOthers j)
    _ = m.embeddedEntry positions n i j := by
        rw [get_identity (hltOthers i) (hltOthers j), delta, embeddedEntry]
        simp only [hothers, select_rest_eq_iff]
    _ = (m.lift positions n).get i j := (DenseMatrix.get_ofFn _ hi hj).symm

end ComplexMatrix

end CircuitIR
