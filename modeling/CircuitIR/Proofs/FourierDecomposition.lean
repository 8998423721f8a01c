import CircuitIR.Proofs.BitReversal

/-!
# Decomposition of the Fourier transform

The first qubit of a transform is the most significant bit of a column and, without swaps, the least
significant bit of a row. A product of such a row and column splits into the product for the other
qubits, a sign for the first qubit alone, and a power of the root of unity that the phases supply
(`coefficient_succ`). The transform of the list follows by induction, for both directions at once: the
inverse exchanges the roles of rows and columns and the order of the gates.
-/

namespace CircuitIR.Fourier

open Assignment (value write value_lt value_write)
open OperationOf (action_controlledPhase action_hadamard isConcreteGate_controlledPhase
  isConcreteGate_fixed)

/-! ### Roots of unity -/

/-- The root of unity of the transform on `n` qubits, or of its inverse. -/
noncomputable def root (inverse : Bool) (n : ℕ) : ℂ :=
  turn (if inverse then -Scalar.piOver n else Scalar.piOver n) true ^ 2

variable {i : Bool} {n : ℕ}

theorem turn_eq_root (i : Bool) (k : ℕ) :
    turn (if i then -Scalar.piOver k else Scalar.piOver k) true = root i (k + 1) := by
  rw [root, turn_true, turn_true, ← Complex.exp_nat_mul, ← Scalar.two_mul_piOver_succ k]
  congr 1
  cases i <;> simp <;> ring

theorem root_succ_sq (i : Bool) (n : ℕ) : root i (n + 1) ^ 2 = root i n := by
  rw [← turn_eq_root, root]

theorem root_false (n : ℕ) :
    root false n = Complex.exp ((2 : ℕ) * Real.pi * Complex.I / (2 ^ n : ℕ)) := by
  rw [root, turn_true, ← Complex.exp_nat_mul, if_neg Bool.false_ne_true, Scalar.piOver]
  congr 1
  push_cast
  ring

theorem root_one (i : Bool) : root i 1 = -1 := by
  rw [← turn_eq_root, Scalar.piOver_zero]
  cases i <;> simp [Complex.exp_neg]

theorem root_add_pow (i : Bool) (n k : ℕ) : root i (n + k) ^ 2 ^ n = root i k := by
  induction n with
  | zero => simp
  | succ n ih => rw [pow_succ', pow_mul, Nat.add_right_comm, root_succ_sq, ih]

/-- A coefficient of the transform on `n` qubits, at the product of its row and its column. -/
noncomputable def coefficient (i : Bool) (n k : ℕ) : ℂ := root i n ^ k / √((2 ^ n : ℕ) : ℝ)

/-- **One qubit of a transform.** The row ends with the bit `b`, the column starts with the bit `c`. -/
theorem coefficient_succ (i : Bool) (n s v : ℕ) (b c : Bool) :
    coefficient i (n + 1) ((2 * s + b.toNat) * (c.toNat * 2 ^ n + v))
      = ((√2 : ℝ) : ℂ)⁻¹ * (if b && c then -1 else 1) * (if b then root i (n + 1) ^ v else 1)
        * coefficient i n (s * v) := by
  have hexponent : (2 * s + b.toNat) * (c.toNat * 2 ^ n + v)
      = 2 * (s * v) + 2 ^ n * (2 * (s * c.toNat) + b.toNat * c.toNat) + b.toNat * v := by ring
  have hsign : (-1 : ℂ) ^ (2 * (s * c.toNat) + b.toNat * c.toNat) = if b && c then -1 else 1 := by
    rw [pow_add, pow_mul, neg_one_sq, one_pow, one_mul]
    cases b <;> cases c <;> simp
  have hphase : root i (n + 1) ^ (b.toNat * v) = if b then root i (n + 1) ^ v else 1 := by
    cases b <;> simp
  have hnorm : √((2 ^ (n + 1) : ℕ) : ℝ) = √2 * √((2 ^ n : ℕ) : ℝ) := by
    rw [pow_succ', Nat.cast_mul, Real.sqrt_mul (Nat.cast_nonneg 2), Nat.cast_ofNat]
  rw [coefficient, coefficient, hexponent, pow_add, pow_add, pow_mul _ 2, pow_mul _ (2 ^ n),
    root_succ_sq, root_add_pow, root_one, hsign, hphase, hnorm, Complex.ofReal_mul]
  field_simp

theorem coefficient_true (n k : ℕ) :
    coefficient true n k = (starRingEnd ℂ) (coefficient false n k) := by
  have hroot : root true n = (starRingEnd ℂ) (root false n) := by
    rw [root, root, map_pow, turn_true, turn_true, ← Complex.exp_conj, map_mul, Complex.conj_ofReal,
      Complex.conj_I]
    simp
  rw [coefficient, coefficient, map_div₀, map_pow, Complex.conj_ofReal, hroot]

theorem toComplex_fourierEntry (n : ℕ) (i : Bool) (j k : ℕ) :
    (fourierEntry n i j k : Amplitude ℝ).toComplex = coefficient i n (j * k) := by
  have hforward :
      (fourierEntry n false j k : Amplitude ℝ).toComplex = coefficient false n (j * k) := by
    have hroot : Complex.exp (((2 * Real.pi * ((j * k : ℕ) : ℝ) / ((2 ^ n : ℕ) : ℝ) : ℝ) : ℂ)
        * Complex.I) = root false n ^ (j * k) := by
      rw [root_false, ← Complex.exp_nat_mul]
      congr 1
      push_cast
      ring
    change ((Amplitude.phase (2 * Real.pi * ((j * k : ℕ) : ℝ) / ((2 ^ n : ℕ) : ℝ))).divReal
      (√((2 ^ n : ℕ) : ℝ))).toComplex = _
    rw [Amplitude.toComplex_divReal, Amplitude.toComplex_phase, hroot, coefficient]
  cases i with
  | false => exact hforward
  | true =>
      change (fourierEntry n false j k : Amplitude ℝ).conj.toComplex = _
      rw [Amplitude.toComplex_conj, hforward, coefficient_true]

/-! ### Gates -/

variable {qs : List ℕ} {t : ℕ}

/-- The phases that qubits put on a target, by their distance from it. -/
noncomputable def phases (t k : ℕ) (qs : List ℕ) : List (Operation ℝ) :=
  (qs.zipIdx k).map fun e => .controlledPhase e.1 t (.number (Scalar.piOver e.2))

/-- The gates of the transform without swaps. -/
noncomputable def gates : List ℕ → List (Operation ℝ)
  | [] => []
  | t :: qs => .fixed .hadamard t :: phases t 1 qs ++ gates qs

/-- Exact angles are never out of range. -/
theorem gates?_eq (qs : List ℕ) : gates? qs = some (gates qs) := by
  induction qs with
  | nil => rfl
  | cons t qs ih =>
      have hphases : ((qs.zipIdx 1).mapM fun e : ℕ × ℕ => do
          let angle ← Scalar.piOver? ℝ e.2
          return (.controlledPhase e.1 t (.number angle) : Operation ℝ)) = some (phases t 1 qs) :=
        List.mapM_pure
      simp only [gates?, gates, ih, hphases]
      rfl

/-- Gates in the order and with the angles of a direction. -/
noncomputable def directed (i : Bool) (ops : List (Operation ℝ)) : List (Operation ℝ) :=
  if i then ops.reverse.map inverseGate else ops

theorem realizes_directed_append {ops ops' : List (Operation ℝ)} {T U : Wave → Wave}
    (h : Realizes (directed i ops) T) (h' : Realizes (directed i ops') U) :
    Realizes (directed i (ops ++ ops')) (if i then T ∘ U else U ∘ T) := by
  cases i with
  | false => exact h.append h'
  | true =>
      have happend : directed true (ops ++ ops') = directed true ops' ++ directed true ops := by
        simp [directed]
      rw [happend]
      exact h'.append h

theorem realizes_phases (i : Bool) (ht : t ∉ qs) (k : ℕ) :
    Realizes (directed i (phases t k qs)) fun ψ x =>
      (if x t then root i (qs.length + k) ^ value qs x else 1) * ψ x := by
  induction qs generalizing k with
  | nil =>
      have hnone : directed i (phases t k []) = [] := by
        cases i <;> rfl
      rw [hnone]
      exact Realizes.nil.congr fun ψ => by simp
  | cons q qs ih =>
      rw [List.mem_cons, not_or] at ht
      have hphase : Realizes (directed i [.controlledPhase q t (.number (Scalar.piOver k))])
          fun ψ x => (if x q && x t then root i (k + 1) else 1) * ψ x := by
        have hsingle : directed i [.controlledPhase q t (.number (Scalar.piOver k))]
            = [.controlledPhase q t
                (.number (if i then -Scalar.piOver k else Scalar.piOver k))] := by
          cases i <;> rfl
        rw [hsingle]
        refine (Realizes.single (isConcreteGate_controlledPhase (Ne.symm ht.1) _)).congr
          fun ψ => ?_
        rw [action_controlledPhase]
        funext x
        rw [← turn_eq_root]
        cases x q && x t <;> rfl
      refine (realizes_directed_append hphase (ih ht.2 (k + 1))).congr fun ψ => ?_
      funext x
      have hpower : root i (qs.length + 1 + k) ^ value (q :: qs) x
          = (if x q then root i (k + 1) else 1) * root i (qs.length + (k + 1)) ^ value qs x := by
        rw [Assignment.value_cons, pow_add, mul_comm (x q).toNat, pow_mul, add_assoc,
          add_comm 1 k, root_add_pow]
        cases x q <;> simp
      rw [List.length_cons, hpower]
      cases i <;> simp only [if_true, if_false, Bool.false_eq_true, Function.comp_apply] <;>
        cases x q <;> cases x t <;> simp [mul_assoc, mul_left_comm]

/-! ### Transforms of waves -/

/-- The coefficient between two assignments, the first of which is read backwards. -/
noncomputable def kernel (i : Bool) (qs : List ℕ) (x y : Assignment) : ℂ :=
  coefficient i qs.length (value qs.reverse x * value qs y)

/-- The transform without swaps, and its inverse with the conjugate transposed kernel. -/
noncomputable def transform (i : Bool) (qs : List ℕ) (ψ : Wave) : Wave := fun x =>
  ∑ j ∈ Finset.range (2 ^ qs.length),
    (if i then kernel true qs (write qs j x) x else kernel false qs x (write qs j x))
      * ψ (write qs j x)

theorem kernel_cons (i : Bool) (t : ℕ) (qs : List ℕ) (x y : Assignment) :
    kernel i (t :: qs) x y
      = ((√2 : ℝ) : ℂ)⁻¹ * (if x t && y t then -1 else 1)
        * (if x t then root i (qs.length + 1) ^ value qs y else 1) * kernel i qs x y := by
  rw [kernel, List.reverse_cons, Assignment.value_append_singleton, Assignment.value_cons,
    List.length_cons, coefficient_succ, kernel]

theorem kernel_congr {x x' y y' : Assignment} (hx : ∀ q ∈ qs, x q = x' q)
    (hy : ∀ q ∈ qs, y q = y' q) : kernel i qs x y = kernel i qs x' y' := by
  rw [kernel, kernel, Assignment.value_congr hy,
    Assignment.value_congr fun q hq => hx q (List.mem_reverse.1 hq)]

theorem kernel_update_left (ht : t ∉ qs) (b : Bool) (x y : Assignment) :
    kernel i qs (Function.update x t b) y = kernel i qs x y :=
  kernel_congr (fun _ hq => Function.update_of_ne (ne_of_mem_of_not_mem hq ht) _ _)
    fun _ _ => rfl

theorem kernel_update_right (ht : t ∉ qs) (b : Bool) (x y : Assignment) :
    kernel i qs x (Function.update y t b) = kernel i qs x y :=
  kernel_congr (fun _ _ => rfl)
    fun _ hq => Function.update_of_ne (ne_of_mem_of_not_mem hq ht) _ _

/-- A sum over the values of a list splits by the value of its first qubit. -/
theorem sum_write_cons (t : ℕ) (qs : List ℕ) (f : Assignment → ℂ) (x : Assignment) :
    ∑ j ∈ Finset.range (2 ^ (t :: qs).length), f (write (t :: qs) j x)
      = ∑ j ∈ Finset.range (2 ^ qs.length), (f (Function.update (write qs j x) t false)
          + f (Function.update (write qs j x) t true)) := by
  rw [List.length_cons, pow_succ, mul_two, Finset.sum_range_add, Finset.sum_add_distrib]
  congr 1 <;> refine Finset.sum_congr rfl fun j hj => ?_
  · rw [Assignment.write_cons_of_lt t (Finset.mem_range.1 hj)]
  · rw [Assignment.write_cons_two_pow_add t (Finset.mem_range.1 hj)]

theorem realizes_hadamard (i : Bool) (t : ℕ) :
    Realizes (directed i [.fixed .hadamard t]) (.fixed .hadamard t : Operation ℝ).action := by
  have hsingle : directed i [.fixed .hadamard t] = [.fixed .hadamard t] := by
    cases i <;> rfl
  rw [hsingle]
  exact .single (isConcreteGate_fixed .hadamard t)

/-- **The gates without swaps are the transform of their qubits**, in both directions. -/
theorem realizes_gates (i : Bool) (hqs : qs.Nodup) :
    Realizes (directed i (gates qs)) (transform i qs) := by
  induction qs with
  | nil =>
      have hnone : directed i (gates []) = [] := by
        cases i <;> rfl
      rw [hnone]
      refine Realizes.nil.congr fun ψ => ?_
      funext x
      cases i <;> simp [transform, kernel, coefficient]
  | cons t qs ih =>
      obtain ⟨ht, hqs⟩ := List.nodup_cons.1 hqs
      have hstep := realizes_directed_append (realizes_hadamard i t) (realizes_phases i ht 1)
      refine (realizes_directed_append hstep (ih hqs)).congr fun ψ => ?_
      funext x
      have houtside : ∀ j, write qs j x t = x t := fun j =>
        Assignment.write_apply_of_notMem ht j x
      rw [transform, sum_write_cons t qs fun y =>
        (if i then kernel true (t :: qs) y x else kernel false (t :: qs) x y) * ψ y]
      cases i with
      | false =>
          simp only [Bool.false_eq_true, if_false, Function.comp_apply, transform]
          refine Finset.sum_congr rfl fun j hj => ?_
          simp only [action_hadamard, kernel_cons, kernel_update_right ht, Function.update_self,
            Assignment.value_update_of_notMem ht, houtside]
          cases x t <;> simp <;> ring
      | true =>
          simp only [if_true, Function.comp_apply, transform, action_hadamard]
          simp only [kernel_cons, kernel_update_left ht, kernel_update_right ht,
            Function.update_self, Assignment.value_update_of_notMem ht,
            Assignment.write_update_of_notMem ht]
          rw [Finset.mul_sum, Finset.mul_sum, Finset.mul_sum, ← Finset.sum_add_distrib,
            Finset.mul_sum]
          refine Finset.sum_congr rfl fun j hj => ?_
          cases x t <;> simp <;> ring

/-! ### Closed forms -/

theorem kernel_write_right (hqs : qs.Nodup) {j : ℕ} (hj : j < 2 ^ qs.length) (x y : Assignment) :
    kernel i qs y (write qs j x) = coefficient i qs.length (value qs.reverse y * j) := by
  rw [kernel, value_write hqs hj]

theorem kernel_write_left (hqs : qs.Nodup) {j : ℕ} (hj : j < 2 ^ qs.length) (x y : Assignment) :
    kernel i qs (write qs j x) y
      = coefficient i qs.length (value qs y * Bits.reverse qs.length j) := by
  rw [kernel, ← Bits.reverse_value, value_write hqs hj, mul_comm]

theorem action_fourier (hne : qs ≠ []) (s i : Bool) (ψ : Wave) :
    (.fourier qs s i : Operation ℝ).action ψ = fun x =>
      ∑ j ∈ Finset.range (2 ^ qs.length),
        (if s then coefficient i qs.length (value qs x * j)
          else if i then coefficient i qs.length (value qs x * Bits.reverse qs.length j)
          else coefficient i qs.length (value qs.reverse x * j)) * ψ (write qs j x) := by
  funext x
  rw [OperationOf.action_eq_act (OperationOf.unitary_fourier hne s i)]
  change ComplexMatrix.act (fourierUnitary qs.length s i) qs ψ x = _
  rw [fourierUnitary, ComplexMatrix.act_square]
  refine Finset.sum_congr rfl fun j _ => ?_
  cases s <;> cases i <;> simp [toComplex_fourierEntry, Bits.reverse_value]

/-- Swaps after the transform bring its rows into order. -/
theorem transform_mirror (hqs : qs.Nodup) (ψ : Wave) (x : Assignment) :
    transform false qs ψ (mirror qs x)
      = ∑ j ∈ Finset.range (2 ^ qs.length),
          coefficient false qs.length (value qs x * j) * ψ (write qs j x) := by
  refine Finset.sum_congr rfl fun j hj => ?_
  rw [if_neg Bool.false_ne_true, kernel_write_right hqs (Finset.mem_range.1 hj),
    value_reverse_mirror hqs, mirror, Assignment.write_write]

/-- Swaps before the inverse transform bring its columns into order. -/
theorem transform_comp_mirror (hqs : qs.Nodup) (ψ : Wave) (x : Assignment) :
    transform true qs (fun y => ψ (mirror qs y)) x
      = ∑ j ∈ Finset.range (2 ^ qs.length),
          coefficient true qs.length (value qs x * j) * ψ (write qs j x) := by
  have hmirror : ∀ j < 2 ^ qs.length,
      mirror qs (write qs j x) = write qs (Bits.reverse qs.length j) x := by
    intro j hj
    rw [mirror, Assignment.write_write, ← Bits.reverse_value, value_write hqs hj]
  have hback : ∀ j ∈ Finset.range (2 ^ qs.length),
      Bits.reverse qs.length (Bits.reverse qs.length j) = j := fun j hj =>
    Bits.reverse_reverse (Finset.mem_range.1 hj)
  have hrange : ∀ j ∈ Finset.range (2 ^ qs.length),
      Bits.reverse qs.length j ∈ Finset.range (2 ^ qs.length) := fun j _ =>
    Finset.mem_range.2 (Bits.reverse_lt _ j)
  refine Finset.sum_nbij' (Bits.reverse qs.length) (Bits.reverse qs.length) hrange hrange hback
    hback fun j hj => ?_
  rw [if_pos rfl, kernel_write_left hqs (Finset.mem_range.1 hj), ← hmirror j (Finset.mem_range.1 hj)]

theorem exists_realizes (hqs : qs.Nodup) (hne : qs ≠ []) (s i : Bool) :
    ∃ ops, decomposition? qs s i = some ops
      ∧ Realizes ops (.fourier qs s i : Operation ℝ).action := by
  have hgates := realizes_gates i hqs
  have hswaps := realizes_swaps hqs
  cases s with
  | false =>
      refine ⟨directed i (gates qs), ?_, hgates.congr fun ψ => ?_⟩
      · rw [decomposition?, gates?_eq]
        cases i <;> simp [directed]
      · rw [action_fourier hne]
        funext x
        refine Finset.sum_congr rfl fun j hj => ?_
        have hj := Finset.mem_range.1 hj
        cases i
        · simp [kernel_write_right hqs hj]
        · simp [kernel_write_left hqs hj]
  | true =>
      cases i with
      | false =>
          refine ⟨gates qs ++ swaps qs, ?_, (hgates.append hswaps).congr fun ψ => ?_⟩
          · rw [decomposition?, gates?_eq]
            rfl
          · rw [action_fourier hne]
            funext x
            exact transform_mirror hqs ψ x
      | true =>
          refine ⟨swaps qs ++ directed true (gates qs), ?_, (hswaps.append hgates).congr fun ψ => ?_⟩
          · rw [decomposition?, gates?_eq]
            rfl
          · rw [action_fourier hne]
            funext x
            exact transform_comp_mirror hqs ψ x

/-- An entry of the discrete Fourier transform in a dimension. -/
noncomputable def dft (d j k : ℕ) : ℂ :=
  Complex.exp ((2 : ℕ) * Real.pi * Complex.I / d) ^ (j * k) / √(d : ℝ)

theorem toComplex_fourierEntry_eq_dft (n : ℕ) (i : Bool) (j k : ℕ) :
    (fourierEntry n i j k : Amplitude ℝ).toComplex
      = if i then (starRingEnd ℂ) (dft (2 ^ n) j k) else dft (2 ^ n) j k := by
  have hdft : dft (2 ^ n) j k = coefficient false n (j * k) := by
    rw [dft, coefficient, root_false]
  rw [toComplex_fourierEntry, hdft, ← coefficient_true]
  cases i <;> rfl

theorem hasEntries_fourier (n : ℕ) (s i : Bool) :
    (fourierUnitary n s i).HasEntries (2 ^ n) fun j k =>
      if i then (starRingEnd ℂ) (dft (2 ^ n) j (if s then k else Bits.reverse n k))
      else dft (2 ^ n) (if s then j else Bits.reverse n j) k := by
  refine ⟨⟨rfl, rfl⟩, fun j k hj hk => ?_⟩
  rw [fourierUnitary, ComplexMatrix.entry_square _ hj hk]
  cases s <;> cases i <;> simp [toComplex_fourierEntry_eq_dft]

/-- **The decomposition of the Fourier transform is exact.** On any number of different qubits, with or
without swaps and in both directions, the gates on one and two qubits have the matrix of the transform.
Its entries are those of the discrete Fourier transform or their conjugates, with the rows in
bit-reversed order without swaps, or the columns in the inverse. -/
theorem decompose_fourier_unitary (hqs : qs.Nodup) (hne : qs ≠ []) (s i : Bool) :
    ∃ ops m, (.fourier qs s i : Operation ℝ).decompose.result = .ok ops ∧ Elementary ops
      ∧ (⟨ops⟩ : Circuit ℝ).unitary (some (.ofList qs)) = .ok m
      ∧ (.fourier qs s i : Operation ℝ).unitary = .ok m
      ∧ m.HasEntries (2 ^ qs.length) fun j k =>
        if i then
          (starRingEnd ℂ) (dft (2 ^ qs.length) j (if s then k else Bits.reverse qs.length k))
        else dft (2 ^ qs.length) (if s then j else Bits.reverse qs.length j) k := by
  have hgate : (.fourier qs s i : Operation ℝ).IsConcreteGate := ⟨rfl, rfl, hqs, hne⟩
  have hunitary := OperationOf.unitary_fourier hne s i
  obtain ⟨ops, hops, hrealizes⟩ := exists_realizes hqs hne s i
  refine ⟨ops, _, OperationOf.decompose_result rfl hne hops, elementary_decomposition hops, ?_,
    hunitary, hasEntries_fourier _ s i⟩
  rw [← hunitary]
  exact hgate.unitary_elementary hops hrealizes

theorem decompose_fourier_unitary_three_qubits :
    [3, 0, 1].Nodup ∧ [3, 0, 1] ≠ []
    ∧ (∃ ops m, (.fourier [3, 0, 1] false false : Operation ℝ).decompose.result = .ok ops
      ∧ Elementary ops
      ∧ (⟨ops⟩ : Circuit ℝ).unitary (some (.ofList [3, 0, 1])) = .ok m
      ∧ (.fourier [3, 0, 1] false false : Operation ℝ).unitary = .ok m
      ∧ m.entry 1 1 = dft 8 4 1 ∧ m.entry 4 1 = dft 8 1 1)
    ∧ ∃ ops m, (.fourier [3, 0, 1] true true : Operation ℝ).decompose.result = .ok ops
      ∧ Elementary ops
      ∧ (⟨ops⟩ : Circuit ℝ).unitary (some (.ofList [3, 0, 1])) = .ok m
      ∧ (.fourier [3, 0, 1] true true : Operation ℝ).unitary = .ok m
      ∧ m.entry 1 2 = (starRingEnd ℂ) (dft 8 1 2) := by
  have hnodup : [3, 0, 1].Nodup := by decide
  have hne : [3, 0, 1] ≠ [] := by decide
  have hreverse : Bits.reverse 3 1 = 4 ∧ Bits.reverse 3 4 = 1 := by decide
  obtain ⟨ops, m, hops, hsmall, hm, hclosed, hentries⟩ :=
    decompose_fourier_unitary hnodup hne false false
  obtain ⟨ops', m', hops', hsmall', hm', hclosed', hentries'⟩ :=
    decompose_fourier_unitary hnodup hne true true
  refine ⟨hnodup, hne, ⟨ops, m, hops, hsmall, hm, hclosed, ?_, ?_⟩,
    ops', m', hops', hsmall', hm', hclosed', ?_⟩
  · rw [hentries.entry 1 1 (by decide) (by decide)]
    simp [hreverse.1]
  · rw [hentries.entry 4 1 (by decide) (by decide)]
    simp [hreverse.2]
  · rw [hentries'.entry 1 2 (by decide) (by decide)]
    simp

end CircuitIR.Fourier
