import CircuitIR.Proofs.QubitLevels
import Mathlib.Data.List.Chain
import Mathlib.Order.Bounds.Basic

/-!
# Depth and dependency chains

The level of a qubit is the length of the longest chain of operations so far that ends on it, where each
operation of a chain acts on something and depends on the one before. One operation extends the chains that end
on one of its qubits to all of its qubits, which is what the step of the depth analysis does to the levels.
-/

namespace CircuitIR

namespace Involved

variable {i j : Involved} {q k : ℕ} {parts chain : List Involved}

/-- Two operations have to keep their order: they share a qubit, or one acts on all qubits. -/
def Depends (i j : Involved) : Prop :=
  i = all ∨ j = all ∨ ∃ q ∈ i.toList, q ∈ j.toList

/-- Every operation acts on something and depends on the one before. -/
structure IsDependencyChain (chain : List Involved) : Prop where
  acts : ∀ i ∈ chain, i ≠ none
  depends : chain.IsChain Depends

/-- The lengths of the dependency chains of a run that end on a qubit, or are empty. -/
def chainLengthsAt (parts : List Involved) (q : ℕ) : Set ℕ :=
  {k | ∃ chain, chain.Sublist parts ∧ IsDependencyChain chain
    ∧ (∀ i ∈ chain.getLast?, i.Covers q) ∧ chain.length = k}

theorem Covers.ne_none (h : i.Covers q) : i ≠ none := by
  rintro rfl
  exact h

theorem exists_covers (hnone : i ≠ none) (hempty : i ≠ finite []) : ∃ q, i.Covers q := by
  cases i with
  | all => exact ⟨0, trivial⟩
  | none => exact absurd rfl hnone
  | finite qs => exact List.exists_mem_of_ne_nil qs fun h => hempty (h ▸ rfl)

theorem depends_of_covers (hi : i.Covers q) (hj : j.Covers q) : i.Depends j := by
  cases i with
  | all => exact Or.inl rfl
  | none => exact absurd rfl hi.ne_none
  | finite qs =>
      cases j with
      | all => exact Or.inr (Or.inl rfl)
      | none => exact absurd rfl hj.ne_none
      | finite rs => exact Or.inr (Or.inr ⟨q, hi, hj⟩)

/-- Operations that depend on each other act on a common qubit, unless one of them acts on no qubit. -/
theorem Depends.exists_covers (h : i.Depends j) (hi : ∃ q, i.Covers q) (hj : ∃ q, j.Covers q) :
    ∃ q, i.Covers q ∧ j.Covers q := by
  obtain rfl | rfl | ⟨q, hqi, hqj⟩ := h
  · exact hj.imp fun q hq => ⟨trivial, hq⟩
  · exact hi.imp fun q hq => ⟨hq, trivial⟩
  · refine ⟨q, ?_, ?_⟩
    · cases i with
      | finite qs => exact hqi
      | _ => exact nomatch hqi
    · cases j with
      | finite qs => exact hqj
      | _ => exact nomatch hqj

theorem zero_mem_chainLengthsAt (parts : List Involved) (q : ℕ) : 0 ∈ chainLengthsAt parts q := by
  refine ⟨[], List.nil_sublist parts, ⟨fun i hi => (nomatch hi), List.isChain_nil⟩, ?_, rfl⟩
  exact fun i hi => nomatch hi

theorem chainLengthsAt_nil (q : ℕ) : chainLengthsAt [] q = {0} := by
  ext k
  constructor
  · rintro ⟨chain, hsub, -, -, rfl⟩
    rw [List.sublist_nil.1 hsub]
    exact rfl
  · rintro rfl
    exact zero_mem_chainLengthsAt [] q

theorem succ_mem_chainLengthsAt {r : ℕ} (hk : k ∈ chainLengthsAt parts r) (hr : i.Covers r)
    (hq : i.Covers q) : k + 1 ∈ chainLengthsAt (parts ++ [i]) q := by
  obtain ⟨chain, hsub, hchain, hlast, rfl⟩ := hk
  refine ⟨chain ++ [i], hsub.append (List.Sublist.refl [i]), ⟨?_, ?_⟩, ?_, ?_⟩
  · rw [List.forall_mem_append, List.forall_mem_singleton]
    exact ⟨hchain.acts, hr.ne_none⟩
  · refine List.isChain_append.2 ⟨hchain.depends, List.isChain_singleton i, ?_⟩
    intro j hj j' hj'
    obtain rfl := Option.mem_some_iff.1 hj'
    exact depends_of_covers (hlast j hj) hr
  · rw [List.getLast?_concat]
    intro j hj
    obtain rfl := Option.mem_some_iff.1 hj
    exact hq
  · rw [List.length_append, List.length_singleton]

/-- A chain either does without the last operation, or this one extends a chain on one of its qubits. -/
theorem mem_chainLengthsAt_concat (hparts : ∀ j ∈ parts, j ≠ finite []) :
    k ∈ chainLengthsAt (parts ++ [i]) q ↔ k ∈ chainLengthsAt parts q
      ∨ (i.Covers q ∧ ∃ r, i.Covers r ∧ ∃ l ∈ chainLengthsAt parts r, k = l + 1) := by
  constructor
  · rintro ⟨chain, hsub, hchain, hlast, rfl⟩
    obtain ⟨before, last, rfl, hbefore, hend⟩ := List.sublist_append_iff.1 hsub
    rcases List.sublist_singleton.1 hend with rfl | rfl
    · rw [List.append_nil] at hchain hlast ⊢
      exact Or.inl ⟨before, hbefore, hchain, hlast, rfl⟩
    · have hq : i.Covers q := hlast i (by rw [List.getLast?_concat]; rfl)
      obtain ⟨hdepends, -, hstep⟩ := List.isChain_append.1 hchain.depends
      have hacts : ∀ j ∈ before, j ≠ none := fun j hj => hchain.acts j (List.mem_append_left [i] hj)
      have hmeet : ∃ r, i.Covers r ∧ ∀ j ∈ before.getLast?, j.Covers r := by
        cases hj : before.getLast? with
        | none => exact ⟨q, hq, fun j hj => nomatch hj⟩
        | some j =>
            have hmem : j ∈ before := List.mem_of_getLast? hj
            have hcovers := exists_covers (hacts j hmem) (hparts j (hbefore.subset hmem))
            obtain ⟨r, hjr, hir⟩ := (hstep j hj i rfl).exists_covers hcovers ⟨q, hq⟩
            refine ⟨r, hir, fun j' hj' => ?_⟩
            obtain rfl := Option.mem_some_iff.1 hj'
            exact hjr
      obtain ⟨r, hr, hends⟩ := hmeet
      refine Or.inr ⟨hq, r, hr, before.length, ⟨before, hbefore, ⟨hacts, hdepends⟩, hends, rfl⟩, ?_⟩
      rw [List.length_append, List.length_singleton]
  · rintro (⟨chain, hsub, hchain, hlast, hlength⟩ | ⟨hq, r, hr, l, hl, rfl⟩)
    · exact ⟨chain, hsub.trans (List.sublist_append_left parts [i]), hchain, hlast, hlength⟩
    · exact succ_mem_chainLengthsAt hl hr hq

end Involved

namespace Levels

open Involved (chainLengthsAt IsDependencyChain)

variable {s t : Levels} {i : Involved} {parts done : List Involved}

/-- The level of every qubit is the length of the longest chain of a run that ends on it. -/
structure Measures (s : Levels) (parts : List Involved) : Prop where
  nodup : (s.entries.map (·.1)).Nodup
  isGreatest : ∀ q, IsGreatest (chainLengthsAt parts q) (s.level q)

theorem measures_start : start.Measures [] := by
  refine ⟨List.nodup_nil, fun q => ?_⟩
  rw [Involved.chainLengthsAt_nil]
  exact isGreatest_singleton

theorem Measures.after (hs : s.Measures parts) (hparts : ∀ j ∈ parts, j ≠ .finite [])
    (h : s.after i = .ok t) : t.Measures (parts ++ [i]) := by
  refine ⟨nodup_keys_after hs.nodup h, fun q => ?_⟩
  obtain ⟨hlongest, hbound⟩ := hs.isGreatest q
  rcases level_after hs.nodup h q with ⟨hq, d, ⟨⟨r, hr, hd⟩, hmax⟩, hlevel⟩ | ⟨hq, hlevel⟩
  · rw [hlevel]
    refine ⟨Involved.succ_mem_chainLengthsAt (hd ▸ (hs.isGreatest r).1) hr hq, fun k hk => ?_⟩
    rcases (Involved.mem_chainLengthsAt_concat hparts).1 hk with hk | ⟨-, p, hp, l, hl, rfl⟩
    · calc k ≤ s.level q := hbound hk
        _ ≤ d := hmax ⟨q, hq, rfl⟩
        _ ≤ d + 1 := Nat.le_succ d
    · calc l + 1 ≤ s.level p + 1 := Nat.succ_le_succ ((hs.isGreatest p).2 hl)
        _ ≤ d + 1 := Nat.succ_le_succ (hmax ⟨p, hp, rfl⟩)
  · rw [hlevel]
    refine ⟨(Involved.mem_chainLengthsAt_concat hparts).2 (Or.inl hlongest), fun k hk => ?_⟩
    rcases (Involved.mem_chainLengthsAt_concat hparts).1 hk with hk | ⟨hcovers, -⟩
    · exact hbound hk
    · exact absurd hcovers hq

theorem Measures.foldlM_after (hs : s.Measures done) (hparts : ∀ i ∈ done ++ parts, i ≠ .finite [])
    (h : parts.foldlM Levels.after s = .ok t) : t.Measures (done ++ parts) := by
  induction parts generalizing s done with
  | nil =>
      obtain rfl := Except.ok.inj h
      rwa [List.append_nil]
  | cons i parts ih =>
      rw [List.foldlM_cons, bind_eq_ok] at h
      obtain ⟨next, hnext, h⟩ := h
      rw [List.append_cons] at hparts ⊢
      refine ih (hs.after (fun j hj => hparts j ?_) hnext) hparts h
      exact List.mem_append_left parts (List.mem_append_left [i] hj)

theorem Measures.top (hs : s.Measures parts) (hparts : ∀ i ∈ parts, i ≠ .finite []) :
    IsGreatest {k | ∃ chain, chain.Sublist parts ∧ IsDependencyChain chain ∧ chain.length = k}
      s.top := by
  constructor
  · obtain ⟨q, hq⟩ := exists_level_eq_top hs.nodup
    obtain ⟨chain, hsub, hchain, -, hlength⟩ := (hs.isGreatest q).1
    exact ⟨chain, hsub, hchain, hlength.trans hq⟩
  · rintro _ ⟨chain, hsub, hchain, rfl⟩
    have hends : ∃ q, ∀ i ∈ chain.getLast?, i.Covers q := by
      cases hi : chain.getLast? with
      | none => exact ⟨0, fun i hi => nomatch hi⟩
      | some i =>
          have hmem : i ∈ chain := List.mem_of_getLast? hi
          obtain ⟨q, hq⟩ := Involved.exists_covers (hchain.acts i hmem) (hparts i (hsub.subset hmem))
          refine ⟨q, fun i' hi' => ?_⟩
          obtain rfl := Option.mem_some_iff.1 hi'
          exact hq
    obtain ⟨q, hq⟩ := hends
    calc chain.length ≤ s.level q := (hs.isGreatest q).2 ⟨chain, hsub, hchain, hq, rfl⟩
      _ ≤ s.top := level_le_top hs.nodup q

end Levels

namespace Circuit

open Involved (IsDependencyChain)

variable {R : Type}

/-- The lengths of the dependency chains of a circuit. -/
def chainLengths (c : Circuit R) : Set ℕ :=
  {k | ∃ ops : List (Operation R), ops.Sublist c.operations
    ∧ IsDependencyChain (ops.map fun op => op.involved) ∧ ops.length = k}

theorem chainLengths_eq (c : Circuit R) : c.chainLengths
    = {k | ∃ chain, chain.Sublist (c.operations.map fun op => op.involved)
        ∧ IsDependencyChain chain ∧ chain.length = k} := by
  ext k
  constructor
  · rintro ⟨ops, hsub, hchain, rfl⟩
    exact ⟨_, hsub.map _, hchain, List.length_map _⟩
  · rintro ⟨chain, hsub, hchain, rfl⟩
    obtain ⟨ops, hops, rfl⟩ := List.sublist_map_iff.1 hsub
    exact ⟨ops, hops, hchain, (List.length_map _).symm⟩

/-- **Depth is the length of the longest dependency chain.** If no operation of a circuit is on an empty set of
qubits, the circuit has a depth. It is the greatest number of operations that can be picked in their order so
that each acts on something, and each shares a qubit with the one picked before it or one of the two acts on all
qubits. -/
theorem depth_isGreatest (c : Circuit R) (hc : ∀ op ∈ c.operations, op.involved ≠ .finite []) :
    ∃ n, c.depth = .ok n ∧ IsGreatest c.chainLengths n := by
  obtain ⟨s, hs, hdepth⟩ := exists_levels hc
  have hparts : ∀ i ∈ c.operations.map fun op => op.involved, i ≠ .finite [] :=
    List.forall_mem_map.2 hc
  refine ⟨s.top, hdepth, ?_⟩
  rw [chainLengths_eq]
  exact (Levels.measures_start.foldlM_after hparts hs).top hparts

/-- Gates around a measurement of all qubits; the last pair is on a qubit that no other operation names. -/
def measuredBetween : Circuit Float where
  operations := [.definition .bit "ro" 3 true, .fixed .hadamard 0, .pair .cnot 0 1, .fixed .t 5,
    .globalPhase (.number 1), .repeatedMeasurement "ro" 7 none, .fixed .pauliX 2, .pair .controlledPauliZ 2 1,
    .call "g" [9] [], .reset 9]

theorem depth_isGreatest_measuredBetween :
    measuredBetween.depth = .ok 5 ∧ IsGreatest measuredBetween.chainLengths 5 := by
  have hdepth : measuredBetween.depth = .ok 5 := rfl
  obtain ⟨n, hn, hgreatest⟩ := depth_isGreatest measuredBetween (by decide)
  obtain rfl : n = 5 := Except.ok.inj (hn.symm.trans hdepth)
  exact ⟨hdepth, hgreatest⟩

end Circuit

end CircuitIR
