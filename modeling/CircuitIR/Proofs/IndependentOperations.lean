import CircuitIR.Proofs.CircuitRenaming
import CircuitIR.Proofs.Evolution

/-!
# Independent operations

Two operations on different qubits neither read nor change what the other one needs, so neighbours of this
kind can be exchanged. The depth analysis keeps the same level for every qubit in both orders, although it
lists the levels in another order, and gates on different qubits act on waves in any order.
-/

namespace CircuitIR

namespace Levels

variable {s t : Levels} {r v : ℕ} {qs rs : List ℕ} {parts : List Involved}

theorem renames_place_place (hs : (s.entries.map (·.1)).Nodup) (hdisjoint : ∀ q ∈ qs, q ∉ rs) :
    Renames id Set.univ ((s.place qs).place rs) ((s.place rs).place qs) := by
  have hfirst : qs.map (s.place rs).level = qs.map s.level := by
    refine List.map_congr_left fun q hq => ?_
    exact level_place_of_notMem hs (hdisjoint q hq)
  have hsecond : rs.map (s.place qs).level = rs.map s.level := by
    refine List.map_congr_left fun r hr => ?_
    exact level_place_of_notMem hs fun hq => hdisjoint r hq hr
  have hs₁ := nodup_keys_place hs qs
  have hs₂ := nodup_keys_place hs rs
  refine ⟨rfl, nodup_keys_place hs₁ rs, nodup_keys_place hs₂ qs, fun _ _ => trivial, fun r v => ?_⟩
  simp only [mem_entries_place hs₁, mem_entries_place hs₂, mem_entries_place hs, hfirst, hsecond, id_eq,
    exists_eq_right]
  -- a qubit is in at most one of the lists, and its level comes from there
  by_cases hq : r ∈ qs
  · have hr : r ∉ rs := hdisjoint r hq
    simp [hq, hr]
  · by_cases hr : r ∈ rs
    · simp [hq, hr]
    · simp [hq, hr]

/-- The highest level after a run does not depend on the order of two neighbours on different qubits. -/
theorem foldlM_after_exchange {before after : List Involved} (hqs : qs ≠ []) (hrs : rs ≠ [])
    (hdisjoint : ∀ q ∈ qs, q ∉ rs) (hbefore : ∀ i ∈ before, i ≠ .finite [])
    (hafter : ∀ i ∈ after, i ≠ .finite []) (hsets : after.map (Involved.map id) = after) :
    ∃ n, ((before ++ .finite qs :: .finite rs :: after).foldlM Levels.after .start).map top = .ok n
      ∧ ((before ++ .finite rs :: .finite qs :: after).foldlM Levels.after .start).map top = .ok n := by
  obtain ⟨s, hs⟩ := exists_foldlM_after hbefore start
  have hkeys : (s.entries.map (·.1)).Nodup := by
    refine nodup_keys_foldlM_after (s := start) ?_ hs
    exact List.nodup_nil
  have hrun : ∀ {ps ps' : List ℕ}, ps ≠ [] → ps' ≠ [] →
      (before ++ .finite ps :: .finite ps' :: after).foldlM Levels.after start
        = after.foldlM Levels.after ((s.place ps).place ps') := by
    intro ps ps' hps hps'
    rw [List.foldlM_append, hs, ok_bind, List.foldlM_cons, after_finite hps, ok_bind,
      List.foldlM_cons, after_finite hps', ok_bind]
  -- from here on the two runs keep the same levels in different orders
  have hsame := (renames_place_place hkeys hdisjoint).foldlM_after (Set.injOn_id _)
    fun part (_ : part ∈ after) _ _ => trivial
  rw [hsets] at hsame
  obtain ⟨t, ht⟩ := exists_foldlM_after hafter ((s.place qs).place rs)
  refine ⟨t.top, ?_, ?_⟩
  · rw [hrun hqs hrs, ht]
    rfl
  · rw [hrun hrs hqs, hsame, ht]
    rfl

end Levels

namespace Circuit

variable {R : Type} {c d : Circuit R}

/-- The second circuit is the first one with two neighbouring operations on different qubits exchanged. -/
inductive Exchanges : Circuit R → Circuit R → Prop
  | intro (before after : List (Operation R)) (op op' : Operation R) (qs rs : List ℕ)
      (hop : op.involved = .finite qs) (hop' : op'.involved = .finite rs)
      (hdisjoint : ∀ q ∈ qs, q ∉ rs) :
      Exchanges ⟨before ++ op :: op' :: after⟩ ⟨before ++ op' :: op :: after⟩

theorem Exchanges.perm (h : Exchanges c d) : c.operations.Perm d.operations := by
  obtain ⟨before, after, -, -, -, -, -, -, -⟩ := h
  exact (List.Perm.swap _ _ after).append_left before

theorem Exchanges.depth_eq (h : Exchanges c d)
    (hnonempty : ∀ op ∈ c.operations, op.involved ≠ .finite []) :
    ∃ n, c.depth = .ok n ∧ d.depth = .ok n := by
  obtain ⟨before, after, op, op', qs, rs, hop, hop', hdisjoint⟩ := h
  simp only [List.forall_mem_append, List.forall_mem_cons] at hnonempty
  obtain ⟨hbefore, hqs, hrs, hafter⟩ := hnonempty
  have hsets : (after.map fun op => op.involved).map (Involved.map id)
      = after.map fun op => op.involved := by
    rw [List.map_map]
    refine List.map_congr_left fun op _ => ?_
    rw [Function.comp_apply, ← OperationOf.involved_mapIndices, OperationOf.mapIndices_id]
  have hsame := Levels.foldlM_after_exchange (fun hnil => hqs (hnil ▸ hop))
    (fun hnil => hrs (hnil ▸ hop')) hdisjoint (List.forall_mem_map.2 hbefore)
    (List.forall_mem_map.2 hafter) hsets
  simpa only [Circuit.depth_eq, List.map_append, List.map_cons, hop, hop'] using hsame

theorem Exchanges.unitary_eq {c d : Circuit ℝ} {frame : List ℕ} (h : Exchanges c d)
    (hc : ∀ op ∈ c.operations, op.IsConcreteGate) (hframe : frame.Nodup)
    (hcover : c.CoveredBy frame) :
    ∃ u, c.unitary (some (.ofList frame)) = .ok u ∧ d.unitary (some (.ofList frame)) = .ok u := by
  have hd : ∀ op ∈ d.operations, op.IsConcreteGate := fun op hop => hc op (h.perm.mem_iff.2 hop)
  have hcover' : d.CoveredBy frame := fun op hop => hcover op (h.perm.mem_iff.2 hop)
  have hevolve : ∀ ψ, evolve d.operations ψ = evolve c.operations ψ := by
    intro ψ
    obtain ⟨before, after, op, op', qs, rs, hop, hop', hdisjoint⟩ := h
    have hgates : op.IsConcreteGate ∧ op'.IsConcreteGate := by
      simp only [List.forall_mem_append, List.forall_mem_cons] at hc
      exact ⟨hc.2.1, hc.2.2.1⟩
    rw [OperationOf.involved_of_isGate hgates.1.isGate, Involved.finite.injEq] at hop
    rw [OperationOf.involved_of_isGate hgates.2.isGate, Involved.finite.injEq] at hop'
    have hqubits : ∀ q ∈ op.qubits, q ∉ op'.qubits := by
      intro q hq hq'
      refine hdisjoint q ?_ ?_
      · rwa [← hop, Involved.mem_ofList]
      · rwa [← hop', Involved.mem_ofList]
    rw [evolve_append, evolve_append, evolve_cons, evolve_cons, evolve_cons, evolve_cons,
      OperationOf.action_comm hqubits]
  have hrealizes : Realizes c.operations (evolve c.operations) := ⟨hc, fun _ => rfl⟩
  exact hrealizes.exists_unitaryIn_eq ⟨hd, hevolve⟩ hframe
    (fun q ⟨op, hop, hq⟩ => hcover op hop q hq) fun q ⟨op, hop, hq⟩ => hcover' op hop q hq

/-- **Independent operations can be exchanged.** If two neighbours act on different qubits, a circuit with no
operation on an empty set of qubits keeps its depth when they are exchanged, whatever operations on all qubits
or on none are around them. A circuit of concrete gates keeps its matrix too, in every frame of different
qubits that covers it. -/
theorem exchange_preserves :
    (∀ {R : Type} {c d : Circuit R}, c.Exchanges d →
        (∀ op ∈ c.operations, op.involved ≠ .finite []) → ∃ n, c.depth = .ok n ∧ d.depth = .ok n)
      ∧ ∀ {c d : Circuit ℝ} {frame : List ℕ}, c.Exchanges d →
        (∀ op ∈ c.operations, op.IsConcreteGate) → frame.Nodup → c.CoveredBy frame →
        ∃ u, c.unitary (some (.ofList frame)) = .ok u
          ∧ d.unitary (some (.ofList frame)) = .ok u := by
  constructor
  · intro R c d h hnonempty
    exact h.depth_eq hnonempty
  · intro c d frame h hc hframe hcover
    exact h.unitary_eq hc hframe hcover

/-- A controlled gate and a call on the qubits between its own, after a measurement of all qubits. -/
def measuredBefore (first second : Operation Float) : Circuit Float where
  operations := [.definition .bit "ro" 2 true, .pair .cnot 0 1, .fixed .t 6,
    .repeatedMeasurement "ro" 4 none, .fixed .hadamard 2, first, second, .pair .swap 3 4, .reset 4,
    .globalPhase (.number 1)]

/-- Two gates on interleaved qubits, between gates that share qubits with both. -/
noncomputable def interleaved (first second : Operation ℝ) : Circuit ℝ where
  operations := [.fixed .hadamard 5, first, second, .fourier [2, 0] false true]

theorem exchange_preserves_interleaved :
    ((measuredBefore (.multiControlledNot [4, 0, 2]) (.call "g" [3, 1] [])).depth = .ok 6
        ∧ (measuredBefore (.call "g" [3, 1] []) (.multiControlledNot [4, 0, 2])).depth = .ok 6)
      ∧ ∃ u, (interleaved (.pair .cnot 7 2) (.multiControlledNot [5, 0, 9])).unitary
            (some (.ofList [9, 7, 0, 5, 2])) = .ok u
          ∧ (interleaved (.multiControlledNot [5, 0, 9]) (.pair .cnot 7 2)).unitary
            (some (.ofList [9, 7, 0, 5, 2])) = .ok u := by
  constructor
  · have hexchanges : (measuredBefore (.multiControlledNot [4, 0, 2]) (.call "g" [3, 1] [])).Exchanges
        (measuredBefore (.call "g" [3, 1] []) (.multiControlledNot [4, 0, 2])) :=
      .intro [_, _, _, _, _] _ _ _ [0, 2, 4] [1, 3] rfl rfl (by decide)
    obtain ⟨n, hn, hdepth⟩ := exchange_preserves.1 hexchanges (by
      simp only [measuredBefore, List.forall_mem_cons]
      decide)
    obtain rfl : 6 = n := Except.ok.inj hn
    exact ⟨hn, hdepth⟩
  · refine exchange_preserves.2 ?_ ?_ (by decide) ?_
    · exact .intro [_] _ _ _ [2, 7] [0, 5, 9] rfl rfl (by decide)
    · simp only [interleaved, List.forall_mem_cons]
      exact ⟨⟨rfl, rfl, by decide, by decide⟩, ⟨rfl, rfl, by decide, by decide⟩,
        ⟨rfl, rfl, by decide, by decide⟩, ⟨rfl, rfl, by decide, by decide⟩,
        fun _ h => absurd h List.not_mem_nil⟩
    · simp only [CoveredBy, interleaved, List.forall_mem_cons, OperationOf.qubits]
      decide

end Circuit

end CircuitIR
