import CircuitIR.Proofs.IndexRenaming
import CircuitIR.Proofs.Table
import Mathlib.Data.List.Induction
import Mathlib.Data.List.Perm.Subperm

/-!
# Remapping of readout tables

The readout table of a measurement is built anew from its entries under the images of their qubits. Qubits
that the map does not name stay where they are, so a qubit that is moved can arrive at one that stays. Of the
entries that arrive at one qubit the last one is kept, and the others are lost: the table is complete exactly
if the map keeps its qubits apart.
-/

namespace CircuitIR

namespace ReadoutTable

variable {t : ReadoutTable} {k l v : ℤ} {entries : List (ℤ × ℤ)}

theorem lookup_cons (e : ℤ × ℤ) (t : List (ℤ × ℤ)) :
    (e :: t).lookup l = if l = e.1 then some e.2 else t.lookup l := by
  obtain ⟨m, u⟩ := e
  rw [List.lookup_cons]
  by_cases hl : l = m
  · rw [if_pos hl, beq_iff_eq.2 hl]
  · rw [if_neg hl, beq_eq_false_iff_ne.2 hl]

theorem lookup_set : (set k v t).lookup l = if l = k then some v else t.lookup l := by
  induction t with
  | nil => exact lookup_cons (k, v) []
  | cons e t ih =>
      obtain ⟨m, u⟩ := e
      rw [set]
      by_cases hm : m = k
      · subst hm
        rw [if_pos rfl, lookup_cons, lookup_cons]
        by_cases hl : l = m
        · rw [if_pos hl, if_pos hl]
        · rw [if_neg hl, if_neg hl, if_neg hl]
      · rw [if_neg hm, lookup_cons, lookup_cons, ih]
        by_cases hl : l = m
        · have hk : l ≠ k := fun h => hm (hl.symm.trans h)
          rw [if_pos hl, if_neg hk, if_pos hl]
        · rw [if_neg hl, if_neg hl]

theorem ofList_concat (entries : List (ℤ × ℤ)) (e : ℤ × ℤ) :
    ofList (entries ++ [e]) = set e.1 e.2 (ofList entries) := by
  rw [ofList, List.foldl_append]
  rfl

/-- Of equal keys the last value counts. -/
theorem lookup_ofList (entries : List (ℤ × ℤ)) (k : ℤ) :
    (ofList entries).lookup k = entries.reverse.lookup k := by
  induction entries using List.reverseRecOn with
  | nil => rfl
  | append_singleton entries e ih =>
      rw [ofList_concat, lookup_set, ih, List.reverse_append, List.reverse_singleton,
        List.singleton_append, lookup_cons]

theorem mem_keys_ofList : k ∈ (ofList entries).map (·.1) ↔ k ∈ entries.map (·.1) := by
  induction entries using List.reverseRecOn with
  | nil => rfl
  | append_singleton entries e ih =>
      rw [ofList_concat, mem_keys_set, ih, List.map_append, List.mem_append, or_comm]
      simp

/-- A table has as many entries as it is built from exactly if these have different keys. -/
theorem length_ofList_eq_iff :
    (ofList entries).length = entries.length ↔ (entries.map (·.1)).Nodup := by
  constructor
  · intro hlength
    have hkeys := nodup_keys_ofList entries
    have hsub : (ofList entries).map (·.1) ⊆ entries.map (·.1) := fun k hk => mem_keys_ofList.1 hk
    have hle : (entries.map (·.1)).length ≤ ((ofList entries).map (·.1)).length := by
      rw [List.length_map, List.length_map, hlength]
    exact ((List.Nodup.subperm hkeys hsub).perm_of_length_le hle).nodup_iff.1 hkeys
  · intro hnodup
    rw [ofList_eq_self hnodup]

/-- The second table has as many entries as the first one, and every entry of the first one under the image
of its qubit. -/
def KeepsEntries (f : ℤ → ℤ) (t t' : ReadoutTable) : Prop :=
  t'.length = t.length ∧ ∀ e ∈ t, (f e.1, e.2) ∈ t'

/-- The table under the images of its qubits is complete exactly if these are different. -/
theorem keepsEntries_ofList_iff (f : ℤ → ℤ) (ht : (t.map (·.1)).Nodup) :
    KeepsEntries f t (ofList (t.map fun e => (f e.1, e.2)))
      ↔ ∀ e ∈ t, ∀ e' ∈ t, f e.1 = f e'.1 → e.1 = e'.1 := by
  have himages : (t.map fun e => (f e.1, e.2)).map (·.1) = (t.map (·.1)).map f := by
    rw [List.map_map, List.map_map]
    rfl
  constructor
  · rintro ⟨hlength, -⟩ e he e' he' heq
    have hnodup := length_ofList_eq_iff.1 (hlength.trans (List.length_map _).symm)
    rw [himages] at hnodup
    exact List.inj_on_of_nodup_map hnodup (List.mem_map_of_mem he) (List.mem_map_of_mem he') heq
  · intro hinjective
    have hnodup : ((t.map fun e => (f e.1, e.2)).map (·.1)).Nodup := by
      rw [himages]
      refine ht.map_on fun q hq q' hq' heq => ?_
      obtain ⟨e, he, rfl⟩ := List.mem_map.1 hq
      obtain ⟨e', he', rfl⟩ := List.mem_map.1 hq'
      exact hinjective e he e' he' heq
    rw [ofList_eq_self hnodup]
    exact ⟨List.length_map _, fun e he => List.mem_map_of_mem he⟩

end ReadoutTable

/-- Where a table of integers sends an entry of a readout table. -/
def QubitMap.imageOrSelf (entries : List (ℤ × ℤ)) (q : ℤ) : ℤ := (lookUp entries q).getD q

theorem ReadoutTable.remap_ofList (entries : List (ℤ × ℤ)) (t : ReadoutTable) : t.remap (.ofList entries)
    = .ok (ofList (t.map fun e => (QubitMap.imageOrSelf entries e.1, e.2))) := by
  set image : ℤ → ℤ := QubitMap.imageOrSelf entries
  have htargets : (t.mapM fun e => do return ((← (QubitMap.ofList entries).targetOrSelf e.1), e.2))
      = Except.ok (ε := Fault) (t.map fun e => (QubitTarget.ofInt (image e.1), e.2)) :=
    mapM_eq_ok fun _ _ => rfl
  have hentries : ((t.map fun e => (QubitTarget.ofInt (image e.1), e.2)).mapM
        fun e => do return ((← e.1.asEntry), e.2))
      = Except.ok (ε := Fault) (t.map fun e => (image e.1, e.2)) := by
    rw [List.mapM_map]
    exact mapM_eq_ok fun _ _ => rfl
  rw [remap, htargets, ok_bind, hentries, ok_bind]
  rfl

namespace OperationOf

open QubitMap (imageOrSelf)

variable {R : Type}

/-- **What becomes of a readout table.** A measurement of all qubits is remapped by every table of integers,
and its readout and its number of measurements stay. At every qubit its readout table then has the value of the
last entry that is sent there. No entry is lost exactly if the map keeps the qubits of the table apart. -/
theorem remap_readoutTable (readout : String) (count : ℕ) {t : ReadoutTable}
    (ht : (t.map (·.1)).Nodup) (entries : List (ℤ × ℤ)) :
    ∃ t', ((repeatedMeasurement readout count (some t) : Operation R).remap (.ofList entries)).result
          = .ok (repeatedMeasurement readout count (some t'))
      ∧ (t'.map (·.1)).Nodup
      ∧ (∀ q, t'.lookup q = (t.map fun e => (imageOrSelf entries e.1, e.2)).reverse.lookup q)
      ∧ (t.KeepsEntries (imageOrSelf entries) t'
        ↔ ∀ e ∈ t, ∀ e' ∈ t, imageOrSelf entries e.1 = imageOrSelf entries e'.1 → e.1 = e'.1) := by
  refine ⟨_, ?_, ReadoutTable.nodup_keys_ofList _, ReadoutTable.lookup_ofList _,
    ReadoutTable.keepsEntries_ofList_iff _ ht⟩
  change (Traced.ofExcept (t.remap (.ofList entries)) >>= fun t' =>
    pure (repeatedMeasurement readout count (some t') : Operation R)).result = _
  rw [Traced.result_bind, Traced.result_ofExcept, ReadoutTable.remap_ofList]
  rfl

/-- Two qubits trade places, and a third one stays. -/
theorem remap_readoutTable_trading :
    ((repeatedMeasurement "ro" 5 (some [(2, 0), (8, 1), (5, 2)]) : Operation Float).remap
        (.ofList [(5, 2), (2, 5), (7, 8)])).result
      = .ok (repeatedMeasurement "ro" 5 (some [(5, 0), (8, 1), (2, 2)]))
    ∧ ReadoutTable.KeepsEntries (imageOrSelf [(5, 2), (2, 5), (7, 8)]) [(2, 0), (8, 1), (5, 2)]
      [(5, 0), (8, 1), (2, 2)] := by
  obtain ⟨t', ht', -, -, hkeeps⟩ := remap_readoutTable (R := Float) "ro" 5
    (t := [(2, 0), (8, 1), (5, 2)]) (by decide) [(5, 2), (2, 5), (7, 8)]
  obtain rfl : [(5, 0), (8, 1), (2, 2)] = t' := by
    have hmade := Except.ok.inj ht'
    injection hmade with _ _ htable
    exact Option.some.inj htable
  exact ⟨ht', hkeeps.2 (by decide)⟩

/-- A qubit is sent to one that stays, and its entry is lost. -/
theorem remap_readoutTable_collision :
    ((repeatedMeasurement "ro" 5 (some [(0, 5), (1, 6)]) : Operation Float).remap
        (.ofList [(0, 1)])).result
      = .ok (repeatedMeasurement "ro" 5 (some [(1, 6)]))
    ∧ imageOrSelf [(0, 1)] 0 = 1
    ∧ ¬ReadoutTable.KeepsEntries (imageOrSelf [(0, 1)]) [(0, 5), (1, 6)] [(1, 6)] := by
  refine ⟨rfl, rfl, ?_⟩
  rintro ⟨hlength, -⟩
  exact absurd hlength (by decide)

end OperationOf

end CircuitIR
