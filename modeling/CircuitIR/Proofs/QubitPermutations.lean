import CircuitIR.Proofs.CircuitRenaming
import CircuitIR.Proofs.SelfEquality
import CircuitIR.Proofs.TableRemapping

/-!
# Permutations of qubits

A table that permutes a set of qubits moves these and nothing else, so it is an injective function of all
integers. Operations read it in two ways: their own qubits are looked up and must be listed, while qubits of a
readout table that are not listed stay. For a permutation both are the application of the one function
(`remap_eq_sendQubits`), and no entry of a readout table is lost. Remapping by permutations of a set that covers
a circuit is thereby an action of their group: tables one after the other act as their composite, the identity
changes nothing, and the inverse undoes.
-/

namespace CircuitIR

namespace QubitMap

variable {entries first second : List (ℤ × ℤ)} {s : List ℕ} {k v : ℤ} {q : ℕ}

theorem lookUp_eq_lookup (entries : List (ℤ × ℤ)) (k : ℤ) : lookUp entries k = entries.lookup k := by
  induction entries with
  | nil => rfl
  | cons e entries ih =>
      rw [lookUp] at ih ⊢
      rw [List.find?_cons, ReadoutTable.lookup_cons]
      by_cases hk : k = e.1
      · rw [if_pos hk, beq_iff_eq.2 hk.symm]
        rfl
      · rw [if_neg hk, beq_eq_false_iff_ne.2 (Ne.symm hk)]
        exact ih

theorem imageOrSelf_of_mem (hkeys : (entries.map (·.1)).Nodup) (he : (k, v) ∈ entries) :
    lookUp entries k = some v ∧ imageOrSelf entries k = v := by
  have hlookUp : lookUp entries k = some v := by
    rw [lookUp_eq_lookup]
    exact (lookup_eq_some_iff hkeys).2 he
  exact ⟨hlookUp, by rw [imageOrSelf, hlookUp, Option.getD_some]⟩

theorem imageOrSelf_of_not_mem (hk : k ∉ entries.map (·.1)) : imageOrSelf entries k = k := by
  have hnone : lookUp entries k = none := by
    rw [lookUp_eq_lookup, List.lookup_eq_none_iff]
    exact fun e he => bne_iff_ne.2 fun heq => hk (List.mem_map.2 ⟨e, he, heq.symm⟩)
  rw [imageOrSelf, hnone, Option.getD_none]

/-- The keys of a table are the qubits of a list, each of them once, and so are its values. -/
structure Permutes (entries : List (ℤ × ℤ)) (s : List ℕ) : Prop where
  distinct : s.Nodup
  keys : (entries.map (·.1)).Perm (s.map Int.ofNat)
  values : (entries.map (·.2)).Perm (s.map Int.ofNat)

/-- The table that sends every qubit of a list to itself. -/
def identity (s : List ℕ) : List (ℤ × ℤ) := s.map fun q => (Int.ofNat q, Int.ofNat q)

/-- The table that sends the values of a table back to its keys. -/
def inverse (entries : List (ℤ × ℤ)) : List (ℤ × ℤ) := entries.map Prod.swap

/-- The table that sends the keys of the first table to the images of its values under the second one. -/
def composite (first second : List (ℤ × ℤ)) : List (ℤ × ℤ) :=
  first.map fun e => (e.1, imageOrSelf second e.2)

theorem map_fst_composite (first second : List (ℤ × ℤ)) :
    (composite first second).map (·.1) = first.map (·.1) := by
  rw [composite, List.map_map]
  rfl

theorem imageOrSelf_identity (hs : s.Nodup) (k : ℤ) : imageOrSelf (identity s) k = k := by
  have hkeys : (identity s).map (·.1) = s.map Int.ofNat := by
    rw [identity, List.map_map]
    rfl
  by_cases hk : k ∈ (identity s).map (·.1)
  · obtain ⟨e, he, rfl⟩ := List.mem_map.1 hk
    obtain ⟨q, -, rfl⟩ := List.mem_map.1 he
    exact (imageOrSelf_of_mem (hkeys ▸ hs.map Int.ofNat_injective) he).2
  · exact imageOrSelf_of_not_mem hk

namespace Permutes

theorem nodup_keys (h : Permutes entries s) : (entries.map (·.1)).Nodup :=
  h.keys.nodup_iff.2 (h.distinct.map Int.ofNat_injective)

theorem mem_keys (h : Permutes entries s) : k ∈ entries.map (·.1) ↔ k ∈ s.map Int.ofNat :=
  h.keys.mem_iff

theorem identity (hs : s.Nodup) : Permutes (identity s) s where
  distinct := hs
  keys := by
    rw [QubitMap.identity, List.map_map]
    exact .refl _
  values := by
    rw [QubitMap.identity, List.map_map]
    exact .refl _

theorem inverse (h : Permutes entries s) : Permutes (inverse entries) s where
  distinct := h.distinct
  keys := by
    rw [QubitMap.inverse, List.map_map]
    exact h.values
  values := by
    rw [QubitMap.inverse, List.map_map]
    exact h.keys

theorem map_imageOrSelf (h : Permutes entries s) :
    ((s.map Int.ofNat).map (imageOrSelf entries)).Perm (s.map Int.ofNat) := by
  have himages : (entries.map (·.1)).map (imageOrSelf entries) = entries.map (·.2) := by
    rw [List.map_map]
    exact List.map_congr_left fun e he => (imageOrSelf_of_mem h.nodup_keys he).2
  have hkeys := h.keys.map (imageOrSelf entries)
  rw [himages] at hkeys
  exact hkeys.symm.trans h.values

theorem composite (hfirst : Permutes first s) (hsecond : Permutes second s) :
    Permutes (composite first second) s where
  distinct := hfirst.distinct
  keys := by
    rw [map_fst_composite]
    exact hfirst.keys
  values := by
    have hvalues : (QubitMap.composite first second).map (·.2)
        = (first.map (·.2)).map (imageOrSelf second) := by
      rw [QubitMap.composite, List.map_map, List.map_map]
      rfl
    rw [hvalues]
    exact (hfirst.values.map _).trans hsecond.map_imageOrSelf

theorem exists_lookUp (h : Permutes entries s) (hq : q ∈ s) :
    ∃ r ∈ s, lookUp entries q = some ↑r ∧ imageOrSelf entries q = ↑r := by
  obtain ⟨e, he, hkey⟩ := List.mem_map.1 (h.mem_keys.2 (List.mem_map_of_mem hq))
  obtain ⟨r, hr, hvalue⟩ := List.mem_map.1 (h.values.mem_iff.1 (List.mem_map_of_mem he))
  have hentry : ((q : ℤ), (r : ℤ)) ∈ entries := by
    have heq : e = ((q : ℤ), (r : ℤ)) := Prod.ext hkey hvalue.symm
    exact heq ▸ he
  exact ⟨r, hr, imageOrSelf_of_mem h.nodup_keys hentry⟩

theorem nonneg (h : Permutes entries s) (hq : q ∈ s) : 0 ≤ imageOrSelf entries q := by
  obtain ⟨r, -, -, hr⟩ := h.exists_lookUp hq
  rw [hr]
  exact Int.natCast_nonneg r

theorem imageOrSelf_composite (hfirst : Permutes first s) (hsecond : Permutes second s) (k : ℤ) :
    imageOrSelf (QubitMap.composite first second) k = imageOrSelf second (imageOrSelf first k) := by
  by_cases hk : k ∈ first.map (·.1)
  · obtain ⟨e, he, rfl⟩ := List.mem_map.1 hk
    have hentry : (e.1, imageOrSelf second e.2) ∈ QubitMap.composite first second :=
      List.mem_map.2 ⟨e, he, rfl⟩
    rw [(imageOrSelf_of_mem (hfirst.composite hsecond).nodup_keys hentry).2,
      (imageOrSelf_of_mem hfirst.nodup_keys he).2]
  · have hk' : k ∉ second.map (·.1) := by
      rwa [hsecond.mem_keys, ← hfirst.mem_keys]
    have hcomposite : k ∉ (QubitMap.composite first second).map (·.1) := by
      rwa [map_fst_composite]
    rw [imageOrSelf_of_not_mem hcomposite, imageOrSelf_of_not_mem hk, imageOrSelf_of_not_mem hk']

theorem imageOrSelf_inverse (h : Permutes entries s) (k : ℤ) :
    imageOrSelf (QubitMap.inverse entries) (imageOrSelf entries k) = k := by
  by_cases hk : k ∈ entries.map (·.1)
  · obtain ⟨e, he, rfl⟩ := List.mem_map.1 hk
    have hback : (e.2, e.1) ∈ QubitMap.inverse entries := List.mem_map.2 ⟨e, he, rfl⟩
    rw [(imageOrSelf_of_mem h.nodup_keys he).2, (imageOrSelf_of_mem h.inverse.nodup_keys hback).2]
  · have hk' : k ∉ (QubitMap.inverse entries).map (·.1) := by
      rwa [h.inverse.mem_keys, ← h.mem_keys]
    rw [imageOrSelf_of_not_mem hk, imageOrSelf_of_not_mem hk']

/-- What stays is not overwritten by what moves. -/
theorem injective (h : Permutes entries s) : Function.Injective (imageOrSelf entries) :=
  Function.LeftInverse.injective h.imageOrSelf_inverse

end Permutes

end QubitMap

open QubitMap (imageOrSelf Permutes)

namespace OperationOf

section SendQubits

variable {P : Type} {f g : ℤ → ℤ} {op : OperationOf ℕ P}

/-- A function of integers as one of qubits. -/
def narrow (f : ℤ → ℤ) (q : ℕ) : ℕ := (f q).toNat

theorem eq_of_narrow_eq (hf : Function.Injective f) {q r : ℕ} (hq : 0 ≤ f q) (hr : 0 ≤ f r)
    (heq : narrow f q = narrow f r) : q = r := by
  have hsame : f q = f r := by
    rw [← Int.toNat_of_nonneg hq, ← Int.toNat_of_nonneg hr]
    exact congrArg Int.ofNat heq
  exact Int.ofNat_injective (hf hsame)

/-- Sends the qubits of an operation, and those of its readout table, through a function. -/
def sendQubits (f : ℤ → ℤ) : OperationOf ℕ P → OperationOf ℕ P
  | repeatedMeasurement r k (some t) => repeatedMeasurement r k (some (t.map fun e => (f e.1, e.2)))
  | op => op.mapIndices (narrow f) id

theorem sendQubits_eq_mapIndices (h : op.variant ≠ .repeatedMeasurement) :
    op.sendQubits f = op.mapIndices (narrow f) id := by
  cases op with
  | repeatedMeasurement r k t => exact absurd rfl h
  | _ => rfl

theorem exists_eq_repeatedMeasurement (h : op.variant = .repeatedMeasurement) :
    ∃ r k t, op = repeatedMeasurement r k t := by
  cases op with
  | repeatedMeasurement r k t => exact ⟨r, k, t, rfl⟩
  | _ => exact nomatch h

theorem qubits_sendQubits (f : ℤ → ℤ) (op : OperationOf ℕ P) :
    (op.sendQubits f).qubits = op.qubits.map (narrow f) := by
  by_cases h : op.variant = .repeatedMeasurement
  · obtain ⟨r, k, t, rfl⟩ := exists_eq_repeatedMeasurement h
    cases t <;> rfl
  · rw [sendQubits_eq_mapIndices h, qubits_mapIndices]

theorem sendQubits_sendQubits (h : ∀ q ∈ op.qubits, 0 ≤ f q) :
    (op.sendQubits f).sendQubits g = op.sendQubits (g ∘ f) := by
  by_cases hvariant : op.variant = .repeatedMeasurement
  · obtain ⟨r, k, t, rfl⟩ := exists_eq_repeatedMeasurement hvariant
    cases t with
    | none => rfl
    | some t => simp [sendQubits, List.map_map, Function.comp_def]
  · have hvariant' : (op.mapIndices (narrow f) id).variant ≠ .repeatedMeasurement := by
      rwa [variant_mapIndices]
    rw [sendQubits_eq_mapIndices hvariant, sendQubits_eq_mapIndices hvariant',
      sendQubits_eq_mapIndices hvariant, mapIndices_mapIndices]
    refine mapIndices_congr fun q hq => ?_
    rw [Function.comp_apply, narrow, narrow, narrow, Int.toNat_of_nonneg (h q hq),
      Function.comp_apply]

theorem sendQubits_id (op : OperationOf ℕ P) : op.sendQubits id = op := by
  by_cases hvariant : op.variant = .repeatedMeasurement
  · obtain ⟨r, k, t, rfl⟩ := exists_eq_repeatedMeasurement hvariant
    cases t with
    | none => rfl
    | some t => simp [sendQubits]
  · rw [sendQubits_eq_mapIndices hvariant]
    exact mapIndices_id op

theorem hasDistinctKeys_of_ne (h : op.variant ≠ .repeatedMeasurement) :
    ∀ field ∈ op.fields, field.HasDistinctKeys := by
  cases op with
  | repeatedMeasurement r k t => exact absurd rfl h
  | _ => simp [fields, FieldOf.HasDistinctKeys]

theorem IsWellFormed.sendQubits (h : op.IsWellFormed) (hf : Function.Injective f)
    (hnonneg : ∀ q ∈ op.qubits, 0 ≤ f q) : (op.sendQubits f).IsWellFormed where
  distinct := by
    rw [qubits_sendQubits]
    refine h.distinct.map_on fun q hq r hr heq => ?_
    exact eq_of_narrow_eq hf (hnonneg q hq) (hnonneg r hr) heq
  keys := by
    by_cases hvariant : op.variant = .repeatedMeasurement
    · obtain ⟨r, k, t, rfl⟩ := exists_eq_repeatedMeasurement hvariant
      cases t with
      | none => exact h.keys
      | some t =>
          have hkeys : (t.map (·.1)).Nodup := by
            simpa [fields, FieldOf.HasDistinctKeys] using h.keys
          have himages : (t.map (f ·.1)).Nodup := by
            have := hkeys.map hf
            rwa [List.map_map] at this
          simpa [OperationOf.sendQubits, fields, FieldOf.HasDistinctKeys, Function.comp_def]
            using himages
    · apply hasDistinctKeys_of_ne
      rwa [sendQubits_eq_mapIndices hvariant, variant_mapIndices]

end SendQubits

variable {R : Type} {op : Operation R} {entries : List (ℤ × ℤ)} {s : List ℕ}

/-- **A permutation is applied to every qubit**: to those of the operation, all of which it lists, and to those
of its readout table, where it leaves what it does not list. -/
theorem remap_eq_sendQubits (hpermutes : Permutes entries s) (h : op.IsWellFormed)
    (hsub : ∀ q ∈ op.qubits, q ∈ s) :
    (op.remap (.ofList entries)).result = .ok (op.sendQubits (imageOrSelf entries)) := by
  have hrenames : (QubitMap.ofList entries).Renames (narrow (imageOrSelf entries)) op.qubits := by
    have hlookUp : ∀ q ∈ op.qubits,
        QubitMap.lookUp entries q = some ↑(narrow (imageOrSelf entries) q) := by
      intro q hq
      obtain ⟨r, -, hlookUp, himage⟩ := hpermutes.exists_lookUp (hsub q hq)
      rw [hlookUp, narrow, himage, Int.toNat_natCast]
    exact QubitMap.renames_ofList hlookUp fun q hq r hr =>
      eq_of_narrow_eq hpermutes.injective (hpermutes.nonneg (hsub q hq)) (hpermutes.nonneg (hsub r hr))
  cases op with
  | repeatedMeasurement r k t =>
      cases t with
      | none => rfl
      | some t =>
          have hkeys : (t.map (·.1)).Nodup := by
            simpa [fields, FieldOf.HasDistinctKeys] using h.keys
          have himages : ((t.map fun e => (imageOrSelf entries e.1, e.2)).map (·.1)).Nodup := by
            have := hkeys.map hpermutes.injective
            rwa [List.map_map] at this ⊢
          change (Traced.ofExcept (t.remap (.ofList entries)) >>= fun t' =>
            pure (repeatedMeasurement r k (some t') : Operation R)).result = _
          rw [Traced.result_bind, Traced.result_ofExcept, ReadoutTable.remap_ofList,
            ReadoutTable.ofList_eq_self himages]
          rfl
  | globalPhase | setMeasurements | definition => rfl
  | _ => exact remap_result rfl h.distinct hrenames

end OperationOf

namespace Circuit

variable {R : Type} {c : Circuit R} {entries first second : List (ℤ × ℤ)} {s : List ℕ}

/-- Sends the qubits of all operations, and those of their readout tables, through a function. -/
def sendQubits (f : ℤ → ℤ) (c : Circuit R) : Circuit R :=
  ⟨c.operations.map fun op => op.sendQubits f⟩

theorem remap_eq_sendQubits (hpermutes : Permutes entries s)
    (hc : ∀ op ∈ c.operations, op.IsWellFormed) (hcover : c.CoveredBy s) :
    (c.remap (.ofList entries)).result = .ok (c.sendQubits (imageOrSelf entries)) := by
  have hremap : ∀ op ∈ c.operations, (op.remap (.ofList entries)).result
      = .ok (op.sendQubits (imageOrSelf entries)) := fun op hop =>
    OperationOf.remap_eq_sendQubits hpermutes (hc op hop) (hcover op hop)
  rw [remap, Traced.result_bind, Traced.result_mapM, mapM_eq_ok hremap]
  rfl

theorem isWellFormed_sendQubits (hpermutes : Permutes entries s)
    (hc : ∀ op ∈ c.operations, op.IsWellFormed) (hcover : c.CoveredBy s) :
    ∀ op ∈ (c.sendQubits (imageOrSelf entries)).operations, op.IsWellFormed :=
  List.forall_mem_map.2 fun op hop => (hc op hop).sendQubits hpermutes.injective fun q hq =>
    hpermutes.nonneg (hcover op hop q hq)

theorem coveredBy_sendQubits (hpermutes : Permutes entries s) (hcover : c.CoveredBy s) :
    (c.sendQubits (imageOrSelf entries)).CoveredBy s := by
  refine List.forall_mem_map.2 fun op hop => ?_
  rw [OperationOf.qubits_sendQubits]
  refine List.forall_mem_map.2 fun q hq => ?_
  obtain ⟨r, hr, -, himage⟩ := hpermutes.exists_lookUp (hcover op hop q hq)
  rwa [OperationOf.narrow, himage, Int.toNat_natCast]

theorem sendQubits_sendQubits (hpermutes : Permutes entries s) (hcover : c.CoveredBy s) (g : ℤ → ℤ) :
    (c.sendQubits (imageOrSelf entries)).sendQubits g
      = c.sendQubits fun k => g (imageOrSelf entries k) := by
  rw [sendQubits, sendQubits, sendQubits, List.map_map]
  congr 1
  refine List.map_congr_left fun op hop => ?_
  exact OperationOf.sendQubits_sendQubits fun q hq => hpermutes.nonneg (hcover op hop q hq)

theorem sendQubits_of_fixed {f : ℤ → ℤ} (hf : ∀ k, f k = k) (c : Circuit R) : c.sendQubits f = c := by
  obtain rfl : f = id := funext hf
  rw [sendQubits, List.map_congr_left fun op _ => OperationOf.sendQubits_id op, List.map_id']

/-- **Remapping by permutations is a group action.** On a circuit whose qubits are in a set, two permutations of
the set act one after the other as their composite, the identity of the set gives the circuit itself, and the
inverse of a permutation gives it back. -/
theorem remap_permutations (hfirst : Permutes first s) (hsecond : Permutes second s)
    (hc : ∀ op ∈ c.operations, op.IsWellFormed) (hcover : c.CoveredBy s) :
    ∃ c₁ c₂, (c.remap (.ofList first)).result = .ok c₁
      ∧ (c₁.remap (.ofList second)).result = .ok c₂
      ∧ (c.remap (.ofList (QubitMap.composite first second))).result = .ok c₂
      ∧ (c.remap (.ofList (QubitMap.identity s))).result = .ok c
      ∧ (c₁.remap (.ofList (QubitMap.inverse first))).result = .ok c := by
  set c₁ := c.sendQubits (imageOrSelf first) with hc₁
  have hwell : ∀ op ∈ c₁.operations, op.IsWellFormed := isWellFormed_sendQubits hfirst hc hcover
  have hcover' : c₁.CoveredBy s := coveredBy_sendQubits hfirst hcover
  refine ⟨c₁, c₁.sendQubits (imageOrSelf second), remap_eq_sendQubits hfirst hc hcover,
    remap_eq_sendQubits hsecond hwell hcover', ?_, ?_, ?_⟩
  · rw [remap_eq_sendQubits (hfirst.composite hsecond) hc hcover, hc₁,
      sendQubits_sendQubits hfirst hcover, funext (hfirst.imageOrSelf_composite hsecond)]
  · rw [remap_eq_sendQubits (.identity hfirst.distinct) hc hcover,
      sendQubits_of_fixed (QubitMap.imageOrSelf_identity hfirst.distinct)]
  · rw [remap_eq_sendQubits hfirst.inverse hwell hcover', hc₁, sendQubits_sendQubits hfirst hcover,
      sendQubits_of_fixed hfirst.imageOrSelf_inverse]

/-- Two measurements of single qubits and one of all, with entries for qubits below zero and elsewhere. -/
def tabledMeasurements : Circuit Float where
  operations := [.call "g" [4, 0] [.symbolic (.symbol "x")], .measure 2 "ro" 1,
    .repeatedMeasurement "ro" 5 (some [(2, 0), (8, 1), (0, 2), (-1, 3)]), .reset 4]

theorem remap_permutations_tabledMeasurements :
    Permutes [(0, 2), (2, 4), (4, 0)] [4, 2, 0] ∧ Permutes [(4, 2), (0, 0), (2, 4)] [4, 2, 0]
      ∧ (∀ op ∈ tabledMeasurements.operations, op.IsWellFormed)
      ∧ tabledMeasurements.CoveredBy [4, 2, 0]
      ∧ ∃ c₁ c₂, (tabledMeasurements.remap (.ofList [(0, 2), (2, 4), (4, 0)])).result = .ok c₁
        ∧ (c₁.remap (.ofList [(4, 2), (0, 0), (2, 4)])).result = .ok c₂
        ∧ (tabledMeasurements.remap (.ofList [(0, 4), (2, 2), (4, 0)])).result = .ok c₂
        ∧ (tabledMeasurements.remap (.ofList [(4, 4), (2, 2), (0, 0)])).result
          = .ok tabledMeasurements
        ∧ (c₁.remap (.ofList [(2, 0), (4, 2), (0, 4)])).result = .ok tabledMeasurements := by
  have hfirst : Permutes [(0, 2), (2, 4), (4, 0)] [4, 2, 0] :=
    ⟨by decide, by decide, by decide⟩
  have hsecond : Permutes [(4, 2), (0, 0), (2, 4)] [4, 2, 0] :=
    ⟨by decide, by decide, by decide⟩
  have hwell : ∀ op ∈ tabledMeasurements.operations, op.IsWellFormed := by
    simp only [tabledMeasurements, List.forall_mem_cons]
    refine ⟨⟨by decide, ?_⟩, ⟨by decide, ?_⟩, ⟨by decide, ?_⟩, ⟨by decide, ?_⟩,
      fun _ h => absurd h List.not_mem_nil⟩
    all_goals simp [OperationOf.fields, FieldOf.HasDistinctKeys]
  have hcover : tabledMeasurements.CoveredBy [4, 2, 0] := by
    simp only [CoveredBy, tabledMeasurements, List.forall_mem_cons, OperationOf.qubits]
    decide
  have hcomposite : QubitMap.composite [(0, 2), (2, 4), (4, 0)] [(4, 2), (0, 0), (2, 4)]
      = [(0, 4), (2, 2), (4, 0)] := by decide
  have hidentity : QubitMap.identity [4, 2, 0] = [(4, 4), (2, 2), (0, 0)] := by decide
  have hinverse : QubitMap.inverse [(0, 2), (2, 4), (4, 0)] = [(2, 0), (4, 2), (0, 4)] := by decide
  have hgroup := remap_permutations hfirst hsecond hwell hcover
  rw [hcomposite, hidentity, hinverse] at hgroup
  exact ⟨hfirst, hsecond, hwell, hcover, hgroup⟩

end Circuit

end CircuitIR
