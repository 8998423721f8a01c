import CircuitIR.Proofs.QubitLevels
import Mathlib.Data.Set.Function

/-!
# Depth under renaming

The depth of a circuit does not depend on which qubits its operations act on, only on which of them they
share. Two runs of the depth analysis on renamed operations keep levels that differ by the renaming
(`Levels.Renames`), although the order of their entries may differ; the highest level is the same
throughout.
-/

namespace CircuitIR

/-- The answer of an analysis with every qubit renamed. -/
def Involved.map (f : ℕ → ℕ) : Involved → Involved
  | all => all
  | none => none
  | finite qs => finite (ofList (qs.map f))

namespace Levels

variable {q : ℕ} {qs : List ℕ}

/-- The second levels are the first ones with the qubits of a set renamed. -/
structure Renames (f : ℕ → ℕ) (S : Set ℕ) (s s' : Levels) : Prop where
  barrier_eq : s'.barrier = s.barrier
  nodup : (s.entries.map (·.1)).Nodup
  nodup' : (s'.entries.map (·.1)).Nodup
  mem_set : ∀ e ∈ s.entries, e.1 ∈ S
  mem_iff : ∀ r v, (r, v) ∈ s'.entries ↔ ∃ q, (q, v) ∈ s.entries ∧ f q = r

namespace Renames

variable {f : ℕ → ℕ} {S : Set ℕ} {s s' : Levels}

theorem start (f : ℕ → ℕ) (S : Set ℕ) : Renames f S start start := by
  constructor <;> simp [Levels.start]

theorem level_eq (h : Renames f S s s') (hf : Set.InjOn f S) (hq : q ∈ S) :
    s'.level (f q) = s.level q := by
  have hlookup : s'.entries.lookup (f q) = s.entries.lookup q := by
    refine Option.ext fun v => ?_
    rw [lookup_eq_some_iff h.nodup', lookup_eq_some_iff h.nodup, h.mem_iff]
    constructor
    · rintro ⟨p, hp, hpq⟩
      exact hf (h.mem_set _ hp) hq hpq ▸ hp
    · exact fun hmem => ⟨q, hmem, rfl⟩
  rw [level, hlookup, h.barrier_eq, level]

theorem top_eq (h : Renames f S s s') : s'.top = s.top := by
  refine eq_of_forall_ge_iff fun x => ?_
  rw [top_le_iff, top_le_iff, h.barrier_eq]
  refine and_congr_right fun _ => ⟨fun hall e he => ?_, fun hall e he => ?_⟩
  · exact hall (f e.1, e.2) ((h.mem_iff _ _).2 ⟨e.1, he, rfl⟩)
  · obtain ⟨q, hq, -⟩ := (h.mem_iff _ _).1 he
    exact hall (q, e.2) hq

theorem raise (h : Renames f S s s') : Renames f S s.raise s'.raise where
  barrier_eq := congrArg (· + 1) h.top_eq
  nodup := by simpa [Levels.raise, Function.comp_def] using h.nodup
  nodup' := by simpa [Levels.raise, Function.comp_def] using h.nodup'
  mem_set e he := by
    obtain ⟨e', he', rfl⟩ := List.mem_map.1 he
    exact h.mem_set e' he'
  mem_iff r v := by
    have hkey : (∃ w, (r, w) ∈ s'.entries) ↔ ∃ q, (∃ w, (q, w) ∈ s.entries) ∧ f q = r := by
      constructor
      · rintro ⟨w, hw⟩
        obtain ⟨q, hq, hqr⟩ := (h.mem_iff r w).1 hw
        exact ⟨q, ⟨w, hq⟩, hqr⟩
      · rintro ⟨q, ⟨w, hq⟩, hqr⟩
        exact ⟨w, (h.mem_iff r w).2 ⟨q, hq, hqr⟩⟩
    simp only [Levels.raise, List.mem_map, Prod.exists, Prod.mk.injEq, h.top_eq]
    constructor
    · rintro ⟨k, w, hk, rfl, rfl⟩
      obtain ⟨q, ⟨u, hq⟩, hqr⟩ := hkey.1 ⟨w, hk⟩
      exact ⟨q, ⟨q, u, hq, rfl, rfl⟩, hqr⟩
    · rintro ⟨q, ⟨k, w, hk, rfl, rfl⟩, hqr⟩
      obtain ⟨u, hu⟩ := hkey.2 ⟨k, ⟨w, hk⟩, hqr⟩
      exact ⟨r, u, hu, rfl, rfl⟩

theorem place (h : Renames f S s s') (hf : Set.InjOn f S) (hqs : ∀ q ∈ qs, q ∈ S) :
    Renames f S (s.place qs) (s'.place (Involved.ofList (qs.map f))) := by
  have hdepth : ((Involved.ofList (qs.map f)).map s'.level).foldl max 0
      = (qs.map s.level).foldl max 0 := by
    refine eq_of_forall_ge_iff fun x => ?_
    rw [foldl_max_le_iff, foldl_max_le_iff, List.forall_mem_map, List.forall_mem_map]
    refine and_congr_right fun _ => ⟨fun hall q hq => ?_, fun hall r hr => ?_⟩
    · rw [← h.level_eq hf (hqs q hq)]
      exact hall _ (Involved.mem_ofList.2 (List.mem_map_of_mem hq))
    · obtain ⟨q, hq, rfl⟩ := List.mem_map.1 (Involved.mem_ofList.1 hr)
      rw [h.level_eq hf (hqs q hq)]
      exact hall q hq
  obtain ⟨hnodup, hmem⟩ := mem_foldl_setEntry qs ((qs.map s.level).foldl max 0 + 1) h.nodup
  obtain ⟨hnodup', hmem'⟩ := mem_foldl_setEntry (Involved.ofList (qs.map f))
    ((qs.map s.level).foldl max 0 + 1) h.nodup'
  rw [Levels.place, Levels.place, hdepth]
  refine ⟨h.barrier_eq, hnodup, hnodup', fun e he => ?_, fun r v => ?_⟩
  · rcases (hmem e.1 e.2).1 he with ⟨hq, -⟩ | ⟨-, he⟩
    · exact hqs _ hq
    · exact h.mem_set e he
  · rw [hmem', Involved.mem_ofList, List.mem_map, h.mem_iff]
    simp only [hmem]
    constructor
    · rintro (⟨⟨q, hq, hqr⟩, hv⟩ | ⟨hnot, q, hq, hqr⟩)
      · exact ⟨q, Or.inl ⟨hq, hv⟩, hqr⟩
      · exact ⟨q, Or.inr ⟨fun hmem => hnot ⟨q, hmem, hqr⟩, hq⟩, hqr⟩
    · rintro ⟨q, ⟨hq, hv⟩ | ⟨hnot, hq⟩, hqr⟩
      · exact Or.inl ⟨⟨q, hq, hqr⟩, hv⟩
      · refine Or.inr ⟨?_, q, hq, hqr⟩
        -- an equal image would be the image of the same qubit
        rintro ⟨p, hp, hpr⟩
        have hpq : p = q := hf (hqs p hp) (h.mem_set _ hq) (hpr.trans hqr.symm)
        exact hnot (hpq ▸ hp)

/-- One operation keeps the levels of two runs apart by the renaming only, or stops both runs. -/
theorem after (h : Renames f S s s') (hf : Set.InjOn f S) {i : Involved}
    (hi : ∀ q ∈ i.toList, q ∈ S) :
    (∃ t t', s.after i = .ok t ∧ s'.after (i.map f) = .ok t' ∧ Renames f S t t')
      ∨ ∃ e, s.after i = .error e ∧ s'.after (i.map f) = .error e := by
  cases i with
  | all => exact Or.inl ⟨_, _, rfl, rfl, h.raise⟩
  | none => exact Or.inl ⟨_, _, rfl, rfl, h⟩
  | finite qs =>
      by_cases hne : qs = []
      · subst hne
        exact Or.inr ⟨_, rfl, rfl⟩
      · have hne' : Involved.ofList (qs.map f) ≠ [] := by
          rwa [Ne, Involved.ofList_eq_nil_iff, List.map_eq_nil_iff]
        exact Or.inl ⟨_, _, after_finite hne, after_finite hne', h.place hf hi⟩

theorem foldlM_after (h : Renames f S s s') (hf : Set.InjOn f S) {parts : List Involved}
    (hparts : ∀ i ∈ parts, ∀ q ∈ i.toList, q ∈ S) :
    ((parts.map (Involved.map f)).foldlM Levels.after s').map top
      = (parts.foldlM Levels.after s).map top := by
  induction parts generalizing s s' with
  | nil => exact congrArg Except.ok h.top_eq
  | cons i parts ih =>
      have hrest : ∀ j ∈ parts, ∀ q ∈ j.toList, q ∈ S := fun j hj =>
        hparts j (List.mem_cons_of_mem i hj)
      rw [List.map_cons, List.foldlM_cons, List.foldlM_cons]
      obtain ⟨t, t', ht, ht', hnext⟩ | ⟨e, he, he'⟩ := h.after hf (hparts i List.mem_cons_self)
      · rw [ht, ht']
        exact ih hnext hrest
      · rw [he, he']
        rfl

end Renames

end Levels

end CircuitIR
