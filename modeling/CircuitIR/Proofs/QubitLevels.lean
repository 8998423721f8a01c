import CircuitIR.Circuit.Depth
import CircuitIR.Proofs.IndexRenaming
import CircuitIR.Proofs.Table
import Mathlib.Order.Bounds.Defs

/-!
# Levels of qubits

The depth analysis keeps a level for every qubit. The entries of its table have different keys throughout, so
the level after an operation is read off the entry: the qubits of the operation are lifted above their highest
level, and the others stay. Only an operation on an empty set of qubits stops the analysis.
-/

namespace CircuitIR

/-- An operation with this answer acts on the qubit. -/
def Involved.Covers : Involved → ℕ → Prop
  | all, _ => True
  | none, _ => False
  | finite qs, q => q ∈ qs

theorem foldl_max_le_iff {ns : List ℕ} {b x : ℕ} :
    ns.foldl max b ≤ x ↔ b ≤ x ∧ ∀ n ∈ ns, n ≤ x := by
  induction ns generalizing b with
  | nil => simp
  | cons n ns ih => rw [List.foldl_cons, ih, Nat.max_le, List.forall_mem_cons, and_assoc]

theorem foldl_max_mem (ns : List ℕ) (b : ℕ) : ns.foldl max b ∈ b :: ns := by
  induction ns generalizing b with
  | nil => exact List.mem_cons_self
  | cons n ns ih =>
      rw [List.foldl_cons, List.mem_cons, List.mem_cons]
      rcases List.mem_cons.1 (ih (max b n)) with heq | hmem
      · rw [heq]
        omega
      · exact Or.inr (Or.inr hmem)

namespace Levels

variable {s t : Levels} {q r d v : ℕ} {qs : List ℕ} {es : List (ℕ × ℕ)} {parts : List Involved}

theorem mem_keys_setEntry :
    r ∈ (setEntry q d es).map (·.1) ↔ r = q ∨ r ∈ es.map (·.1) := by
  induction es with
  | nil => simp [setEntry]
  | cons e es ih =>
      rw [setEntry]
      by_cases he : e.1 = q
      · rw [if_pos he, List.map_cons, List.map_cons, List.mem_cons, List.mem_cons, he, ← or_assoc,
          or_self]
      · rw [if_neg he, List.map_cons, List.map_cons, List.mem_cons, List.mem_cons, ih]
        exact or_left_comm

theorem nodup_keys_setEntry (hes : (es.map (·.1)).Nodup) :
    ((setEntry q d es).map (·.1)).Nodup := by
  induction es with
  | nil => exact List.nodup_singleton q
  | cons e es ih =>
      rw [List.map_cons, List.nodup_cons] at hes
      rw [setEntry]
      by_cases he : e.1 = q
      · rw [if_pos he, List.map_cons, List.nodup_cons]
        exact ⟨he ▸ hes.1, hes.2⟩
      · rw [if_neg he, List.map_cons, List.nodup_cons, mem_keys_setEntry]
        exact ⟨fun h => h.elim he hes.1, ih hes.2⟩

theorem mem_setEntry (hes : (es.map (·.1)).Nodup) :
    (r, v) ∈ setEntry q d es ↔ (r = q ∧ v = d) ∨ (r ≠ q ∧ (r, v) ∈ es) := by
  induction es with
  | nil => simp [setEntry]
  | cons e es ih =>
      rw [List.map_cons, List.nodup_cons] at hes
      rw [setEntry]
      by_cases he : e.1 = q
      · have hkey : ∀ {w}, (r, w) ∈ es → r ≠ q := by
          rintro w hw rfl
          exact hes.1 (he ▸ List.mem_map_of_mem (f := Prod.fst) hw)
        have hhead : r ≠ q → (r, v) ≠ e := by
          rintro hr rfl
          exact hr he
        rw [if_pos he, List.mem_cons, List.mem_cons, Prod.mk.injEq]
        constructor
        · exact fun h => h.imp_right fun hw => ⟨hkey hw, Or.inr hw⟩
        · exact fun h => h.imp_right fun hw => hw.2.resolve_left (hhead hw.1)
      · have hhead : (r, v) = e → r ≠ q := by
          rintro rfl
          exact he
        rw [if_neg he, List.mem_cons, List.mem_cons, ih hes.2]
        constructor
        · rintro (h | h | h)
          · exact Or.inr ⟨hhead h, Or.inl h⟩
          · exact Or.inl h
          · exact Or.inr ⟨h.1, Or.inr h.2⟩
        · rintro (h | ⟨hr, h | h⟩)
          · exact Or.inr (Or.inl h)
          · exact Or.inl h
          · exact Or.inr (Or.inr ⟨hr, h⟩)

/-- After new levels for some qubits these have the new level and all others the old one. -/
theorem mem_foldl_setEntry (qs : List ℕ) (d : ℕ) (hes : (es.map (·.1)).Nodup) :
    ((qs.foldl (fun es q => setEntry q d es) es).map (·.1)).Nodup
      ∧ ∀ r v, (r, v) ∈ qs.foldl (fun es q => setEntry q d es) es
        ↔ (r ∈ qs ∧ v = d) ∨ (r ∉ qs ∧ (r, v) ∈ es) := by
  induction qs generalizing es with
  | nil => simpa using hes
  | cons q qs ih =>
      obtain ⟨hnodup, hmem⟩ := ih (nodup_keys_setEntry hes)
      refine ⟨hnodup, fun r v => ?_⟩
      rw [List.foldl_cons, hmem, mem_setEntry hes, List.mem_cons]
      by_cases hqs : r ∈ qs
      · simp [hqs]
      · by_cases hq : r = q
        · subst hq
          simp [hqs]
        · simp [hq, hqs]

theorem top_le_iff {x : ℕ} :
    s.top ≤ x ↔ s.barrier ≤ x ∧ ∀ e ∈ s.entries, e.2 ≤ x := by
  rw [top, foldl_max_le_iff, List.forall_mem_map]

theorem after_finite (hne : qs ≠ []) : s.after (.finite qs) = .ok (s.place qs) := by
  cases qs with
  | nil => exact absurd rfl hne
  | cons q qs => rfl

theorem nodup_keys_place (hs : (s.entries.map (·.1)).Nodup) (qs : List ℕ) :
    ((s.place qs).entries.map (·.1)).Nodup :=
  (mem_foldl_setEntry qs _ hs).1

theorem mem_entries_place (hs : (s.entries.map (·.1)).Nodup) : (r, v) ∈ (s.place qs).entries
    ↔ (r ∈ qs ∧ v = (qs.map s.level).foldl max 0 + 1) ∨ (r ∉ qs ∧ (r, v) ∈ s.entries) :=
  (mem_foldl_setEntry qs _ hs).2 r v

theorem level_of_mem (hs : (s.entries.map (·.1)).Nodup) (h : (q, v) ∈ s.entries) : s.level q = v := by
  rw [level, (lookup_eq_some_iff hs).2 h, Option.getD_some]

theorem level_of_notMem (h : q ∉ s.entries.map (·.1)) : s.level q = s.barrier := by
  have hlookup : s.entries.lookup q = none := by
    rw [List.lookup_eq_none_iff]
    intro e he
    rw [bne_iff_ne]
    rintro rfl
    exact h (List.mem_map_of_mem he)
  rw [level, hlookup, Option.getD_none]

theorem level_le_top (hs : (s.entries.map (·.1)).Nodup) (q : ℕ) : s.level q ≤ s.top := by
  obtain ⟨hbarrier, hentries⟩ := top_le_iff.1 (Nat.le_refl s.top)
  by_cases hq : q ∈ s.entries.map (·.1)
  · obtain ⟨e, he, rfl⟩ := List.mem_map.1 hq
    rw [level_of_mem hs he]
    exact hentries e he
  · rw [level_of_notMem hq]
    exact hbarrier

theorem exists_level_eq_top (hs : (s.entries.map (·.1)).Nodup) : ∃ q, s.level q = s.top := by
  rcases List.mem_cons.1 (foldl_max_mem (s.entries.map (·.2)) s.barrier) with htop | htop
  · -- the level of the last barrier is that of any qubit above all that are listed
    set ks := s.entries.map (·.1) with hks
    have hlisted : ∀ k ∈ ks, k ≤ ks.foldl max 0 := (foldl_max_le_iff.1 (Nat.le_refl _)).2
    have hfresh : ks.foldl max 0 + 1 ∉ ks := fun h => Nat.not_succ_le_self _ (hlisted _ h)
    exact ⟨_, (level_of_notMem hfresh).trans htop.symm⟩
  · obtain ⟨e, he, hvalue⟩ := List.mem_map.1 htop
    exact ⟨e.1, (level_of_mem hs he).trans hvalue⟩

theorem level_place_of_mem (hs : (s.entries.map (·.1)).Nodup) (hr : r ∈ qs) :
    (s.place qs).level r = (qs.map s.level).foldl max 0 + 1 :=
  level_of_mem (nodup_keys_place hs qs) ((mem_entries_place hs).2 (Or.inl ⟨hr, rfl⟩))

theorem level_raise (hs : (s.entries.map (·.1)).Nodup) (r : ℕ) : s.raise.level r = s.top + 1 := by
  have hkeys : s.raise.entries.map (·.1) = s.entries.map (·.1) := by
    simp [raise, Function.comp_def]
  by_cases hr : r ∈ s.entries.map (·.1)
  · obtain ⟨e, he, rfl⟩ := List.mem_map.1 hr
    exact level_of_mem (hkeys ▸ hs) (List.mem_map_of_mem he)
  · exact level_of_notMem (hkeys ▸ hr)

theorem level_place_of_notMem (hs : (s.entries.map (·.1)).Nodup) (hr : r ∉ qs) :
    (s.place qs).level r = s.level r := by
  have hlookup : (s.place qs).entries.lookup r = s.entries.lookup r := by
    refine Option.ext fun v => ?_
    rw [lookup_eq_some_iff (nodup_keys_place hs qs), lookup_eq_some_iff hs, mem_entries_place hs]
    constructor
    · rintro (⟨hmem, -⟩ | ⟨-, hentry⟩)
      · exact absurd hmem hr
      · exact hentry
    · intro hentry
      exact Or.inr ⟨hr, hentry⟩
  rw [level, hlookup]
  rfl

theorem nodup_keys_after {i : Involved} (hs : (s.entries.map (·.1)).Nodup) (h : s.after i = .ok t) :
    (t.entries.map (·.1)).Nodup := by
  cases i with
  | none =>
      obtain rfl := Except.ok.inj h
      exact hs
  | all =>
      obtain rfl := Except.ok.inj h
      simpa [raise, Function.comp_def] using hs
  | finite qs =>
      by_cases hqs : qs = []
      · subst hqs
        cases h
      · rw [after_finite hqs] at h
        obtain rfl := Except.ok.inj h
        exact nodup_keys_place hs qs

theorem nodup_keys_foldlM_after (hs : (s.entries.map (·.1)).Nodup)
    (h : parts.foldlM after s = .ok t) : (t.entries.map (·.1)).Nodup := by
  induction parts generalizing s with
  | nil =>
      obtain rfl := Except.ok.inj h
      exact hs
  | cons i parts ih =>
      rw [List.foldlM_cons, bind_eq_ok] at h
      obtain ⟨next, hnext, h⟩ := h
      exact ih (nodup_keys_after hs hnext) h

/-- An operation lifts the qubits that it acts on above the highest level among them, and no other qubit. -/
theorem level_after {i : Involved} (hs : (s.entries.map (·.1)).Nodup) (h : s.after i = .ok t) (q : ℕ) :
    (i.Covers q ∧ ∃ d, IsGreatest {d | ∃ r, i.Covers r ∧ s.level r = d} d ∧ t.level q = d + 1)
      ∨ (¬ i.Covers q ∧ t.level q = s.level q) := by
  cases i with
  | none =>
      obtain rfl := Except.ok.inj h
      exact Or.inr ⟨not_false, rfl⟩
  | all =>
      obtain rfl := Except.ok.inj h
      obtain ⟨r, hr⟩ := exists_level_eq_top hs
      refine Or.inl ⟨trivial, s.top, ⟨⟨r, trivial, hr⟩, ?_⟩, level_raise hs q⟩
      rintro _ ⟨p, -, rfl⟩
      exact level_le_top hs p
  | finite qs =>
      have hqs : qs ≠ [] := by
        rintro rfl
        exact nomatch h
      rw [after_finite hqs] at h
      obtain rfl := Except.ok.inj h
      by_cases hq : q ∈ qs
      · set d := (qs.map s.level).foldl max 0 with hd
        have hle : ∀ r ∈ qs, s.level r ≤ d := List.forall_mem_map.1 (foldl_max_le_iff.1 (Nat.le_refl d)).2
        refine Or.inl ⟨hq, d, ⟨?_, ?_⟩, level_place_of_mem hs hq⟩
        · rcases List.mem_cons.1 (foldl_max_mem (qs.map s.level) 0) with hzero | hmem
          · refine ⟨q, hq, Nat.le_antisymm (hle q hq) ?_⟩
            rw [hd, hzero]
            exact Nat.zero_le _
          · exact List.mem_map.1 hmem
        · rintro _ ⟨r, hr, rfl⟩
          exact hle r hr
      · exact Or.inr ⟨hq, level_place_of_notMem hs hq⟩

theorem exists_after {i : Involved} (hi : i ≠ .finite []) (s : Levels) : ∃ t, s.after i = .ok t := by
  cases i with
  | all => exact ⟨_, rfl⟩
  | none => exact ⟨_, rfl⟩
  | finite qs => exact ⟨_, after_finite fun hqs => hi (by rw [hqs])⟩

theorem exists_foldlM_after (hparts : ∀ i ∈ parts, i ≠ .finite [])
    (s : Levels) : ∃ t, parts.foldlM after s = .ok t := by
  induction parts generalizing s with
  | nil => exact ⟨s, rfl⟩
  | cons i parts ih =>
      rw [List.forall_mem_cons] at hparts
      obtain ⟨t, ht⟩ := exists_after hparts.1 s
      rw [List.foldlM_cons, ht]
      exact ih hparts.2 t

theorem foldlM_after_eq_error (hempty : .finite [] ∈ parts) (s : Levels) :
    parts.foldlM after s = .error (.foreign .wrongValue) := by
  induction parts generalizing s with
  | nil => exact absurd hempty List.not_mem_nil
  | cons i parts ih =>
      rw [List.foldlM_cons]
      by_cases hi : i = .finite []
      · subst hi
        rfl
      · obtain ⟨t, ht⟩ := exists_after hi s
        rw [ht]
        exact ih ((List.mem_cons.1 hempty).resolve_left (Ne.symm hi)) t

end Levels

theorem Circuit.depth_eq {R : Type} (c : Circuit R) :
    c.depth = ((c.operations.map fun op => op.involved).foldlM Levels.after .start).map
      Levels.top := by
  rw [depth, List.foldlM_map]
  cases c.operations.foldlM (fun s op => Levels.after s op.involved) Levels.start <;> rfl

theorem Circuit.exists_levels {R : Type} {c : Circuit R}
    (hc : ∀ op ∈ c.operations, op.involved ≠ .finite []) :
    ∃ s, (c.operations.map fun op => op.involved).foldlM Levels.after .start = .ok s
      ∧ c.depth = .ok s.top := by
  obtain ⟨s, hs⟩ := Levels.exists_foldlM_after (List.forall_mem_map.2 hc) .start
  refine ⟨s, hs, ?_⟩
  rw [depth_eq, hs]
  rfl

end CircuitIR
