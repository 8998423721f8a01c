import CircuitIR.Circuit.Unitary
import CircuitIR.Proofs.TouchedQubits
import Mathlib.Data.List.Sort
import Mathlib.Order.Bounds.Defs

/-!
# Involved qubits of gates

Sets of qubits are strictly increasing lists, so they are equal when they have the same members. For
gates the involved qubits are those that the sequence touches, and the frame of a circuit's own qubits
is determined by them.
-/

namespace CircuitIR

theorem isLeast_of_find? {α : Type} [LinearOrder α] {xs : List α} {p : α → Bool} {x : α}
    (hxs : xs.Pairwise (· < ·)) (h : xs.find? p = some x) : IsLeast {y | y ∈ xs ∧ p y = true} x := by
  obtain ⟨hx, before, after, rfl, hbefore⟩ := List.find?_eq_some_iff_append.1 h
  rw [List.pairwise_append, List.pairwise_cons] at hxs
  refine ⟨⟨List.mem_append_right before List.mem_cons_self, hx⟩, fun y ⟨hy, hpy⟩ => ?_⟩
  rw [List.mem_append, List.mem_cons] at hy
  rcases hy with hy | rfl | hy
  · have hnot := hbefore y hy
    rw [hpy] at hnot
    exact nomatch hnot
  · exact le_refl y
  · exact (hxs.2.1.1 y hy).le

namespace Involved

variable {q r : ℕ} {qs rs : List ℕ}

theorem mem_insert : q ∈ insert r qs ↔ q = r ∨ q ∈ qs := by
  induction qs with
  | nil => simp [insert]
  | cons a qs ih =>
      rw [insert]
      split
      · simp
      · split
        · simp_all
        · rw [List.mem_cons, ih, List.mem_cons]
          exact or_left_comm

theorem pairwise_insert (hqs : qs.Pairwise (· < ·)) (q : ℕ) :
    (insert q qs).Pairwise (· < ·) := by
  induction qs with
  | nil => simp [insert]
  | cons a qs ih =>
      have hall := (List.pairwise_cons.1 hqs).1
      rw [insert]
      split
      · rename_i hlt
        refine List.pairwise_cons.2 ⟨fun r hr => ?_, hqs⟩
        rcases List.mem_cons.1 hr with rfl | hr
        · exact hlt
        · exact hlt.trans (hall r hr)
      · split
        · exact hqs
        · refine List.pairwise_cons.2 ⟨fun r hr => ?_, ih (List.pairwise_cons.1 hqs).2⟩
          rcases mem_insert.1 hr with rfl | hr
          · omega
          · exact hall r hr

theorem mem_ofList : q ∈ ofList qs ↔ q ∈ qs := by
  induction qs with
  | nil => rfl
  | cons a qs ih => rw [List.mem_cons, ← ih, ← mem_insert]; rfl

theorem ofList_eq_nil_iff : ofList qs = [] ↔ qs = [] := by
  rw [List.eq_nil_iff_forall_not_mem, List.eq_nil_iff_forall_not_mem]
  exact forall_congr' fun q => not_congr mem_ofList

theorem pairwise_ofList (qs : List ℕ) : (ofList qs).Pairwise (· < ·) := by
  induction qs with
  | nil => exact List.Pairwise.nil
  | cons a qs ih => exact pairwise_insert ih a

theorem nodup_ofList (qs : List ℕ) : (ofList qs).Nodup :=
  (pairwise_ofList qs).imp Nat.ne_of_lt

theorem ofList_congr (h : ∀ q, q ∈ qs ↔ q ∈ rs) : ofList qs = ofList rs :=
  (pairwise_ofList qs).eq_of_mem_iff (pairwise_ofList rs) fun q => by rw [mem_ofList, mem_ofList, h]

end Involved

variable {R : Type}

theorem OperationOf.involved_of_isGate {op : Operation R} (h : op.variant.isGate = true) :
    op.involved = .finite (Involved.ofList op.qubits) := by
  cases op with
  | globalPhase | setMeasurements | definition | repeatedMeasurement =>
      exact absurd h Bool.false_ne_true
  | _ => rfl

theorem OperationOf.involved_eq_finite {op : Operation R} {qs : List ℕ} (h : op.involved = .finite qs) :
    op.involved = .finite (Involved.ofList op.qubits) := by
  cases op with
  | globalPhase | setMeasurements | definition | repeatedMeasurement => exact nomatch h
  | _ => rfl

namespace Circuit

variable {c d : Circuit R}

theorem any_isAll_eq_false_iff : (c.operations.map fun op => op.involved).any Involved.isAll = false
    ↔ ∀ op ∈ c.operations, op.involved ≠ .all := by
  have hall : ∀ i : Involved, i.isAll ≠ true ↔ i ≠ .all := by
    intro i
    cases i <;> simp [Involved.isAll]
  rw [List.any_eq_false, List.forall_mem_map]
  exact forall₂_congr fun op _ => hall op.involved

theorem any_isAll_eq_false (hc : ∀ op ∈ c.operations, op.variant.isGate = true) :
    (c.operations.map fun op => op.involved).any Involved.isAll = false := by
  rw [any_isAll_eq_false_iff]
  intro op hop
  rw [OperationOf.involved_of_isGate (hc op hop)]
  exact nofun

theorem mem_parts (hc : ∀ op ∈ c.operations, op.variant.isGate = true) (q : ℕ) :
    q ∈ (c.operations.map fun op => op.involved).flatMap Involved.toList
      ↔ Touches c.operations q := by
  have hop : ∀ op ∈ c.operations, q ∈ op.involved.toList ↔ q ∈ op.qubits := by
    intro op hop
    rw [OperationOf.involved_of_isGate (hc op hop), Involved.toList, Involved.mem_ofList]
  simp only [List.mem_flatMap, List.mem_map, Touches]
  constructor
  · rintro ⟨_, ⟨op, hmem, rfl⟩, hq⟩
    exact ⟨op, hmem, (hop op hmem).1 hq⟩
  · rintro ⟨op, hmem, hq⟩
    exact ⟨_, ⟨op, hmem, rfl⟩, (hop op hmem).2 hq⟩

theorem involved_congr (hc : ∀ op ∈ c.operations, op.variant.isGate = true)
    (hd : ∀ op ∈ d.operations, op.variant.isGate = true)
    (h : ∀ q, Touches c.operations q ↔ Touches d.operations q) : c.involved = d.involved := by
  have hset := Involved.ofList_congr fun q => ((mem_parts hc q).trans (h q)).trans
    (mem_parts hd q).symm
  simp only [involved, any_isAll_eq_false hc, any_isAll_eq_false hd, hset]

theorem ownFrame_congr (h : c.involved = d.involved) : c.ownFrame = d.ownFrame := by
  rw [ownFrame, ownFrame, h]

/-- Unless some operation acts on all qubits, the own frame of a circuit lists the involved ones. -/
theorem ownFrame_eq_ok
    (h : (c.operations.map fun op => op.involved).any Involved.isAll = false) :
    c.ownFrame = .ok (.ofList (Involved.ofList
      ((c.operations.map fun op => op.involved).flatMap Involved.toList))) := by
  rw [ownFrame, involved, h]
  cases Involved.ofList ((c.operations.map fun op => op.involved).flatMap Involved.toList) <;> rfl

/-- The own frame of a circuit of gates lists the qubits that it touches. -/
theorem exists_ownFrame (hc : ∀ op ∈ c.operations, op.variant.isGate = true) :
    ∃ qs, c.ownFrame = .ok (.ofList qs) ∧ qs.Nodup ∧ ∀ q, Touches c.operations q → q ∈ qs :=
  ⟨_, ownFrame_eq_ok (any_isAll_eq_false hc), Involved.nodup_ofList _, fun q hq =>
    Involved.mem_ofList.2 ((mem_parts hc q).2 hq)⟩

end Circuit

end CircuitIR
