import CircuitIR.Operation.Remapping
import CircuitIR.Proofs.InvolvedQubits
import Mathlib.Data.List.Forall2

/-!
# Renaming of indices

A traversal that never fails only renames the indices of an operation. Drafts, validation and remapping
are traversals, so each of them is a renaming of the operation that it starts from: validation undoes the
widening of a draft (`validate_toDraft`), and remapping through a map that sends every qubit to a qubit of
its own renames the qubits (`remap_result`).
-/

namespace CircuitIR

theorem mapM_eq_ok {ε α β : Type} {xs : List α} {f : α → Except ε β} {g : α → β}
    (h : ∀ x ∈ xs, f x = .ok (g x)) : xs.mapM f = .ok (xs.map g) := by
  induction xs with
  | nil => rfl
  | cons x xs ih =>
      rw [List.mapM_cons, h x List.mem_cons_self, ih fun y hy => h y (List.mem_cons_of_mem x hy)]
      rfl

theorem ok_bind {ε α β : Type} (a : α) (f : α → Except ε β) : (Except.ok a >>= f) = f a := rfl

theorem error_bind {ε α β : Type} (e : ε) (f : α → Except ε β) :
    (Except.error e >>= f) = .error e := rfl

theorem bind_eq_ok {ε α β : Type} {x : Except ε α} {f : α → Except ε β} {b : β} :
    (x >>= f) = .ok b ↔ ∃ a, x = .ok a ∧ f a = .ok b := by
  cases x with
  | error e => exact ⟨fun h => (nomatch h), fun ⟨_, h, _⟩ => (nomatch h)⟩
  | ok a => exact ⟨fun h => ⟨a, rfl, h⟩, fun ⟨_, h, hf⟩ => Except.ok.inj h ▸ hf⟩

theorem Traced.bind_result_eq_ok {α β : Type} {x : Traced α} {f : α → Traced β} {b : β} :
    (x >>= f).result = .ok b ↔ ∃ a, x.result = .ok a ∧ (f a).result = .ok b := by
  rw [result_bind, bind_eq_ok]

/-- A traversal that succeeds relates the members one by one. -/
theorem mapM_eq_ok_iff {ε α β : Type} {f : α → Except ε β} {xs : List α} {ys : List β} :
    xs.mapM f = .ok ys ↔ List.Forall₂ (fun x y => f x = .ok y) xs ys := by
  induction xs generalizing ys with
  | nil =>
      rw [List.forall₂_nil_left_iff]
      exact ⟨fun h => (Except.ok.inj h).symm, fun h => h ▸ rfl⟩
  | cons x xs ih =>
      rw [List.mapM_cons, bind_eq_ok]
      constructor
      · rintro ⟨y, hy, h⟩
        obtain ⟨rest, hrest, h⟩ := bind_eq_ok.1 h
        obtain rfl : y :: rest = ys := Except.ok.inj h
        exact .cons hy (ih.1 hrest)
      · rintro (_ | ⟨hy, hrest⟩)
        exact ⟨_, hy, bind_eq_ok.2 ⟨_, ih.2 hrest, rfl⟩⟩

theorem forall_of_mapM_eq_ok {ε α β : Type} {P : β → Prop} {xs : List α} {ys : List β}
    {f : α → Except ε β} (h : ∀ x ∈ xs, ∀ y, f x = .ok y → P y) (hxs : xs.mapM f = .ok ys) :
    ∀ y ∈ ys, P y := by
  rw [mapM_eq_ok_iff] at hxs
  induction hxs with
  | nil => exact fun y hy => absurd hy List.not_mem_nil
  | cons hy _ ih =>
      rw [List.forall_mem_cons] at h ⊢
      exact ⟨h.1 _ hy, ih h.2⟩

theorem map_eq_of_mapM_eq_ok {ε α β γ : Type} {xs : List α} {ys : List β} {f : α → Except ε β}
    {g : β → γ} {k : α → γ} (h : ∀ x y, f x = .ok y → g y = k x) (hxs : xs.mapM f = .ok ys) :
    ys.map g = xs.map k := by
  rw [mapM_eq_ok_iff] at hxs
  induction hxs with
  | nil => rfl
  | cons hy _ ih => rw [List.map_cons, h _ _ hy, ih, List.map_cons]

namespace OperationOf

variable {I J K P R : Type} {op : OperationOf I P}

/-- Sends the qubits of an operation through one function and its counts through another. -/
def mapIndices (f g : I → J) : OperationOf I P → OperationOf J P
  | fixed a q => fixed a (f q)
  | angle a q θ => angle a (f q) θ
  | pair a c t => pair a (f c) (f t)
  | controlledPhase c t θ => controlledPhase (f c) (f t) θ
  | interaction a qs θ => interaction a (qs.map f) θ
  | multiControlledNot qs => multiControlledNot (qs.map f)
  | fourier qs s i => fourier (qs.map f) s i
  | call n qs ps => call n (qs.map f) ps
  | globalPhase φ => globalPhase φ
  | setMeasurements k r => setMeasurements (g k) r
  | repeatedMeasurement r k t => repeatedMeasurement r (g k) t
  | reset q => reset (f q)
  | measure q r k => measure (f q) r (g k)
  | definition t n k o => definition t n (g k) o

@[simp]
theorem variant_mapIndices (f g : I → J) (op : OperationOf I P) :
    (op.mapIndices f g).variant = op.variant := by
  cases op <;> rfl

@[simp]
theorem qubits_mapIndices (f g : I → J) (op : OperationOf I P) :
    (op.mapIndices f g).qubits = op.qubits.map f := by
  cases op <;> rfl

@[simp]
theorem parameters_mapIndices (f g : I → J) (op : OperationOf I P) :
    (op.mapIndices f g).parameters = op.parameters := by
  cases op <;> rfl

theorem mapIndices_id (op : OperationOf I P) : op.mapIndices id id = op := by
  cases op <;> simp [mapIndices]

theorem mapIndices_mapIndices (f g : I → J) (f' g' : J → K) (op : OperationOf I P) :
    (op.mapIndices f g).mapIndices f' g' = op.mapIndices (f' ∘ f) (g' ∘ g) := by
  cases op <;> simp [mapIndices]

theorem mapIndices_congr {f f' g : I → J} (h : ∀ q ∈ op.qubits, f q = f' q) :
    op.mapIndices f g = op.mapIndices f' g := by
  cases op with
  | globalPhase | setMeasurements | repeatedMeasurement | definition => rfl
  | interaction a qs θ | multiControlledNot qs | fourier qs s i | call n qs ps =>
      have hqs : qs.map f = qs.map f' := List.map_congr_left h
      rw [mapIndices, hqs, mapIndices]
  | _ =>
      simp only [qubits, List.forall_mem_cons] at h
      simp only [mapIndices, h]

theorem toDraft_eq_mapIndices (op : Operation R) :
    op.toDraft = op.mapIndices Int.ofNat Int.ofNat := by
  cases op with
  | interaction _ qs _ | multiControlledNot qs | fourier qs _ _ | call _ qs _ =>
      have hqs : (qs.mapM fun n => (pure (Int.ofNat n) : Id ℤ)) = pure (qs.map Int.ofNat) :=
        List.mapM_pure
      simp only [toDraft, traverseIndices, mapIndices]
      exact congrArg Id.run (congrArg (· >>= _) hqs)
  | _ => rfl

section Traversal

variable {ε : Type} {onQubit onCount : String → J → Except ε K} {f g : I → J} {f' g' : I → K}

/-- **A traversal that succeeds everywhere is a renaming.** -/
theorem traverseIndices_mapIndices (hqubit : ∀ s, ∀ q ∈ op.qubits, onQubit s (f q) = .ok (f' q))
    (hcount : ∀ s n, onCount s (g n) = .ok (g' n)) :
    (op.mapIndices f g).traverseIndices onQubit onCount = .ok (op.mapIndices f' g') := by
  have hlist : ∀ (qs : List I) (s : String), (∀ q ∈ qs, onQubit s (f q) = .ok (f' q)) →
      (qs.map f).mapM (onQubit s) = .ok (qs.map f') := by
    intro qs s hqs
    rw [List.mapM_map]
    exact mapM_eq_ok hqs
  cases op with
  | fixed a q | angle a q θ | reset q =>
      rw [mapIndices, traverseIndices, hqubit _ q List.mem_cons_self]
      rfl
  | pair a c t | controlledPhase c t θ =>
      rw [mapIndices, traverseIndices, hqubit _ c List.mem_cons_self,
        hqubit _ t (List.mem_cons_of_mem c List.mem_cons_self)]
      rfl
  | interaction a qs θ | multiControlledNot qs | fourier qs s i | call n qs ps =>
      rw [mapIndices, traverseIndices, hlist qs _ (hqubit _)]
      rfl
  | globalPhase φ => rfl
  | setMeasurements k r | repeatedMeasurement r k t | definition t n k o =>
      rw [mapIndices, traverseIndices, hcount]
      rfl
  | measure q r k =>
      rw [mapIndices, traverseIndices, hqubit _ q List.mem_cons_self, hcount]
      rfl

/-- A traversal whose results give back their arguments is a renaming backwards. -/
theorem mapIndices_of_traverseIndices {onQubit onCount : String → I → Except ε J} {back : J → I}
    {op' : OperationOf J P} (hqubit : ∀ s i j, onQubit s i = .ok j → back j = i)
    (hcount : ∀ s i j, onCount s i = .ok j → back j = i)
    (h : op.traverseIndices onQubit onCount = .ok op') : op'.mapIndices back back = op := by
  cases op with
  | fixed a q | angle a q θ | reset q =>
      obtain ⟨q', hq, hop⟩ := bind_eq_ok.1 h
      obtain rfl := Except.ok.inj hop
      rw [mapIndices, hqubit _ _ _ hq]
  | pair a c t | controlledPhase c t θ =>
      obtain ⟨c', hc, hop⟩ := bind_eq_ok.1 h
      obtain ⟨t', ht, hop⟩ := bind_eq_ok.1 hop
      obtain rfl := Except.ok.inj hop
      rw [mapIndices, hqubit _ _ _ hc, hqubit _ _ _ ht]
  | interaction a qs θ | multiControlledNot qs | fourier qs s i | call n qs ps =>
      obtain ⟨qs', hqs, hop⟩ := bind_eq_ok.1 h
      obtain rfl := Except.ok.inj hop
      rw [mapIndices, map_eq_of_mapM_eq_ok (hqubit _) hqs, List.map_id']
  | globalPhase φ =>
      obtain rfl := Except.ok.inj h
      rfl
  | setMeasurements k r | repeatedMeasurement r k t | definition t n k o =>
      obtain ⟨k', hk, hop⟩ := bind_eq_ok.1 h
      obtain rfl := Except.ok.inj hop
      rw [mapIndices, hcount _ _ _ hk]
  | measure q r k =>
      obtain ⟨q', hq, hop⟩ := bind_eq_ok.1 h
      obtain ⟨k', hk, hop⟩ := bind_eq_ok.1 hop
      obtain rfl := Except.ok.inj hop
      rw [mapIndices, hqubit _ _ _ hq, hcount _ _ _ hk]

end Traversal

theorem checkQubit_ofNat (v : Variant) (s : String) (n : ℕ) :
    checkQubit v s (Int.ofNat n) = .ok n :=
  if_neg (Int.not_lt.2 (Int.natCast_nonneg n))

theorem checkCount_ofNat (s : String) (n : ℕ) : checkCount s (Int.ofNat n) = .ok n :=
  if_neg (Int.not_lt.2 (Int.natCast_nonneg n))

/-- A draft with natural numbers for its indices is valid if its qubits are different. -/
theorem validate_mapIndices (op : OperationOf I (Parameter R)) (f g : I → ℕ)
    (hdistinct : (op.qubits.map f).Nodup) :
    (op.mapIndices (fun q => Int.ofNat (f q)) fun n => Int.ofNat (g n)).validate
      = .ok (op.mapIndices f g) := by
  rw [validate, traverseIndices_mapIndices (fun s q _ => checkQubit_ofNat _ s (f q))
    fun s n => checkCount_ofNat s (g n)]
  change (if (op.mapIndices f g).qubits.Nodup then _ else _) = _
  rw [qubits_mapIndices, if_pos hdistinct]
  rfl

/-- Validation gives back the operation that a draft comes from. -/
theorem validate_toDraft {op : Operation R} (hdistinct : op.qubits.Nodup) :
    op.toDraft.validate = .ok op := by
  rw [toDraft_eq_mapIndices]
  have h := validate_mapIndices op id id (by rwa [List.map_id])
  rwa [mapIndices_id] at h

/-- **Validation adds and changes nothing**: the operation that it makes of a draft has different qubits and
widens to the draft. -/
theorem validate_eq_ok {draft : Draft R} {op : Operation R} (h : draft.validate = .ok op) :
    op.qubits.Nodup ∧ op.mapIndices Int.ofNat Int.ofNat = draft := by
  have hcheck : ∀ (e : Fault) (n : ℤ) (m : ℕ),
      (if n < 0 then .error e else .ok n.toNat) = Except.ok m → Int.ofNat m = n := by
    intro e n m hm
    by_cases hn : n < 0
    · rw [if_pos hn] at hm
      exact nomatch hm
    · rw [if_neg hn] at hm
      rw [← Except.ok.inj hm]
      exact Int.toNat_of_nonneg (Int.not_lt.1 hn)
  have hqubit : ∀ s n m, checkQubit draft.variant s n = .ok m → Int.ofNat m = n := fun _ n m =>
    hcheck _ n m
  have hcount : ∀ s n m, checkCount s n = .ok m → Int.ofNat m = n := fun _ n m => hcheck _ n m
  obtain ⟨op', hop', hunique⟩ := bind_eq_ok.1 h
  by_cases hdistinct : op'.qubits.Nodup
  · rw [if_pos hdistinct] at hunique
    obtain rfl := Except.ok.inj hunique
    exact ⟨hdistinct, mapIndices_of_traverseIndices hqubit hcount hop'⟩
  · rw [if_neg hdistinct] at hunique
    exact nomatch hunique

end OperationOf

/-! ## Maps that rename -/

/-- The map covers some qubits and sends them to different qubits. -/
structure QubitMap.Renames (m : QubitMap) (f : ℕ → ℕ) (qs : List ℕ) : Prop where
  covers : ∀ q ∈ qs, m.covers q = .ok true
  target : ∀ q ∈ qs, m.target q = .ok (.ofInt (f q))
  injective : ∀ q ∈ qs, ∀ r ∈ qs, f q = f r → q = r

namespace QubitMap

variable {m : QubitMap} {f : ℕ → ℕ} {qs rs : List ℕ}

theorem Renames.subset (h : m.Renames f qs) (hsub : ∀ q ∈ rs, q ∈ qs) : m.Renames f rs where
  covers q hq := h.covers q (hsub q hq)
  target q hq := h.target q (hsub q hq)
  injective q hq r hr := h.injective q (hsub q hq) r (hsub r hr)

theorem Renames.nodup_map (h : m.Renames f qs) (hqs : qs.Nodup) : (qs.map f).Nodup :=
  hqs.map_on fun q hq r hr => h.injective q hq r hr

/-- A table renames the qubits for which it has different entries. -/
theorem renames_ofList {entries : List (ℤ × ℤ)} (hentry : ∀ q ∈ qs, lookUp entries q = some ↑(f q))
    (hinjective : ∀ q ∈ qs, ∀ r ∈ qs, f q = f r → q = r) : (ofList entries).Renames f qs where
  covers q hq := by simp [ofList, hentry q hq]
  target q hq := by simp [ofList, hentry q hq]
  injective := hinjective

theorem filterAuxM_eq_nil {ks : List ℤ} (h : ∀ k ∈ ks, m.covers k = .ok true) :
    ks.filterAuxM (fun k => do return !(← m.covers k)) [] = .ok [] := by
  induction ks with
  | nil => rfl
  | cons k ks ih =>
      rw [List.filterAuxM, h k List.mem_cons_self]
      exact ih fun k' hk' => h k' (List.mem_cons_of_mem k hk')

theorem Renames.missing_eq_nil (h : m.Renames f qs) : m.missing (qs.map Int.ofNat) = .ok [] := by
  have hcovers : ∀ k ∈ qs.map Int.ofNat, m.covers k = .ok true := by
    intro k hk
    obtain ⟨q, hq, rfl⟩ := List.mem_map.1 hk
    exact h.covers q hq
  rw [missing, List.filterM, filterAuxM_eq_nil hcovers]
  rfl

end QubitMap

namespace OperationOf

variable {R : Type} {op : Operation R} {m : QubitMap} {f : ℕ → ℕ}

/-- **Remapping is renaming.** An operation on a finite set of qubits has its qubits renamed by a map that
covers them and keeps them apart. -/
theorem remap_result (hinvolved : op.involved = .finite (Involved.ofList op.qubits))
    (hdistinct : op.qubits.Nodup) (hm : m.Renames f op.qubits) :
    (op.remap m).result = .ok (op.mapIndices f id) := by
  have hcheck : (m.checkTotal ((Involved.ofList op.qubits).map Int.ofNat)).result = .ok () := by
    have hset : m.Renames f (Involved.ofList op.qubits) :=
      hm.subset fun q hq => Involved.mem_ofList.1 hq
    rw [QubitMap.checkTotal, hset.missing_eq_nil]
    rfl
  have hlooked : op.toDraft.traverseIndices (fun _ q => m.target q) (fun _ n => .ok (.ofInt n))
      = .ok (op.mapIndices (fun q => QubitTarget.ofInt (f q)) fun n => .ofInt n) := by
    rw [toDraft_eq_mapIndices]
    exact traverseIndices_mapIndices (fun _ q hq => hm.target q hq) fun _ _ => rfl
  have hread : (op.mapIndices (fun q => QubitTarget.ofInt (f q)) fun n => .ofInt n).traverseIndices
        (fun _ t => t.asQubit) (fun _ t => t.asQubit)
      = .ok (op.mapIndices (fun q => Int.ofNat (f q)) fun n => Int.ofNat n) :=
    traverseIndices_mapIndices (fun _ _ _ => rfl) fun _ _ => rfl
  have hvalid : (op.mapIndices (fun q => Int.ofNat (f q)) fun n => Int.ofNat n).validate
      = .ok (op.mapIndices f id) := validate_mapIndices op f id (hm.nodup_map hdistinct)
  unfold remap
  rw [hinvolved]
  change (m.checkTotal ((Involved.ofList op.qubits).map Int.ofNat) >>= fun _ =>
    Traced.ofExcept (op.remapCovered m ((Involved.ofList op.qubits).map Int.ofNat))).result = _
  rw [Traced.result_bind, hcheck, remapCovered, hlooked]
  change ((op.mapIndices (fun q => QubitTarget.ofInt (f q)) fun n => .ofInt n).traverseIndices
    (fun _ t => t.asQubit) (fun _ t => t.asQubit) >>= _) = _
  rw [hread]
  refine bind_eq_ok.2 ⟨_, rfl, ?_⟩
  simp only [hvalid]
  rfl

end OperationOf

end CircuitIR
