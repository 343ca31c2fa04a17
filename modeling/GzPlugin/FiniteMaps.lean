import Mathlib.Data.Finmap

/-!
# Finite maps

What this development needs of `Finmap` beyond Mathlib: applying a function to every
value, the insertion that keeps an existing entry, and the statement that some entry
satisfies a predicate, with its behaviour under insertion and erasure.
-/

namespace GzPlugin.FiniteMaps

set_option autoImplicit false

universe u v w

variable {κ : Type u} {β : Type v} {γ : Type w}

/-- Apply `f` to every value; the keys stay. -/
def mapValues (f : β → γ) (m : Finmap fun _ : κ => β) : Finmap fun _ : κ => γ where
  entries := m.entries.map fun e => ⟨e.1, f e.2⟩
  nodupKeys := by
    rw [← Multiset.nodup_keys, Multiset.keys, Multiset.map_map]
    exact Multiset.nodup_keys.mpr m.nodupKeys

theorem keys_mapValues (f : β → γ) (m : Finmap fun _ : κ => β) :
    (mapValues f m).keys = m.keys := by
  apply Finset.val_injective
  change Multiset.map Sigma.fst (m.entries.map _) = Multiset.map Sigma.fst m.entries
  rw [Multiset.map_map]
  rfl

@[simp] theorem mem_mapValues {f : β → γ} {m : Finmap fun _ : κ => β} {k : κ} :
    k ∈ mapValues f m ↔ k ∈ m := by
  rw [← Finmap.mem_keys, keys_mapValues, Finmap.mem_keys]

variable [DecidableEq κ]

@[simp] theorem lookup_mapValues (f : β → γ) (m : Finmap fun _ : κ => β) (k : κ) :
    (mapValues f m).lookup k = (m.lookup k).map f := by
  cases h : m.lookup k with
  | none =>
    rw [Finmap.lookup_eq_none] at h
    rw [Option.map_none, Finmap.lookup_eq_none, mem_mapValues]
    exact h
  | some x =>
    rw [Finmap.lookup_eq_some_iff] at h
    rw [Option.map_some, Finmap.lookup_eq_some_iff]
    exact Multiset.mem_map.mpr ⟨⟨k, x⟩, h, rfl⟩

/-- The insertion of a C++ map: an entry that exists already is kept. -/
def insertNew (k : κ) (x : β) (m : Finmap fun _ : κ => β) : Finmap fun _ : κ => β :=
  if k ∈ m then m else m.insert k x

theorem lookup_insertNew (k k' : κ) (x : β) (m : Finmap fun _ : κ => β) :
    (insertNew k x m).lookup k' =
      if k' = k ∧ k ∉ m then some x else m.lookup k' := by
  unfold insertNew
  by_cases hk : k ∈ m
  · simp [hk]
  · by_cases he : k' = k
    · subst he; simp [hk]
    · simp [hk, he, Finmap.lookup_insert_of_ne]

theorem mem_insertNew {k k' : κ} {x : β} {m : Finmap fun _ : κ => β} :
    k' ∈ insertNew k x m ↔ k' = k ∨ k' ∈ m := by
  unfold insertNew
  split
  · constructor
    · exact Or.inr
    · rintro (rfl | h)
      · assumption
      · exact h
  · exact Finmap.mem_insert

theorem lookup_union (m₁ m₂ : Finmap fun _ : κ => β) (k : κ) :
    (m₁ ∪ m₂).lookup k = (m₁.lookup k).or (m₂.lookup k) := by
  by_cases h : k ∈ m₁
  · obtain ⟨x, hx⟩ := Finmap.mem_iff.mp h
    rw [Finmap.lookup_union_left h, hx, Option.some_or]
  · rw [Finmap.lookup_union_right h, Finmap.lookup_eq_none.mpr h, Option.none_or]

theorem lookup_insert_eq (m : Finmap fun _ : κ => β) (k k' : κ) (x : β) :
    (m.insert k x).lookup k' = if k' = k then some x else m.lookup k' := by
  by_cases h : k' = k
  · subst h; simp
  · simp [h, Finmap.lookup_insert_of_ne]

theorem lookup_erase_eq (m : Finmap fun _ : κ => β) (k k' : κ) :
    (m.erase k).lookup k' = if k' = k then none else m.lookup k' := by
  by_cases h : k' = k
  · subst h; simp
  · simp [h, Finmap.lookup_erase_ne]

@[simp] theorem erase_insert (m : Finmap fun _ : κ => β) (k : κ) (x : β) :
    (m.insert k x).erase k = m.erase k := by
  apply Finmap.ext_lookup
  intro k'
  rw [lookup_erase_eq, lookup_erase_eq, lookup_insert_eq]
  split <;> rfl

theorem erase_of_not_mem {m : Finmap fun _ : κ => β} {k : κ} (h : k ∉ m) : m.erase k = m := by
  apply Finmap.ext_lookup
  intro k'
  rw [lookup_erase_eq]
  split
  · rename_i hk
    rw [hk, Finmap.lookup_eq_none.mpr h]
  · rfl

/-- Some entry of the map satisfies `P`. -/
def Has (P : κ → β → Prop) (m : Finmap fun _ : κ => β) : Prop :=
  ∃ k x, m.lookup k = some x ∧ P k x

theorem has_iff_keys {P : κ → β → Prop} {m : Finmap fun _ : κ => β} :
    Has P m ↔ ∃ k ∈ m.keys, ∃ x ∈ m.lookup k, P k x := by
  constructor
  · rintro ⟨k, x, hx, hP⟩
    exact ⟨k, Finmap.mem_keys.mpr (Finmap.mem_of_lookup_eq_some hx), x, hx, hP⟩
  · rintro ⟨k, _, x, hx, hP⟩
    exact ⟨k, x, hx, hP⟩

instance (P : κ → β → Prop) [∀ k x, Decidable (P k x)] (m : Finmap fun _ : κ => β) :
    Decidable (Has P m) :=
  decidable_of_iff _ has_iff_keys.symm

variable {P : κ → β → Prop} {m : Finmap fun _ : κ => β}

@[simp] theorem not_has_empty : ¬ Has P (∅ : Finmap fun _ : κ => β) := by
  rintro ⟨k, x, hx, _⟩
  simp at hx

theorem Has.imp {Q : κ → β → Prop} (h : Has P m) (hPQ : ∀ k x, P k x → Q k x) : Has Q m := by
  obtain ⟨k, x, hx, hP⟩ := h
  exact ⟨k, x, hx, hPQ k x hP⟩

theorem has_erase {k : κ} : Has P (m.erase k) ↔ Has (fun k' x => k' ≠ k ∧ P k' x) m := by
  constructor
  · rintro ⟨k', x, hx, hP⟩
    rw [lookup_erase_eq] at hx
    split at hx
    · cases hx
    · exact ⟨k', x, hx, ‹_›, hP⟩
  · rintro ⟨k', x, hx, hne, hP⟩
    exact ⟨k', x, by rw [lookup_erase_eq, if_neg hne]; exact hx, hP⟩

theorem has_insert {k : κ} {x : β} :
    Has P (m.insert k x) ↔ P k x ∨ Has (fun k' x => k' ≠ k ∧ P k' x) m := by
  constructor
  · rintro ⟨k', y, hy, hP⟩
    rw [lookup_insert_eq] at hy
    split at hy
    · cases hy
      rename_i he
      exact Or.inl (he ▸ hP)
    · exact Or.inr ⟨k', y, hy, ‹_›, hP⟩
  · rintro (hP | ⟨k', y, hy, hne, hP⟩)
    · exact ⟨k, x, Finmap.lookup_insert m, hP⟩
    · exact ⟨k', y, by rw [lookup_insert_eq, if_neg hne]; exact hy, hP⟩

theorem has_of_lookup {k : κ} {x : β} (h : m.lookup k = some x) :
    Has P m ↔ P k x ∨ Has (fun k' y => k' ≠ k ∧ P k' y) m := by
  constructor
  · rintro ⟨k', y, hy, hP⟩
    by_cases he : k' = k
    · subst he
      rw [h] at hy
      cases hy
      exact Or.inl hP
    · exact Or.inr ⟨k', y, hy, he, hP⟩
  · rintro (hP | ⟨k', y, hy, _, hP⟩)
    · exact ⟨k, x, h, hP⟩
    · exact ⟨k', y, hy, hP⟩

theorem has_of_not_mem {k : κ} (h : k ∉ m) :
    Has P m ↔ Has (fun k' y => k' ≠ k ∧ P k' y) m := by
  constructor
  · rintro ⟨k', y, hy, hP⟩
    refine ⟨k', y, hy, ?_, hP⟩
    rintro rfl
    exact h (Finmap.mem_of_lookup_eq_some hy)
  · rintro ⟨k', y, hy, _, hP⟩
    exact ⟨k', y, hy, hP⟩

theorem Has.of_erase {k : κ} (h : Has P (m.erase k)) : Has P m :=
  (has_erase.mp h).imp fun _ _ h => h.2

theorem Has.of_insert {k : κ} {x : β} (h : Has P (m.insert k x)) : P k x ∨ Has P m :=
  (has_insert.mp h).imp id fun h => h.imp fun _ _ h => h.2

end GzPlugin.FiniteMaps
