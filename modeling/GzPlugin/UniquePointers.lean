import GzPlugin.FiniteMaps

/-!
# Objects that own something through a unique pointer

A table of living objects, each with a unique pointer of its own that may be null. Making,
moving and ending objects leaves everything in the hands of exactly one of them, and the
objects with a null pointer are told by the moves alone.
-/

namespace GzPlugin.UniquePointers

open FiniteMaps

set_option autoImplicit false

universe u v

/-- The living objects, each with what its pointer refers to. -/
abbrev Owners (κ : Type u) (ρ : Type v) := Finmap fun _ : κ => Option ρ

/-- What one operation does to the pointers. -/
inductive Transfer (κ : Type u) (ρ : Type v) where
  | keep
  | make (a : κ) (r : ρ)
  /-- `a.ptr = std::move(b.ptr)`, where `a` may be a new object. -/
  | move (a b : κ)
  | drop (a : κ)

namespace Transfer

variable {κ : Type u} {ρ : Type v}

def made : Transfer κ ρ → Option ρ
  | .make _ r => some r
  | _ => none

@[simp] theorem made_keep : (keep : Transfer κ ρ).made = none := rfl

end Transfer

variable {κ : Type u} {ρ : Type v} [DecidableEq κ] {m : Owners κ ρ} {a b c : κ} {r : ρ}

namespace Owners

def get (m : Owners κ ρ) (a : κ) : Option ρ := (m.lookup a).join

def make (m : Owners κ ρ) (a : κ) (r : ρ) : Owners κ ρ := m.insert a (some r)

/-- The source is released before the target is reset, also if they are one object. -/
def move (m : Owners κ ρ) (a b : κ) : Owners κ ρ :=
  Finmap.insert a (get m b) (m.insert b none)

/-- What the target of a move holds at the moment when it is reset. -/
def replaced (m : Owners κ ρ) (a b : κ) : Option ρ := get (m.insert b none) a

def drop (m : Owners κ ρ) (a : κ) : Owners κ ρ := m.erase a

theorem get_eq_some : get m a = some r ↔ m.lookup a = some (some r) := Option.join_eq_some_iff

theorem get_of_not_mem (h : a ∉ m) : get m a = none := by
  rw [get, Finmap.lookup_eq_none.mpr h, Option.join_none]

theorem get_insert (m : Owners κ ρ) (a b : κ) (x : Option ρ) :
    get (m.insert a x) b = if b = a then x else get m b := by
  unfold get
  rw [lookup_insert_eq]
  split <;> rfl

theorem get_make (m : Owners κ ρ) (a b : κ) (r : ρ) :
    get (make m a r) b = if b = a then some r else get m b :=
  get_insert m a b (some r)

theorem get_move (m : Owners κ ρ) (a b c : κ) : get (move m a b) c =
    if c = a then get m b else if c = b then none else get m c := by
  rw [move, get_insert, get_insert]

theorem get_drop (m : Owners κ ρ) (a b : κ) :
    get (drop m a) b = if b = a then none else get m b := by
  unfold get drop
  rw [lookup_erase_eq]
  split <;> rfl

theorem replaced_eq (m : Owners κ ρ) (a b : κ) :
    replaced m a b = if a = b then none else get m a :=
  get_insert m b a none

theorem replaced_of_not_mem (h : a ∉ m) (b : κ) : replaced m a b = none := by
  rw [replaced_eq, get_of_not_mem h]
  exact ite_self none

end Owners

namespace Transfer

def apply (m : Owners κ ρ) : Transfer κ ρ → Owners κ ρ
  | .keep => m
  | .make a r => m.make a r
  | .move a b => m.move a b
  | .drop a => m.drop a

/-- What is deleted, since the object that owned it lets go of it. -/
def deleted (m : Owners κ ρ) : Transfer κ ρ → Option ρ
  | .move a b => m.replaced a b
  | .drop a => m.get a
  | _ => none

@[simp] theorem deleted_keep (m : Owners κ ρ) : (keep : Transfer κ ρ).deleted m = none := rfl

/-- A new object is made of what nobody owns, and only living objects are moved from. -/
def Valid (m : Owners κ ρ) (live : Set ρ) : Transfer κ ρ → Prop
  | .make a r => a ∉ m ∧ r ∉ live
  | .move _ b => b ∈ m
  | _ => True

end Transfer

/-! ### Sole owners -/

/-- What lives has exactly one owner. -/
structure Owns (m : Owners κ ρ) (live : Set ρ) : Prop where
  lives : ∀ {a r}, m.get a = some r → r ∈ live
  owned : ∀ r ∈ live, ∃ a, m.get a = some r
  exclusive : ∀ {a b r}, m.get a = some r → m.get b = some r → a = b

theorem Owns.empty {live : Set ρ} (hlive : ∀ r, r ∉ live) : Owns (∅ : Owners κ ρ) live where
  lives h := by simp [Owners.get] at h
  owned r hr := absurd hr (hlive r)
  exclusive h := by simp [Owners.get] at h

theorem Owns.mem_of_deleted {live : Set ρ} {t : Transfer κ ρ} (h : Owns m live)
    (hr : t.deleted m = some r) : r ∈ live := by
  cases t with
  | keep | make => cases hr
  | move a b =>
    rw [Transfer.deleted, Owners.replaced_eq] at hr
    split at hr
    · cases hr
    · exact h.lives hr
  | drop a => exact h.lives hr

section Keep

variable {live live' : Set ρ}

theorem Owns.make (h : Owns m live) (ha : a ∉ m) (hr : r ∉ live)
    (hlive : ∀ s, s ∈ live' ↔ s = r ∨ s ∈ live) : Owns (m.make a r) live' := by
  have hget := Owners.get_make m a (r := r)
  have hcases : ∀ {c s}, (m.make a r).get c = some s →
      c = a ∧ s = r ∨ c ≠ a ∧ m.get c = some s := by
    intro c s hs
    rw [hget] at hs
    split at hs
    · cases hs
      exact Or.inl ⟨‹_›, rfl⟩
    · exact Or.inr ⟨‹_›, hs⟩
  refine ⟨?_, ?_, ?_⟩
  · intro c s hs
    rcases hcases hs with ⟨_, rfl⟩ | ⟨_, hold⟩
    · exact (hlive s).mpr (Or.inl rfl)
    · exact (hlive s).mpr (Or.inr (h.lives hold))
  · intro s hs
    rcases (hlive s).mp hs with rfl | hold
    · exact ⟨a, by rw [hget, if_pos rfl]⟩
    · obtain ⟨c, hc⟩ := h.owned s hold
      refine ⟨c, ?_⟩
      rw [hget, if_neg, hc]
      rintro rfl
      rw [Owners.get_of_not_mem ha] at hc
      cases hc
  · intro c d s hc hd
    rcases hcases hc with ⟨rfl, rfl⟩ | ⟨_, hc'⟩ <;> rcases hcases hd with ⟨rfl, he⟩ | ⟨_, hd'⟩
    · rfl
    · exact absurd (h.lives hd') hr
    · subst he
      exact absurd (h.lives hc') hr
    · exact h.exclusive hc' hd'

theorem Owns.move (h : Owns m live)
    (hlive : ∀ s, s ∈ live' ↔ s ∈ live ∧ m.replaced a b ≠ some s) : Owns (m.move a b) live' := by
  have hget := Owners.get_move m a b
  have hrep := Owners.replaced_eq m a b
  -- an owner after the move is an owner before it, or has taken the place of `b`
  have hcases : ∀ {c s}, (m.move a b).get c = some s →
      c = a ∧ m.get b = some s ∨ c ≠ a ∧ c ≠ b ∧ m.get c = some s := by
    intro c s hs
    rw [hget] at hs
    split at hs
    · exact Or.inl ⟨‹_›, hs⟩
    · split at hs
      · cases hs
      · exact Or.inr ⟨‹_›, ‹_›, hs⟩
  refine ⟨?_, ?_, ?_⟩
  · intro c s hs
    rw [hlive, hrep]
    rcases hcases hs with ⟨rfl, hb⟩ | ⟨hca, hcb, hc⟩
    · refine ⟨h.lives hb, ?_⟩
      split
      · exact nofun
      · rename_i hne
        exact fun ha => hne (h.exclusive ha hb)
    · refine ⟨h.lives hc, ?_⟩
      split
      · exact nofun
      · exact fun ha => hca (h.exclusive hc ha)
  · intro s hs
    obtain ⟨hold, hne⟩ := (hlive s).mp hs
    obtain ⟨c, hc⟩ := h.owned s hold
    by_cases hcb : c = b
    · subst hcb
      exact ⟨a, by rw [hget, if_pos rfl, hc]⟩
    · refine ⟨c, ?_⟩
      have hca : c ≠ a := by
        rintro rfl
        rw [hrep, if_neg hcb] at hne
        exact hne hc
      rw [hget, if_neg hca, if_neg hcb, hc]
  · intro c d s hc hd
    rcases hcases hc with ⟨rfl, hc'⟩ | ⟨_, hcb, hc'⟩ <;>
      rcases hcases hd with ⟨rfl, hd'⟩ | ⟨_, hdb, hd'⟩
    · rfl
    · exact absurd (h.exclusive hd' hc') hdb
    · exact absurd (h.exclusive hc' hd') hcb
    · exact h.exclusive hc' hd'

theorem Owns.drop (h : Owns m live)
    (hlive : ∀ s, s ∈ live' ↔ s ∈ live ∧ m.get a ≠ some s) : Owns (m.drop a) live' := by
  have hget := Owners.get_drop m a
  have hcases : ∀ {c s}, (m.drop a).get c = some s → c ≠ a ∧ m.get c = some s := by
    intro c s hs
    rw [hget] at hs
    split at hs
    · cases hs
    · exact ⟨‹_›, hs⟩
  refine ⟨?_, ?_, ?_⟩
  · intro c s hs
    obtain ⟨hca, hc⟩ := hcases hs
    exact (hlive s).mpr ⟨h.lives hc, fun ha => hca (h.exclusive hc ha)⟩
  · intro s hs
    obtain ⟨hold, hne⟩ := (hlive s).mp hs
    obtain ⟨c, hc⟩ := h.owned s hold
    refine ⟨c, ?_⟩
    rw [hget, if_neg, hc]
    rintro rfl
    exact hne hc
  · intro c d s hc hd
    exact h.exclusive (hcases hc).2 (hcases hd).2

/-- The ownership rule: what is made is owned by the new object, and what is deleted by nobody. -/
theorem Owns.apply {t : Transfer κ ρ} (h : Owns m live) (ht : t.Valid m live)
    (hlive : ∀ s, s ∈ live' ↔ (t.made = some s ∨ s ∈ live) ∧ t.deleted m ≠ some s) :
    Owns (t.apply m) live' := by
  cases t with
  | keep =>
    have he : live' = live := by
      ext s
      simpa [Transfer.made, Transfer.deleted] using hlive s
    rw [he]
    exact h
  | make a r =>
    refine h.make ht.1 ht.2 fun s => ?_
    rw [hlive]
    simp [Transfer.made, Transfer.deleted, eq_comm]
  | move a b =>
    refine h.move fun s => ?_
    rw [hlive]
    simp [Transfer.made, Transfer.deleted]
  | drop a =>
    refine h.drop fun s => ?_
    rw [hlive]
    simp [Transfer.made, Transfer.deleted]

end Keep

/-! ### Null pointers -/

/-- The objects that were moved from, or took over from such an object, and were given
nothing since. -/
def Transfer.hollow (h : Finset κ) : Transfer κ ρ → Finset κ
  | .keep => h
  | .make a _ => h.erase a
  | .move a b => if a = b then h else insert b (if b ∈ h then insert a h else h.erase a)
  | .drop a => h.erase a

/-- The objects with a null pointer are the hollow ones. -/
def Tracks (m : Owners κ ρ) (h : Finset κ) : Prop := ∀ a, a ∈ h ↔ m.lookup a = some none

theorem Tracks.empty : Tracks (∅ : Owners κ ρ) ∅ := by
  intro a
  simp

theorem Tracks.not_mem_iff {h : Finset κ} (ht : Tracks m h) (ha : a ∈ m) :
    a ∉ h ↔ ∃ r, m.get a = some r := by
  obtain ⟨x, hx⟩ := Finmap.mem_iff.mp ha
  rw [ht, Owners.get, hx]
  cases x <;> simp

theorem mem_hollow_move {h : Finset κ} : c ∈ (.move a b : Transfer κ ρ).hollow h ↔
    if c = a then b ∈ h else c = b ∨ c ∈ h := by
  rw [Transfer.hollow]
  by_cases hab : a = b
  · subst hab
    by_cases hc : c = a <;> simp [hc]
  · rw [if_neg hab, Finset.mem_insert]
    by_cases hca : c = a
    · subst hca
      by_cases hb : b ∈ h <;> simp [hab, hb]
    · by_cases hb : b ∈ h <;> simp [hca, hb]

theorem Tracks.move {h : Finset κ} (ht : Tracks m h) (hb : b ∈ m) :
    Tracks (m.move a b) ((.move a b : Transfer κ ρ).hollow h) := by
  obtain ⟨x, hx⟩ := Finmap.mem_iff.mp hb
  have hbx : b ∈ h ↔ x = none := by rw [ht b, hx, Option.some_inj]
  have hget : m.get b = x := by rw [Owners.get, hx, Option.join_some]
  intro c
  rw [mem_hollow_move, Owners.move, lookup_insert_eq, lookup_insert_eq, hget]
  split
  · rw [hbx, Option.some_inj]
  · split
    · exact iff_of_true (Or.inl ‹_›) rfl
    · rw [← ht c]
      exact or_iff_right ‹_›

theorem Tracks.apply {h : Finset κ} {live : Set ρ} {t : Transfer κ ρ} (ht : Tracks m h)
    (hv : t.Valid m live) : Tracks (t.apply m) (t.hollow h) := by
  cases t with
  | keep => exact ht
  | make a r =>
    intro c
    rw [Transfer.hollow, Finset.mem_erase, ht c, Transfer.apply, Owners.make, lookup_insert_eq]
    split <;> simp [*]
  | move a b => exact ht.move hv
  | drop a =>
    intro c
    rw [Transfer.hollow, Finset.mem_erase, ht c, Transfer.apply, Owners.drop, lookup_erase_eq]
    split <;> simp [*]

end GzPlugin.UniquePointers
