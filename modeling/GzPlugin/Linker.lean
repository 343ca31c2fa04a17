import Mathlib.Data.Finmap
import GzPlugin.FiniteMaps

/-!
# The dynamic linker

The process keeps one mapping for every open library. `loaderRefs` counts the `dlopen`
calls of the Loader minus its `dlclose` calls, `otherRefs` those of everybody else (other
Loaders, the system's own choice to keep a library). Which handle `dlopen` returns for a
library that is not open is left to the system, which may reuse the value of a handle
whose library has been closed.
-/

namespace GzPlugin

open FiniteMaps

set_option autoImplicit false

abbrev LibId := Nat
abbrev Handle := Nat
abbrev Symbol := Nat

/-- Where code is mapped. Opening a library again after it was closed gives a new image. -/
inductive Image where
  | executable
  | mapped (lib : LibId) (serial : Nat)
  deriving DecidableEq

/-- The code a `std::function` points to. -/
structure CodePtr where
  image : Image
  symbol : Symbol
  deriving DecidableEq

structure Mapping where
  lib : LibId
  image : Image
  loaderRefs : Nat
  otherRefs : Nat
  noDelete : Bool
  deriving DecidableEq

/-- A mapping goes away with its last reference, unless it was opened not to. -/
def Mapping.InUse (m : Mapping) : Prop := 0 < m.loaderRefs ∨ 0 < m.otherRefs ∨ m.noDelete

instance (m : Mapping) : Decidable m.InUse := by unfold Mapping.InUse; infer_instance

abbrev Dl := Finmap fun _ : Handle => Mapping

namespace Dl

def IsOpen (dl : Dl) (lib : LibId) : Prop := Has (fun _ m => m.lib = lib) dl

instance (dl : Dl) (lib : LibId) : Decidable (dl.IsOpen lib) := by
  unfold IsOpen; infer_instance

/-- What `dlopen` may return for a library: its handle if it is open, otherwise a value
that no open library has. -/
def MayReturn (dl : Dl) (lib : LibId) (h : Handle) : Prop :=
  match dl.lookup h with
  | some m => m.lib = lib
  | none => ¬ dl.IsOpen lib

instance (dl : Dl) (lib : LibId) (h : Handle) : Decidable (dl.MayReturn lib h) := by
  unfold MayReturn; split <;> infer_instance

/-- What `dlopen` with `RTLD_NOLOAD` returns: the handle of the library if it is open. -/
def NoLoadReturns (dl : Dl) (lib : LibId) : Option Handle → Prop
  | some h => ∃ m ∈ dl.lookup h, m.lib = lib
  | none => ¬ dl.IsOpen lib

instance (dl : Dl) (lib : LibId) (h : Option Handle) : Decidable (dl.NoLoadReturns lib h) := by
  unfold NoLoadReturns; split <;> infer_instance

def put (dl : Dl) (h : Handle) (m : Mapping) : Dl := if m.InUse then dl.insert h m else dl.erase h

/-- The mapping that `h` stands for once `dlopen` has returned it. -/
def opened (dl : Dl) (lib : LibId) (h : Handle) (serial : Nat) (noDelete : Bool) : Mapping :=
  match dl.lookup h with
  | some m => { m with loaderRefs := m.loaderRefs + 1, noDelete := m.noDelete || noDelete }
  | none => ⟨lib, .mapped lib serial, 1, 0, noDelete⟩

def dlopen (dl : Dl) (lib : LibId) (h : Handle) (serial : Nat) (noDelete : Bool) : Dl :=
  dl.insert h (dl.opened lib h serial noDelete)

def dlclose (dl : Dl) (h : Handle) : Dl :=
  match dl.lookup h with
  | none => dl
  | some m => dl.put h { m with loaderRefs := m.loaderRefs - 1 }

/-- Somebody other than the Loader opens or closes a library. -/
def otherOpen (dl : Dl) (lib : LibId) (h : Handle) (serial : Nat) : Dl :=
  match dl.lookup h with
  | some m => dl.insert h { m with otherRefs := m.otherRefs + 1 }
  | none => dl.insert h ⟨lib, .mapped lib serial, 0, 1, false⟩

def otherClose (dl : Dl) (h : Handle) : Dl :=
  match dl.lookup h with
  | none => dl
  | some m => dl.put h { m with otherRefs := m.otherRefs - 1 }

theorem put_lookup (dl : Dl) (h h' : Handle) (m : Mapping) :
    (dl.put h m).lookup h' =
      if h' = h then (if m.InUse then some m else none) else dl.lookup h' := by
  unfold put
  by_cases hm : m.InUse
  · simp only [if_pos hm, lookup_insert_eq]
  · simp only [if_neg hm, lookup_erase_eq]

theorem dlclose_lookup_ne (dl : Dl) {h h' : Handle} (hne : h' ≠ h) :
    (dl.dlclose h).lookup h' = dl.lookup h' := by
  unfold dlclose
  split
  · rfl
  · rw [put_lookup, if_neg hne]

theorem otherClose_lookup_ne (dl : Dl) {h h' : Handle} (hne : h' ≠ h) :
    (dl.otherClose h).lookup h' = dl.lookup h' := by
  unfold otherClose
  split
  · rfl
  · rw [put_lookup, if_neg hne]

/-- Every step of the linker keeps library and image of a mapping that stays. -/
def Extends (dl dl' : Dl) : Prop :=
  ∀ h m', dl'.lookup h = some m' →
    ∃ m, dl.lookup h = some m ∧ m.lib = m'.lib ∧ m.image = m'.image

theorem put_extends {dl : Dl} {h : Handle} {m m' : Mapping} (hm : dl.lookup h = some m)
    (hl : m.lib = m'.lib) (hi : m.image = m'.image) : dl.Extends (dl.put h m') := by
  intro h' x hx
  rw [put_lookup] at hx
  split at hx
  · rename_i he
    split at hx
    · cases hx
      exact ⟨m, he ▸ hm, hl, hi⟩
    · cases hx
  · exact ⟨x, hx, rfl, rfl⟩

theorem dlclose_extends (dl : Dl) (h : Handle) : dl.Extends (dl.dlclose h) := by
  unfold dlclose
  split
  · exact fun h m hm => ⟨m, hm, rfl, rfl⟩
  · rename_i m hm
    exact put_extends hm rfl rfl

theorem otherClose_extends (dl : Dl) (h : Handle) : dl.Extends (dl.otherClose h) := by
  unfold otherClose
  split
  · exact fun h m hm => ⟨m, hm, rfl, rfl⟩
  · rename_i m hm
    exact put_extends hm rfl rfl

theorem dlopen_lookup (dl : Dl) (lib : LibId) (h h' : Handle) (serial : Nat) (noDelete : Bool) :
    (dl.dlopen lib h serial noDelete).lookup h' =
      if h' = h then some (dl.opened lib h serial noDelete) else dl.lookup h' :=
  lookup_insert_eq _ _ _ _

theorem otherOpen_lookup_ne (dl : Dl) (lib : LibId) {h h' : Handle} (serial : Nat)
    (hne : h' ≠ h) : (dl.otherOpen lib h serial).lookup h' = dl.lookup h' := by
  unfold otherOpen
  split <;> rw [lookup_insert_eq, if_neg hne]

theorem opened_of_open {dl : Dl} {lib : LibId} {h : Handle} {serial : Nat} {noDelete : Bool}
    {m : Mapping} (hm : dl.lookup h = some m) : dl.opened lib h serial noDelete =
      { m with loaderRefs := m.loaderRefs + 1, noDelete := m.noDelete || noDelete } := by
  simp [opened, hm]

theorem dlopen_dlclose_lookup {dl : Dl} {lib : LibId} {h : Handle} {serial : Nat}
    {noDelete : Bool} {m : Mapping} (hm : dl.lookup h = some m) (hpos : 0 < m.loaderRefs) :
    ((dl.dlopen lib h serial noDelete).dlclose h).lookup h =
      some { m with noDelete := m.noDelete || noDelete } := by
  have ho : (dl.dlopen lib h serial noDelete).lookup h =
      some { m with loaderRefs := m.loaderRefs + 1, noDelete := m.noDelete || noDelete } := by
    rw [dlopen_lookup, if_pos rfl, opened_of_open hm]
  simp only [dlclose, ho, put_lookup, if_true, Nat.add_sub_cancel]
  exact if_pos (Or.inl hpos)

/-- Every image belongs to the library mapped there, and a library is open once. -/
structure Ordered (dl : Dl) : Prop where
  image : ∀ {h m}, dl.lookup h = some m → ∃ serial, m.image = .mapped m.lib serial
  handle : ∀ {h h' m m'}, dl.lookup h = some m → dl.lookup h' = some m' → m.lib = m'.lib → h = h'

theorem empty_ordered : Ordered (∅ : Dl) where
  image h := by simp at h
  handle h := by simp at h

theorem Ordered.of_extends {dl dl' : Dl} (ho : dl.Ordered) (he : dl.Extends dl') :
    dl'.Ordered where
  image {h m'} hm' := by
    obtain ⟨m, hm, hl, hi⟩ := he h m' hm'
    obtain ⟨serial, hs⟩ := ho.image hm
    exact ⟨serial, by rw [← hi, hs, hl]⟩
  handle {h₁ h₂ m₁ m₂} hm₁ hm₂ hl := by
    obtain ⟨m₁', hm₁', hl₁, _⟩ := he h₁ m₁ hm₁
    obtain ⟨m₂', hm₂', hl₂, _⟩ := he h₂ m₂ hm₂
    exact ho.handle hm₁' hm₂' (by rw [hl₁, hl₂, hl])

theorem Ordered.insert {dl : Dl} (ho : dl.Ordered) {lib : LibId} {h : Handle}
    (hr : dl.MayReturn lib h) {m : Mapping} (hlib : m.lib = lib)
    (himage : ∃ serial, m.image = .mapped lib serial) : Ordered (dl.insert h m) := by
  have hother : ∀ {h' m'}, dl.lookup h' = some m' → m'.lib = lib → h' = h := by
    intro h' m' hm' hl
    unfold MayReturn at hr
    split at hr
    · rename_i m₀ hm₀
      exact ho.handle hm' hm₀ (by rw [hl, hr])
    · exact absurd ⟨h', m', hm', hl⟩ hr
  constructor
  · intro h' m' hm'
    rw [lookup_insert_eq] at hm'
    split at hm'
    · cases hm'
      rw [hlib]
      exact himage
    · exact ho.image hm'
  · intro h₁ h₂ m₁ m₂ hm₁ hm₂ hl
    rw [lookup_insert_eq] at hm₁ hm₂
    split at hm₁ <;> split at hm₂
    · rename_i h₁ h₂
      rw [h₁, h₂]
    · rename_i he _
      cases hm₁
      rw [he, hother hm₂ (by rw [← hl, hlib])]
    · rename_i _ he
      cases hm₂
      rw [he, hother hm₁ (by rw [hl, hlib])]
    · exact ho.handle hm₁ hm₂ hl

theorem opened_lib {dl : Dl} {lib : LibId} {h : Handle} (hr : dl.MayReturn lib h) (serial : Nat)
    (noDelete : Bool) : (dl.opened lib h serial noDelete).lib = lib := by
  unfold MayReturn at hr
  unfold opened
  split at hr <;> rename_i hm
  · exact hr
  · rfl

theorem Ordered.opened_image {dl : Dl} (ho : dl.Ordered) {lib : LibId} {h : Handle}
    (hr : dl.MayReturn lib h) (serial : Nat) (noDelete : Bool) :
    ∃ n, (dl.opened lib h serial noDelete).image = .mapped lib n := by
  unfold MayReturn at hr
  unfold opened
  split at hr <;> rename_i hm
  · obtain ⟨n, hn⟩ := ho.image hm
    exact ⟨n, by simp [hn, hr]⟩
  · exact ⟨serial, rfl⟩

theorem Ordered.dlopen {dl : Dl} (ho : dl.Ordered) {lib : LibId} {h : Handle}
    (hr : dl.MayReturn lib h) (serial : Nat) (noDelete : Bool) :
    (dl.dlopen lib h serial noDelete).Ordered :=
  ho.insert hr (opened_lib hr serial noDelete) (ho.opened_image hr serial noDelete)

theorem Ordered.otherOpen {dl : Dl} (ho : dl.Ordered) {lib : LibId} {h : Handle}
    (hr : dl.MayReturn lib h) (serial : Nat) : (dl.otherOpen lib h serial).Ordered := by
  unfold Dl.otherOpen
  split
  · rename_i m hm
    have hl : m.lib = lib := by simpa [MayReturn, hm] using hr
    obtain ⟨n, hn⟩ := ho.image hm
    exact ho.insert hr hl ⟨n, by rw [← hl]; exact hn⟩
  · exact ho.insert hr rfl ⟨serial, rfl⟩

end Dl

/-- A `std::shared_ptr<void>` to a dl handle: its control block, the handle, and the image
that the handle keeps mapped. -/
structure DlHandlePtr where
  block : Nat
  handle : Handle
  image : Image
  deriving DecidableEq

end GzPlugin
