import Mathlib.Algebra.BigOperators.Group.Finset.Piecewise
import GzPlugin.Effects

/-!
# When LoadLib fails

What a call of `LoadLib` leaves behind that ends in one of its failure exits. Only the exit
for a handle that comes with an error message keeps the reference which `dlopen` gave out.
-/

namespace GzPlugin

open FiniteMaps Runs

set_option autoImplicit false

namespace Dl

variable {dl dl' : Dl} {lib : LibId} {h : Handle}

/-- The references to the library that the Loader has through the handle. -/
def referencesAt (dl : Dl) (lib : LibId) (h : Handle) : Nat :=
  match dl.lookup h with
  | none => 0
  | some m => if m.lib = lib then m.loaderRefs else 0

/-- How often the Loader has opened the library without closing it again. -/
def references (dl : Dl) (lib : LibId) : Nat := ∑ h ∈ dl.keys, dl.referencesAt lib h

theorem references_eq_sum {s : Finset Handle} (hs : dl.keys ⊆ s) :
    dl.references lib = ∑ h ∈ s, dl.referencesAt lib h := by
  refine Finset.sum_subset hs ?_
  intro h _ hn
  rw [Finmap.mem_keys] at hn
  rw [referencesAt, Finmap.lookup_eq_none.mpr hn]

theorem references_congr (h : ∀ hd, dl.referencesAt lib hd = dl'.referencesAt lib hd) :
    dl.references lib = dl'.references lib := by
  have hleft : dl.keys ⊆ dl.keys ∪ dl'.keys := Finset.subset_union_left
  have hright : dl'.keys ⊆ dl.keys ∪ dl'.keys := Finset.subset_union_right
  rw [references_eq_sum hleft, references_eq_sum hright]
  exact Finset.sum_congr rfl fun hd _ => h hd

theorem dlopen_referencesAt (hr : dl.MayReturn lib h) (serial : Nat) (noDelete : Bool)
    (lib' : LibId) (h' : Handle) : (dl.dlopen lib h serial noDelete).referencesAt lib' h' =
      dl.referencesAt lib' h' + if h' = h ∧ lib' = lib then 1 else 0 := by
  unfold referencesAt
  rw [dlopen_lookup]
  by_cases hh : h' = h
  · subst hh
    simp only [if_true, true_and]
    unfold MayReturn at hr
    cases hm : dl.lookup h' with
    | none =>
      by_cases hl : lib' = lib
      · simp [opened, hm, hl]
      · simp [opened, hm, hl, Ne.symm hl]
    | some m =>
      rw [hm] at hr
      by_cases hl : lib' = lib
      · simp [opened, hm, hl, hr]
      · simp [opened, hm, hl, hr, Ne.symm hl]
  · rw [if_neg hh, if_neg fun hc => hh hc.1, Nat.add_zero]

theorem dlclose_referencesAt (dl : Dl) (h : Handle) (lib : LibId) (h' : Handle) :
    (dl.dlclose h).referencesAt lib h' =
      dl.referencesAt lib h' - if h' = h then 1 else 0 := by
  by_cases hh : h' = h
  · subst hh
    unfold referencesAt
    cases hm : dl.lookup h' with
    | none => simp [dlclose, hm]
    | some m =>
      simp only [dlclose, hm, put_lookup, if_true]
      by_cases huse : Mapping.InUse { m with loaderRefs := m.loaderRefs - 1 }
      · rw [if_pos huse]
        by_cases hl : m.lib = lib <;> simp [hl]
      · have hzero : m.loaderRefs - 1 = 0 := Nat.eq_zero_of_not_pos fun hp => huse (Or.inl hp)
        rw [if_neg huse]
        by_cases hl : m.lib = lib <;> simp [hl, hzero]
  · rw [if_neg hh, Nat.sub_zero, referencesAt, dlclose_lookup_ne dl hh, ← referencesAt]

theorem dlopen_references (hr : dl.MayReturn lib h) (serial : Nat) (noDelete : Bool) :
    (dl.dlopen lib h serial noDelete).references lib = dl.references lib + 1 := by
  have hkeys : dl.keys ⊆ (dl.dlopen lib h serial noDelete).keys := by
    intro h' hk
    rw [Finmap.mem_keys] at hk ⊢
    exact Finmap.mem_insert.mpr (Or.inr hk)
  have hmem : h ∈ (dl.dlopen lib h serial noDelete).keys :=
    Finmap.mem_keys.mpr (Finmap.mem_insert.mpr (Or.inl rfl))
  rw [references_eq_sum hkeys, references]
  simp only [dlopen_referencesAt hr, and_true, Finset.sum_add_distrib, Finset.sum_ite_eq',
    if_pos hmem]

/-- Opening a library and closing the handle again leaves all counts as they were. -/
theorem dlopen_dlclose_references (hr : dl.MayReturn lib h) (serial : Nat) (noDelete : Bool)
    (lib' : LibId) : ((dl.dlopen lib h serial noDelete).dlclose h).references lib' =
      dl.references lib' := by
  refine references_congr fun h' => ?_
  rw [dlclose_referencesAt, dlopen_referencesAt hr]
  by_cases hh : h' = h
  · by_cases hl : lib' = lib
    · simp [hh, hl]
    · have hzero : dl.referencesAt lib' h = 0 := by
        unfold referencesAt
        unfold MayReturn at hr
        cases hm : dl.lookup h with
        | none => rfl
        | some m =>
          rw [hm] at hr
          exact if_neg fun he => hl (he.symm.trans hr)
      simp [hh, hl, hzero]
  · simp [hh]

end Dl

namespace World

variable {env : Env} {w w' : World} {path : String} {noDelete : Bool} {res : DlopenResult}
  {lib : LibId} {h : Handle} {hp : DlHandlePtr}

/-- The call left no trace: every query answers as before, every plugin has its handle, and
no reference to a library was kept. -/
structure NoTrace (env : Env) (w w' : World) : Prop where
  allPlugins : w'.allPlugins env = w.allPlugins env
  interfacesImplemented : w'.interfacesImplemented env = w.interfacesImplemented env
  pluginsImplementing : ∀ interface demangled,
    w'.pluginsImplementing env interface demangled = w.pluginsImplementing env interface demangled
  pluginsWithAlias : ∀ a, w'.pluginsWithAlias env a = w.pluginsWithAlias env a
  aliasesOfPlugin : ∀ name, w'.aliasesOfPlugin env name = w.aliasesOfPlugin env name
  lookupPlugin : ∀ s, w'.lookupPlugin env s = w.lookupPlugin env s
  handles : ∀ name, w'.impl.pluginToDlHandlePtrs.lookup name =
    w.impl.pluginToDlHandlePtrs.lookup name
  references : ∀ lib, w'.dl.references lib = w.dl.references lib

theorem noTrace_of_eq (hfile : w'.impl.filePlugins = w.impl.filePlugins)
    (hhandles : w'.impl.pluginToDlHandlePtrs = w.impl.pluginToDlHandlePtrs)
    (href : ∀ lib, w'.dl.references lib = w.dl.references lib) : NoTrace env w w' := by
  refine ⟨?_, ?_, ?_, ?_, ?_, ?_, fun name => by rw [hhandles], href⟩
  · rw [allPlugins, allPlugins, hfile]
  · rw [interfacesImplemented, interfacesImplemented, hfile]
  · intro interface demangled
    rw [pluginsImplementing, pluginsImplementing, hfile]
  · intro a
    rw [pluginsWithAlias, pluginsWithAlias, hfile]
  · intro name
    rw [aliasesOfPlugin, aliasesOfPlugin, hfile]
  · intro s
    rw [lookupPlugin, lookupPlugin, hfile]

theorem dropLocal_cons {locals : List DlHandlePtr} (hlocals : w.locals = hp :: locals) :
    w.dropLocal hp = { w with locals := locals }.release hp := by
  rw [dropLocal, hlocals, List.erase_cons_head]

theorem release_dl (w : World) (hp : DlHandlePtr) :
    (w.release hp).dl = if w.Held hp then w.dl else w.dl.dlclose hp.handle := by
  unfold release
  split <;> rfl

/-- What `LoadLib` makes of a library that yields no plugins. -/
theorem loadLib_nil {w₁ : World} (hopen : w.openLib env path noDelete res = (some hp, w₁)) :
    w.loadLib env path noDelete res [] = (∅, { w₁ with impl := { w₁.impl with
      dlHandleToPluginMap := w₁.impl.dlHandleToPluginMap.insert hp.handle ∅ } }.dropLocal hp) := by
  simp only [loadLib, hopen, relocate, List.map_nil, List.foldl_nil]

/-- A library that yields no plugins is closed again, unless it was held before. -/
theorem loadLib_nil_dl (noDelete : Bool) (hw : w.Linked) (ha : w.alive) (hlib : env.resolve path = some lib)
    (hres : res.handle = some h) (herr : res.error = false) :
    (w.loadLib env path noDelete res []).2.dl =
      (w.dl.dlopen lib h w.next noDelete).dlclose h := by
  cases hold : (w.impl.dlHandlePtrMap.lookup h).filter fun old => w.Held old with
  | some old =>
    have hheld : w.Held old := of_decide_eq_true (Option.filter_eq_some_iff.mp hold).2
    rw [loadLib_nil (openLib_reused hlib hres herr hold), dropLocal_cons rfl, release_dl]
    exact if_pos hheld
  | none =>
    rw [loadLib_nil (openLib_created hlib hres herr hold rfl), dropLocal_cons rfl, release_dl]
    refine if_neg fun hheld => ?_
    have hheld : w.Held ⟨w.next + 1, h, (w.dl.opened lib h w.next noDelete).image⟩ := hheld
    have hweak := hw.weak ha hheld
    simp only at hweak
    simp [hweak, Option.filter, hheld] at hold

theorem loadLib_nil_impl (w : World) (noDelete : Bool) (hlib : env.resolve path = some lib)
    (hres : res.handle = some h) (herr : res.error = false) :
    (w.loadLib env path noDelete res []).2.impl.filePlugins = w.impl.filePlugins ∧
      (w.loadLib env path noDelete res []).2.impl.pluginToDlHandlePtrs =
        w.impl.pluginToDlHandlePtrs := by
  cases hold : (w.impl.dlHandlePtrMap.lookup h).filter fun old => w.Held old with
  | some old =>
    rw [loadLib_nil (openLib_reused hlib hres herr hold), dropLocal, release_impl]
    exact ⟨rfl, rfl⟩
  | none =>
    rw [loadLib_nil (openLib_created hlib hres herr hold rfl), dropLocal, release_impl]
    exact ⟨rfl, rfl⟩

/-- `LoadLib` fails if `dlopen` gives no handle, if `dlerror` reports an error, or if
`LoadPlugins` takes one of its failure exits. It leaves no trace if and only if there was no
handle with an error. -/
theorem noTrace_iff (env : Env) {w : World} (hw : Reachable (step env) init w) (ha : w.alive)
    {path : String} {noDelete : Bool} {res : DlopenResult}
    (hr : w.DlopenMayReturn env path res)
    {infoHook : Option (HookArgs Symbol → HookArgs Symbol)} {loadedPlugins : List (Info Symbol)}
    (hvec : Enumerates loadedPlugins (loadPlugins env.abi infoHook))
    (hfail : res.handle = none ∨ res.error = true ∨ loadPlugins env.abi infoHook = ∅) :
    (w.loadLib env path noDelete res loadedPlugins).1 = ∅ ∧
      (NoTrace env w (w.loadLib env path noDelete res loadedPlugins).2 ↔
        ¬ (res.handle.isSome ∧ res.error = true)) := by
  have hS := reachable_sound hw
  cases hres : res.handle with
  | none =>
    have hload : w.loadLib env path noDelete res loadedPlugins = (∅, w) := by
      simp only [loadLib, openLib, hres]
    rw [hload]
    exact ⟨rfl, iff_of_true (noTrace_of_eq rfl rfl fun _ => rfl) (by simp)⟩
  | some h =>
    obtain ⟨lib, hlib, hmay⟩ := hr h hres
    cases herr : res.error with
    | true =>
      have hload : w.loadLib env path noDelete res loadedPlugins =
          (∅, { w with dl := w.dl.dlopen lib h w.next noDelete, next := w.next + 2 }) := by
        simp only [loadLib, openLib, hres, Option.mem_def.mp hlib, herr, if_true]
      rw [hload]
      refine ⟨rfl, iff_of_false ?_ (by simp)⟩
      intro ht
      have href := ht.references lib
      rw [Dl.dlopen_references hmay] at href
      exact Nat.succ_ne_self _ href
    | false =>
      have hempty : loadPlugins env.abi infoHook = ∅ := by
        simpa [hres, herr] using hfail
      have hnil : loadedPlugins = [] := enumerates_empty (hempty ▸ hvec)
      subst hnil
      have hdl := loadLib_nil_dl noDelete hS.linked ha hlib hres herr
      obtain ⟨hfile, hhandles⟩ := loadLib_nil_impl w noDelete hlib hres herr
      constructor
      · unfold loadLib
        split
        · rfl
        · rfl
      · refine iff_of_true (noTrace_of_eq hfile hhandles fun lib' => ?_) (by simp)
        rw [hdl]
        exact Dl.dlopen_dlclose_references hmay w.next noDelete lib'

theorem enumerates_noHook :
    Enumerates [] (loadPlugins sharedName.abi (none : Option (HookArgs Symbol → _))) := by
  unfold Enumerates
  decide

/-- Only the first library has a `GzPluginHook`. -/
def oneHook : Env := { sharedName with
  library := fun lib => if lib = 0 then sharedName.library 0 else ⟨none, nofun⟩ }

/-- The first library is loaded, and an instance of its plugin lives. -/
def firstInUse : List Op := oneByOne.take 1 ++ [.instantiate "p" 7]

theorem noTrace_noHook :
    NoTrace oneHook (last init (history (step oneHook) init firstInUse))
      ((last init (history (step oneHook) init firstInUse)).loadLib oneHook "b" false
        ⟨some 2, false⟩ []).2 :=
  (noTrace_iff oneHook ⟨_, history_run (step oneHook) init firstInUse, rfl⟩ (by decide)
    (by unfold DlopenMayReturn; decide) enumerates_noHook (Or.inr (Or.inr rfl))).2.mpr (by decide)

/-- `dlopen` gives a handle, and `dlerror` a message: the library stays open. -/
theorem not_noTrace_errorMessage : ¬ ∀ w, Reachable (step sharedName) init w → w.alive →
    ∀ path noDelete res, w.DlopenMayReturn sharedName path res → ∀ infoHook loadedPlugins,
      Enumerates loadedPlugins (loadPlugins sharedName.abi infoHook) →
      (res.handle = none ∨ res.error = true ∨ loadPlugins sharedName.abi infoHook = ∅) →
      NoTrace sharedName w (w.loadLib sharedName path noDelete res loadedPlugins).2 := by
  intro h
  have ht := h init (Reachable.refl (step sharedName) init) rfl "a" false ⟨some 1, true⟩
    (by unfold DlopenMayReturn; decide) none [] enumerates_noHook (Or.inr (Or.inl rfl))
  exact absurd (ht.references 0) (by decide)

end World

end GzPlugin
