import GzPlugin.Mapped

/-!
# Forgetting does not fail half-way

The file registry, its alias map and the map of handles are kept in step by every load, also
by one that meets known names, and by every call that forgets a library. So `aliases.at` never
throws, and no file plugin is without a handle. What can still stop the loop is an `Info` whose
library was closed before.
-/

namespace GzPlugin

open FiniteMaps Runs

set_option autoImplicit false

namespace World

variable {env : Env} {w : World}

/-- `ForgetLibrary` on a handle with these names runs to its end: the loop neither throws nor
destroys an `Info` in code that is not mapped, all names go, and the record with them. -/
structure Completes (w : World) (h : Handle) (names : Finset String) (order : List String) :
    Prop where
  walks : w.Walks order
  succeeds : (w.forgetHandle h order).1 = true
  notThrown : (w.forgetHandle h order).2.thrown = false
  removed : ∀ name ∈ names, name ∉ (w.forgetHandle h order).2.impl.filePlugins.plugins ∧
    name ∉ (w.forgetHandle h order).2.impl.pluginToDlHandlePtrs
  erased : (w.forgetHandle h order).2.impl.dlHandleToPluginMap =
    w.impl.dlHandleToPluginMap.erase h

/-- The tables fit together, and what rests on that works. -/
structure Intact (w : World) : Prop where
  keys : w.impl.filePlugins.plugins.keys = w.impl.pluginToDlHandlePtrs.keys
  /-- A null handle is not open. -/
  handles : ∀ name, ∀ hp ∈ w.impl.pluginToDlHandlePtrs.lookup name, w.OpenAt hp
  listed : ∀ name, ∀ ptr ∈ w.impl.filePlugins.plugins.lookup name, ∀ a ∈ ptr.info.aliases,
    ∃ names ∈ w.impl.filePlugins.aliases.lookup a, ptr.info.name ∈ names
  notThrown : w.thrown = false
  forgetsInfo : ∀ name, (w.impl.filePlugins.forgetInfo name).isSome
  completes : ∀ h names, w.impl.dlHandleToPluginMap.lookup h = some names → ∀ order,
    w.WalkedInOrder h order → w.Completes h names order
  instantiates : ∀ s, (w.getInfoForFilePlugin (w.lookupFilePlugin s)).isSome →
    (w.getPluginDlHandlePtr (w.lookupFilePlugin s)).isSome

/-- However the recorded names of a handle are walked, no `Info` is let go of after its library
was closed. -/
def WalksRecords (w : World) : Prop :=
  ∀ h ∈ w.impl.dlHandleToPluginMap, ∀ order, w.WalkedInOrder h order → w.Walks order

theorem Sound.completes (h : Sound env w) {hd : Handle} {names : Finset String}
    (hl : w.impl.dlHandleToPluginMap.lookup hd = some names) {order : List String}
    (hord : w.WalkedInOrder hd order) (hwalk : w.Walks order) : w.Completes hd names order := by
  obtain ⟨htrue, hf⟩ := forgetHandle_some hl hord h.tables.registry h.notThrown h.linked
  refine ⟨hwalk, htrue, hf.around.thrown.trans h.notThrown, ?_, hf.recorded⟩
  intro name hn
  constructor
  · rw [← Finmap.lookup_eq_none, hf.removed.plugins, if_pos hn]
  · rw [← Finmap.lookup_eq_none, hf.removed.handles, if_pos hn]

theorem Sound.intact (h : Sound env w) (hwalks : w.WalksRecords) : w.Intact where
  keys := by
    ext name
    rw [Finmap.mem_keys, Finmap.mem_keys]
    exact h.tables.keys
  handles name hp hhp := h.linked.openAt (held_of_handle hhp)
  listed name ptr hptr a ha := by
    have hn := h.tables.registry.listed hptr ha
    obtain ⟨names, hl⟩ := Finmap.mem_iff.mp (Registry.mem_of_mem_names hn)
    rw [AliasMap.names, hl] at hn
    rw [h.tables.registry.named hptr]
    exact ⟨names, hl, hn⟩
  notThrown := h.notThrown
  forgetsInfo name := by
    obtain ⟨r, hr, _⟩ := h.tables.registry.forgetInfo name
    rw [hr]
    rfl
  completes hd names hl order hord :=
    h.completes hl hord (hwalks hd (Finmap.mem_of_lookup_eq_some hl) order hord)
  instantiates s hs :=
    Finmap.lookup_isSome.mpr (h.tables.keys.mp (Finmap.lookup_isSome.mp hs))

theorem Intact.walksRecords (h : w.Intact) : w.WalksRecords := by
  intro hd hm order hord
  obtain ⟨names, hl⟩ := Finmap.mem_iff.mp hm
  exact (h.completes hd names hl order hord).walks

/-- In every state of every run the tables of the Loader fit together, and forgetting a library
runs to its end unless it lets go of an `Info` whose library was closed. It never does if every
library that is loaded owns the registered plugins of the names it brings. -/
theorem intact_of_loadsOwnNames (env : Env) {l : List (Op × World)}
    (hrun : Run (step env) init l) :
    States (fun w => w.Intact ↔ w.WalksRecords) init l ∧
    (Steps (LoadsOwnNames env) init l → States Intact init l) := by
  constructor
  · have hsound : States (Sound env) init l :=
      hrun.states_of_step (init_sound env) fun hS hs => (step_sound hS hs).1
    exact hsound.imp fun w hS => ⟨Intact.walksRecords, hS.intact⟩
  · intro hload
    apply (matched_of_loadsOwnNames env hrun hload).imp
    intro w hw
    exact hw.1.intact fun _ _ order _ => hw.2.walks hw.1 order

theorem intact_oneByOne : States Intact init (history (step sharedName) init oneByOne) :=
  (intact_of_loadsOwnNames sharedName (history_run (step sharedName) init oneByOne)).2 (by decide)

/-- Loading the second library closes the first one. To forget the second one is to destroy the
`Info` of the first one, for which nobody but the registry has a reference. -/
theorem not_intact_loadBoth : ¬ ∀ w, Reachable (step sharedName) init w → w.Intact := by
  intro h
  have hintact := h _ ⟨_, history_run (step sharedName) init loadBoth, rfl⟩
  have hforget := hintact.completes 2 {"p"} (by decide) ["p"] (by decide)
  exact absurd hforget.walks (by decide)

end World

end GzPlugin
