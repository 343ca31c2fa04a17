import GzPlugin.Aliases

/-!
# Forgetting a library

The libraries that are loaded and not forgotten are followed along a run, and compared with
the plugins that the Loader still offers.
-/

namespace GzPlugin

open FiniteMaps Runs Implementation

set_option autoImplicit false

namespace World

variable {env : Env} {w w' : World} {loaded loaded' : Finset LibId}

def forgottenLibrary (env : Env) (w : World) (op : Op) : Option LibId :=
  (w.forgottenHandle env op).bind fun hd => (w.dl.lookup hd).map (·.lib)

/-- The libraries that are loaded and not forgotten after an operation; a library is
forgotten when the forgetting function returns true. -/
def loadedAfter (env : Env) (w : World) (loaded : Finset LibId) (op : Op) : Finset LibId :=
  match op with
  | .destroyLoader _ => ∅
  | op =>
    match op.loads env with
    | some lib => insert lib loaded
    | none =>
      if (w.forgottenNames env op).isSome then
        match w.forgottenLibrary env op with
        | some lib => loaded.erase lib
        | none => loaded
      else loaded

/-- The plugin is listed, it is resolved by its name, and it can be instantiated with code that
is mapped. -/
structure Available (env : Env) (w : World) (name : String) : Prop where
  listed : name ∈ w.allPlugins env
  resolved : w.lookupPlugin env name = name
  instantiated : ∀ i, i ≠ 0 → (w.instantiate env name i).1.isEmpty = false ∧
    (w.instantiate env name i).1.name = some name
  mapped : w.InstantiatesMapped env name

/-- All plugins of the loaded libraries are available. -/
def OffersLoaded (env : Env) (st : World × Finset LibId) : Prop :=
  ∀ lib ∈ st.2, ∀ name ∈ env.pluginNames lib, Available env st.1 name

/-- All plugins of the loaded libraries are in the file registry. -/
def RegistersLoaded (env : Env) (st : World × Finset LibId) : Prop :=
  ∀ lib ∈ st.2, ∀ name ∈ env.pluginNames lib, name ∈ st.1.impl.filePlugins.plugins

/-- The `Info` found for each of them is of a library that is still open. -/
def MapsLoaded (env : Env) (st : World × Finset LibId) : Prop :=
  ∀ lib ∈ st.2, ∀ name ∈ env.pluginNames lib, st.1.ResolvesMapped name

/-- No name that the operation forgets belongs to a library that stays loaded. -/
def ForgetsOwnNames (env : Env) (st : World × Finset LibId) (op : Op) : Prop :=
  ∀ names ∈ st.1.forgottenNames env op, ∀ lib ∈ loadedAfter env st.1 st.2 op,
    Disjoint (env.pluginNames lib) names

instance (env : Env) (st : World × Finset LibId) (op : Op) :
    Decidable (ForgetsOwnNames env st op) := by
  unfold ForgetsOwnNames; infer_instance

theorem loadedAfter_of_loads {op : Op} {lib : LibId} (h : op.loads env = some lib) :
    loadedAfter env w loaded op = insert lib loaded := by
  cases op <;> first | cases h | simp only [loadedAfter, h]

theorem loadedAfter_subset {op : Op} (h : op.loads env = none) :
    loadedAfter env w loaded op ⊆ loaded := by
  have hgo : ∀ b : Bool, (if b then
      match w.forgottenLibrary env op with
      | some lib => loaded.erase lib
      | none => loaded
      else loaded) ⊆ loaded := by
    intro b
    cases b
    · exact Finset.Subset.refl _
    · simp only [if_true]
      split
      · exact Finset.erase_subset _ _
      · exact Finset.Subset.refl _
  cases op
  case destroyLoader => exact Finset.empty_subset _
  all_goals
    simp only [loadedAfter, h]
    exact hgo _

theorem Sound.available (h : Sound env w) {name : String}
    (hm : name ∈ w.impl.filePlugins.plugins) (hmaps : w.ResolvesMapped name) :
    Available env w name := by
  have hfile := lookupFilePlugin_of_registered hm
  have hne : w.lookupFilePlugin name ≠ "" := by
    rw [hfile]
    exact h.tables.named hm
  refine ⟨mem_allPlugins_of_file hm, (lookupPlugin_of_file hne).trans hfile, fun i hi => ?_,
    h.instantiatesMapped_iff.mpr hmaps⟩
  cases h.resolution name with
  | file ptr hp _ hinfo _ hmade =>
    rw [hfile] at hinfo
    rw [hmade, Plugin.made_name, h.tables.registry.named hinfo]
    exact ⟨Plugin.made_isEmpty _ _ _ hi, rfl⟩
  | stale _ hinfo _ =>
    rw [hfile] at hinfo
    exact absurd hm (Finmap.lookup_eq_none.mp hinfo)
  | static _ hnone _ _ _ => exact absurd hnone hne
  | missing hnone _ _ => exact absurd hnone hne

theorem Available.registered {name : String} (hstat : env.staticInfos = [])
    (h : Available env w name) : name ∈ w.impl.filePlugins.plugins := by
  have hl := h.listed
  rw [allPlugins, Env.statics_of_nil hstat] at hl
  rcases Finset.mem_union.mp hl with hl | hl
  · exact Registry.mem_view_allPlugins.mp hl
  · simp [StaticRegistry.view, StaticRegistry.empty] at hl

/-- A step keeps the plugins of the loaded libraries registered exactly if it forgets no
name of a library that stays. -/
theorem RegistersLoaded.step_iff {op : Op} (h : RegistersLoaded env (w, loaded))
    (hS : Sound env w) (hs : step env w op = some w') :
    RegistersLoaded env (w', loadedAfter env w loaded op) ↔
      ForgetsOwnNames env (w, loaded) op := by
  cases (step_sound hS hs).2 with
  | loaded lib hp infos hop hl =>
    refine iff_of_true ?_ ?_
    · intro lib' hlib' name hname
      rw [loadedAfter_of_loads hop, Finset.mem_insert] at hlib'
      rw [hl.added.known]
      rcases hlib' with rfl | hlib'
      · exact Or.inr ((mem_pluginNames hl.enumerates).mp hname)
      · exact Or.inl (h lib' hlib' name hname)
    · intro names hnames
      cases hop' : w.forgottenHandle env op with
      | none => simp [forgottenNames, hop'] at hnames
      | some hd =>
        rw [loads_of_forgottenHandle hop'] at hop
        cases hop
  | forgot hd names hop hf =>
    have hsub : loadedAfter env w loaded op ⊆ loaded :=
      loadedAfter_subset (loads_of_forgottenHandle hop)
    have hnames : w.forgottenNames env op = some names := by
      simp [forgottenNames, hop, hf.known]
    have hmem : ∀ {name}, name ∈ w'.impl.filePlugins.plugins ↔
        name ∉ names ∧ name ∈ w.impl.filePlugins.plugins := by
      intro name
      rw [← Finmap.lookup_isSome, hf.removed.plugins, ← Finmap.lookup_isSome]
      by_cases hn : name ∈ names <;> simp [hn]
    constructor
    · intro h' names' hnames' lib hlib
      rw [hnames] at hnames'
      cases hnames'
      rw [Finset.disjoint_left]
      exact fun name hname => (hmem.mp (h' lib hlib name hname)).1
    · intro hC lib hlib name hname
      have hdisj := hC names hnames lib hlib
      exact hmem.mpr ⟨Finset.disjoint_left.mp hdisj hname, h lib (hsub hlib) name hname⟩
  | kept hload hforget hq =>
    refine iff_of_true ?_ ?_
    · intro lib hlib name hname
      rw [hq.impl]
      exact h lib (loadedAfter_subset hload hlib) name hname
    · intro names hnames
      rw [hforget] at hnames
      cases hnames
  | destroyed _ _ _ =>
    refine iff_of_true ?_ ?_
    · intro lib hlib
      exact absurd hlib (Finset.notMem_empty lib)
    · intro names hnames
      cases hnames

theorem RegistersLoaded.offersLoaded_iff {st : World × Finset LibId}
    (h : RegistersLoaded env st) (hS : Sound env st.1) :
    OffersLoaded env st ↔ MapsLoaded env st := by
  constructor
  · intro hoffers lib hlib name hname
    exact hS.instantiatesMapped_iff.mp (hoffers lib hlib name hname).mapped
  · intro hmaps lib hlib name hname
    exact hS.available (h lib hlib name hname) (hmaps lib hlib name hname)

/-- In a run that forgets no plugin name of a library that stays loaded, in every state reached,
the plugins of all libraries loaded and not forgotten are available if and only if the libraries
of their `Info`s are still open. They always are if every library that is loaded owns the
registered plugins of the names it brings. Without static plugins no other run has this
property. -/
theorem offersLoaded_of_forgetsOwnNames (env : Env) {l : List (Op × (World × Finset LibId))}
    (hrun : Run (lockstep (step env) (loadedAfter env)) (init, ∅) l) :
    (Steps (ForgetsOwnNames env) (init, ∅) l →
      States (fun st => OffersLoaded env st ↔ MapsLoaded env st) (init, ∅) l) ∧
    (Steps (ForgetsOwnNames env) (init, ∅) l →
      Steps (fun st op => LoadsOwnNames env st.1 op) (init, ∅) l →
      States (OffersLoaded env) (init, ∅) l) ∧
    (env.staticInfos = [] →
      States (OffersLoaded env) (init, ∅) l → Steps (ForgetsOwnNames env) (init, ∅) l) := by
  have hstep : ∀ {st : World × Finset LibId} {op st'}, Sound env st.1 →
      lockstep (step env) (loadedAfter env) st op = some st' → Sound env st'.1 :=
    fun hS hs => (step_sound hS (lockstep_eq_some.mp hs).1).1
  have hsound : States (fun st => Sound env st.1) (init, ∅) l :=
    hrun.states_of_step (init_sound env) hstep
  have hiff : States (RegistersLoaded env) (init, ∅) l ↔
      Steps (ForgetsOwnNames env) (init, ∅) l := by
    refine hrun.states_iff (I := fun st => Sound env st.1) (init_sound env) ?_ hstep ?_
    · intro lib hlib
      exact absurd hlib (Finset.notMem_empty lib)
    · rintro ⟨w, loaded⟩ op ⟨w', loaded'⟩ hS hP hs
      obtain ⟨hs, rfl⟩ := lockstep_eq_some.mp hs
      exact RegistersLoaded.step_iff hP hS hs
  rw [← hiff]
  have hmaps : States (RegistersLoaded env) (init, ∅) l →
      States (fun st => OffersLoaded env st ↔ MapsLoaded env st) (init, ∅) l := by
    intro h
    exact (hsound.and h).imp fun st hst => hst.2.offersLoaded_iff hst.1
  refine ⟨hmaps, ?_, ?_⟩
  · intro h hload
    have hmatched : States (fun st => Sound env st.1 ∧ st.1.Matched) (init, ∅) l := by
      apply hrun.states hload ⟨init_sound env, init_matched⟩
      intro st op st' hown hst hs
      exact ⟨hstep hst.1 hs, (hst.2.step_iff hst.1 (lockstep_eq_some.mp hs).1).mpr hown⟩
    apply (hmatched.and (hmaps h)).imp
    intro st hst
    exact hst.2.mpr fun _ _ name _ => (hst.1.2.registered_maps hst.1.1).resolves name
  · intro hstat h
    exact h.imp fun st hst lib hlib name hname => (hst lib hlib name hname).registered hstat

theorem offersLoaded_oneByOne : States (OffersLoaded sharedName) (init, ∅)
    (history (lockstep (step sharedName) (loadedAfter sharedName)) (init, ∅) oneByOne) :=
  (offersLoaded_of_forgetsOwnNames sharedName
    (history_run _ (init, ∅) oneByOne)).2.1 (by decide) (by decide)

/-- Forgetting the second library takes away the plugin of the first one. -/
theorem not_offersLoaded_after_loadBoth :
    ¬ ∀ st, Reachable (lockstep (step sharedName) (loadedAfter sharedName)) (init, ∅) st →
      OffersLoaded sharedName st := by
  intro h
  have hoffers := h _ ⟨_, history_run _ (init, ∅) forgetSecond, rfl⟩
  exact absurd (hoffers 0 (by decide) "p" (by decide)).listed (by decide)

end World

end GzPlugin
