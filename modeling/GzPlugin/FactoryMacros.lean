import GzPlugin.Discovery
import GzPlugin.Registration
import GzPlugin.Reloading

/-!
# The macros that register factories

A factory macro registers the class `FactoryType::Producing<ProductType>`, which nobody likes
to write down, under the name of the product. The user of the library asks `Loader::Factory`
for the product and gets its factory, for as long as the library stays loaded and no other
plugin claims that name.
-/

namespace GzPlugin

open FiniteMaps Runs

set_option autoImplicit false

/-- A use of a macro of Register.hh. The factory class is `FactoryType::Producing<ProductType>`,
and types appear with their mangled names. -/
inductive Macro where
  | addPlugin (pluginClass : PluginClass Symbol) (interfaces : List String)
  | addPluginAlias (pluginClass : PluginClass Symbol) (aliases : List String)
  | addFactory (productType : String) (producing : PluginClass Symbol) (factoryType : String)
  | addFactoryAlias (productType : String) (producing : PluginClass Symbol) (factoryType : String)
      (aliases : List String)

namespace Macro

variable {env : Env} {producing : PluginClass Symbol} {factoryType a : String} {ms : List Macro}

/-- `DETAIL_GZ_ADD_FACTORY` -/
def factory (env : Env) (productType : String) (producing : PluginClass Symbol)
    (factoryType : String) : List (Registration Symbol) :=
  [.register producing [factoryType], .registerAlias producing [env.demangle productType]]

/-- What the macro expands to. -/
def expand (env : Env) : Macro → List (Registration Symbol)
  | addPlugin pluginClass interfaces => [.register pluginClass interfaces]
  | addPluginAlias pluginClass aliases => [.registerAlias pluginClass aliases]
  | addFactory productType producing factoryType => factory env productType producing factoryType
  | addFactoryAlias productType producing factoryType aliases =>
    factory env productType producing factoryType ++ [.registerAlias producing aliases]

/-- The macro provides that factory under the name `a`. -/
def Provides (env : Env) (producing : PluginClass Symbol) (factoryType a : String) :
    Macro → Prop
  | addFactory productType producing' factoryType' =>
    producing' = producing ∧ factoryType' = factoryType ∧ a = env.demangle productType
  | addFactoryAlias productType producing' factoryType' aliases =>
    producing' = producing ∧ factoryType' = factoryType ∧
      a ∈ env.demangle productType :: aliases
  | _ => False

/-- The registrations of a library that uses these macros, in their order. -/
def registrations (env : Env) (ms : List Macro) : List (Registration Symbol) :=
  ms.flatMap (expand env)

theorem Provides.registered {m : Macro} (h : m.Provides env producing factoryType a) :
    .register producing [factoryType] ∈ m.expand env ∧
      ∃ aliases, .registerAlias producing aliases ∈ m.expand env ∧ a ∈ aliases := by
  cases m with
  | addPlugin pluginClass interfaces => exact absurd h id
  | addPluginAlias pluginClass aliases => exact absurd h id
  | addFactory productType producing' factoryType' =>
    obtain ⟨rfl, rfl, rfl⟩ := h
    exact ⟨List.mem_cons_self, _, List.mem_cons_of_mem _ List.mem_cons_self,
      List.mem_cons_self⟩
  | addFactoryAlias productType producing' factoryType' aliases =>
    obtain ⟨rfl, rfl, ha⟩ := h
    refine ⟨List.mem_cons_self, ?_⟩
    rcases List.mem_cons.mp ha with rfl | ha
    · exact ⟨_, List.mem_cons_of_mem _ List.mem_cons_self, List.mem_cons_self⟩
    · exact ⟨aliases, List.mem_append_right _ List.mem_cons_self, ha⟩

end Macro

theorem mem_insertAlias {aliases : List String} {s : Finset String} {a : String} :
    a ∈ insertAlias s aliases ↔ a ∈ s ∨ a ∈ aliases := by
  induction aliases generalizing s with
  | nil => simp [insertAlias]
  | cons b aliases ih =>
    rw [insertAlias, ih, Finset.mem_insert, List.mem_cons]
    tauto

theorem mem_registerInfo {pluginClass : PluginClass Symbol} {interface : String} :
    interface ∈ (registerInfo pluginClass [interface]).interfaces := by
  have hfirst : interface ∈ insertInterfaces pluginClass [interface] ∅ :=
    mem_insertNew.mpr (Or.inl rfl)
  unfold registerInfo addEnablePluginFromThis
  simp only
  split
  · exact mem_insertNew.mpr (Or.inr hfirst)
  · exact hfirst

namespace World

variable {env : Env} {w w' w₁ : World} {lib : LibId} {ms : List Macro} {path : String}
  {noDelete : Bool} {res : DlopenResult} {infos : List (Info Symbol)}
  {producing : PluginClass Symbol} {factoryType a name : String}

theorem allInfo_of_registrations {regs : List (Registration Symbol)}
    (hlib : env.library lib = .ofRegistrations env.abi regs) :
    env.allInfo lib = registrations env.abi (regs.map (·.info)) := by
  rw [Env.allInfo, hlib]
  exact loadPlugins_agree env.abi _

/-- The `Info` that the library exports for the factory. -/
theorem exported_of_provides
    (hlib : env.library lib = .ofRegistrations env.abi (Macro.registrations env ms)) {m : Macro}
    (hm : m ∈ ms) (hp : m.Provides env producing factoryType a) :
    ∃ info, (env.allInfo lib).lookup producing.typeName = some info ∧
      a ∈ info.aliases ∧ factoryType ∈ info.interfaces := by
  obtain ⟨hregister, aliases, halias, ha⟩ := hp.registered
  have hnamed : ∀ r : Registration Symbol, r ∈ m.expand env → r.info.name = producing.typeName →
      r.info ∈ named producing.typeName ((Macro.registrations env ms).map (·.info)) :=
    fun r hr hn => mem_named.mpr
      ⟨List.mem_map.mpr ⟨r, List.mem_flatMap.mpr ⟨m, hm, hr⟩, rfl⟩, hn⟩
  have hfirst := hnamed _ hregister rfl
  have hsecond := hnamed _ halias rfl
  rw [allInfo_of_registrations hlib, registrations_lookup]
  cases hl : named producing.typeName ((Macro.registrations env ms).map (·.info)) with
  | nil =>
    rw [hl] at hfirst
    cases hfirst
  | cons first later =>
    rw [hl] at hfirst hsecond
    refine ⟨_, rfl, ?_, ?_⟩
    · refine (mem_foldl_mergeInfo_aliases later first a).mpr ⟨_, hsecond, ?_⟩
      exact mem_insertAlias.mpr (Or.inr ha)
    · rw [← Finmap.lookup_isSome, foldl_mergeInfo_interfaces, List.findSome?_isSome_iff]
      exact ⟨_, hfirst, Finmap.lookup_isSome.mpr mem_registerInfo⟩

/-- A plugin of a library that is left alone is still stored in the same object. -/
theorem stored_next {op : Op} {ptr : ConstInfoPtr CodePtr} (hS : Sound env w)
    (hn : name ∈ env.pluginNames lib)
    (h : w.alive → w.impl.filePlugins.plugins.lookup name = some ptr)
    (hop : LeavesAlone env lib w op) (hs : step env w op = some w') :
    w'.alive → w'.impl.filePlugins.plugins.lookup name = some ptr := by
  intro ha
  cases (step_sound hS hs).2 with
  | loaded lib' hp infos hload hl => exact hl.added.kept (h (hl.around.alive ▸ ha))
  | forgot hd names hforget hf =>
    have hnames : names ∈ w.forgottenNames env op := by
      rw [forgottenNames, hforget]
      exact hf.known
    rw [hf.removed.plugins, if_neg (Finset.disjoint_right.mp (hop.2 names hnames) hn)]
    exact h (hf.around.alive ▸ ha)
  | kept _ _ hq =>
    rw [hq.impl]
    exact h (hq.alive ▸ ha)
  | destroyed _ halive _ =>
    rw [halive] at ha
    cases ha

/-- No other plugin is called so, nor listed under that alias. -/
def Unrivalled (w : World) (a name : String) : Prop :=
  a = name ∨ a ∉ w.impl.filePlugins.plugins ∧ ∀ n ∈ w.impl.filePlugins.aliases.names a, n = name

instance (w : World) (a name : String) : Decidable (w.Unrivalled a name) := by
  unfold Unrivalled; infer_instance

/-- A plugin that is listed under an alias is found under it unless there is another one. -/
theorem lookup_iff_unrivalled (hS : Sound env w) (hname : name ∈ w.impl.filePlugins.plugins)
    (hlisted : name ∈ w.impl.filePlugins.aliases.names a) :
    w.lookupFilePlugin a = name ↔ w.Unrivalled a name := by
  have hne : name ≠ "" := hS.tables.named hname
  have hknown : (w.impl.filePlugins.view.getInfo a).isSome ↔ a ∈ w.impl.filePlugins.plugins := by
    rw [Registry.view_getInfo, Option.isSome_map, Finmap.lookup_isSome]
  unfold lookupFilePlugin Unrivalled
  rcases RegistryView.lookupPlugin_cases w.impl.filePlugins.view a with
    ⟨hk, he⟩ | ⟨hk, n, hn, he⟩ | ⟨hk, hn, he⟩
  · rw [he]
    exact (or_iff_left fun h => h.1 (hknown.mp hk)).symm
  · rw [he]
    change w.impl.filePlugins.aliases.names a = {n} at hn
    rw [hn] at hlisted ⊢
    have hsame : n = name := (Finset.mem_singleton.mp hlisted).symm
    refine iff_of_true hsame (Or.inr ⟨fun hm => ?_, fun n' hn' => ?_⟩)
    · rw [← hknown, hk] at hm
      cases hm
    · rw [Finset.mem_singleton.mp hn', hsame]
  · rw [he]
    refine iff_of_false hne.symm ?_
    rintro (rfl | ⟨_, hall⟩)
    · rw [← hknown, hk] at hname
      cases hname
    · exact hn name (Finset.eq_singleton_iff_unique_mem.mpr ⟨hlisted, hall⟩)

/-- The first library with a plugin of that name decides what is stored. -/
theorem Loaded.stored_eq {hp : DlHandlePtr} {i : Info Symbol} {key : String}
    (hl : Loaded env w lib hp infos w') (hnew : env.demangle i.name ∉ w.impl.filePlugins.plugins)
    (hi : (env.allInfo lib).lookup key = some i)
    (hinj : ∀ key' i', (env.allInfo lib).lookup key' = some i' →
      env.demangle i'.name = env.demangle i.name → i' = i) :
    ∃ ptr, w'.impl.filePlugins.plugins.lookup (env.demangle i.name) = some ptr ∧
      ptr.info = env.stored hp.image i := by
  have hknown : env.demangle i.name ∈ w'.impl.filePlugins.plugins :=
    hl.added.known.mpr (Or.inr ⟨i, (hl.enumerates.mem_iff i).mpr ⟨key, hi⟩, rfl⟩)
  obtain ⟨ptr, hptr⟩ := Finmap.mem_iff.mp hknown
  refine ⟨ptr, hptr, ?_⟩
  rcases hl.added.stored hptr with hold | ⟨_, i', hi', hn, he⟩
  · exact absurd (Finmap.mem_of_lookup_eq_some hold) hnew
  · obtain ⟨key', hkey'⟩ := (hl.enumerates.mem_iff i').mp hi'
    rw [he, hinj key' i' hkey' hn]

/-- After its library was loaded, and until it is forgotten, a factory is found under the name
of its product and under every alias, unless another plugin claims that name; and what is
instantiated under that name has the interface of the factory. -/
theorem factory_of_macros (env : Env) (hcast : ∀ f p, p ≠ 0 → env.cast f p ≠ 0)
    (hw : Reachable (step env) init w)
    (hlib : env.library lib = .ofRegistrations env.abi (Macro.registrations env ms))
    (hinj : DistinctNames env (Macro.registrations env ms))
    (hnew : ∀ name ∈ env.pluginNames lib, name ∉ w.impl.filePlugins.plugins)
    (hload : step env w (.loadLib path noDelete res infos) = some w₁)
    (hop : (Op.loadLib path noDelete res infos).loads env = some lib)
    {l : List (Op × World)} (hrun : Run (step env) w₁ l) (hl : Steps (LeavesAlone env lib) w₁ l)
    (ha : (last w₁ l).alive) {m : Macro} (hm : m ∈ ms)
    (hp : m.Provides env producing factoryType a) {instance_ : Ptr} (hne : instance_ ≠ 0) :
    env.demangle producing.typeName ∈ (last w₁ l).pluginsWithAlias env a ∧
    ((last w₁ l).lookupFilePlugin a = env.demangle producing.typeName ↔
      (last w₁ l).Unrivalled a (env.demangle producing.typeName)) ∧
    ((last w₁ l).Unrivalled a (env.demangle producing.typeName) →
      ((last w₁ l).instantiate env a instance_).1.queryInterface factoryType ≠ 0) := by
  obtain ⟨info, hinfo, halias, hinterface⟩ := exported_of_provides hlib hm hp
  have hname : info.name = producing.typeName := (env.allInfo_keyed lib _ info hinfo).1
  have hpn : env.demangle producing.typeName ∈ env.pluginNames lib :=
    Env.mem_pluginNames.mpr ⟨_, info, hinfo, by rw [hname]⟩
  have hS : Sound env w := reachable_sound hw
  obtain ⟨⟨_, _, hvec⟩, hafter⟩ := step_eq_some.mp hload
  obtain ⟨hpp, w₀, he, ho⟩ := loads_opened hS hload hop
  have hloaded : Loaded env w lib hpp infos w₁ := hafter ▸ (ho.loaded he hvec).2
  -- the factory is stored under its own name by the call
  have hstored : ∃ ptr, w₁.impl.filePlugins.plugins.lookup (env.demangle producing.typeName) =
      some ptr ∧ ptr.info = env.stored hpp.image info := by
    have hdistinct : ∀ key' i', (env.allInfo lib).lookup key' = some i' →
        env.demangle i'.name = env.demangle info.name → i' = info := by
      intro key' i' hi' hsame
      have hkey' : i'.name = key' := (env.allInfo_keyed lib key' i' hi').1
      have hmem := Finmap.mem_of_lookup_eq_some hi'
      rw [allInfo_of_registrations hlib, mem_registrations_map] at hmem
      obtain ⟨r, hr, hrn⟩ := hmem
      have hregister := List.mem_flatMap.mpr ⟨m, hm, hp.registered.1⟩
      have hkey : r.info.name = producing.typeName :=
        hinj r hr _ hregister (by rw [hrn, ← hkey', hsame, hname]; rfl)
      rw [← hrn, hkey, hinfo] at hi'
      exact (Option.some.inj hi').symm
    rw [← hname]
    exact hloaded.stored_eq (hname ▸ hnew _ hpn) hinfo hdistinct
  obtain ⟨ptr, hptr, hsame⟩ := hstored
  have hstays : States (fun v => Sound env v ∧ (v.alive → Installed env v lib) ∧ (v.alive →
      v.impl.filePlugins.plugins.lookup (env.demangle producing.typeName) = some ptr)) w₁ l := by
    refine hrun.states hl ⟨(step_sound hS hload).1, fun _ => hloaded.installed, fun _ => hptr⟩ ?_
    intro v op v' hop hI hs
    exact ⟨(step_sound hI.1 hs).1, Installed.next hI.1 hI.2.1 hop hs,
      stored_next hI.1 hpn hI.2.2 hop hs⟩
  obtain ⟨hSv, hinstalled, hkept⟩ := hstays.last
  generalize last w₁ l = v at ha hSv hinstalled hkept ⊢
  have hlisted : env.demangle producing.typeName ∈ v.impl.filePlugins.aliases.names a :=
    hname ▸ (hinstalled ha).listed _ info hinfo a halias
  have hknown := Finmap.mem_of_lookup_eq_some (hkept ha)
  have hfound := lookup_iff_unrivalled hSv hknown hlisted
  refine ⟨?_, hfound, fun hun => ?_⟩
  · exact Finset.mem_union_left _ (RegistryView.mem_pluginsWithAlias.mpr (Or.inl hlisted))
  · rw [hSv.query_iff hcast hne, instanceInterfaces, hfound.mpr hun,
      if_pos (hSv.tables.named hknown)]
    simp only [fileInterfaces, hkept ha, hsame]
    exact Finmap.mem_keys.mpr (mem_mapValues.mpr hinterface)

theorem f_ne : "F" ≠ "" := by decide

/-- A library with a factory for "T", found at "a". -/
def factoryMacro : Macro := .addFactory "T" (plainClass "F" f_ne) "I"

def oneFactory : Env :=
  twoLibraries (Macro.registrations sharedName [factoryMacro])
    (registrationsOf "q" q_ne ["J"] ["y"]) []

def loadFactory : Op := .loadLib "a" false ⟨some 1, false⟩ [pluginOf "F" f_ne ["I"] ["T"]]

/-- Another library is loaded before the factory is asked for. -/
def factoryLoaded : World :=
  last (init.after oneFactory loadFactory) (history (step oneFactory)
    (init.after oneFactory loadFactory)
    [.loadLib "b" false ⟨some 2, false⟩ [pluginOf "q" q_ne ["J"] ["y"]]])

theorem factory_of_oneFactory :
    (factoryLoaded.instantiate oneFactory "T" 5).1.queryInterface "I" ≠ 0 := by
  have hload : step oneFactory init (.loadLib "a" false ⟨some 1, false⟩
      [pluginOf "F" f_ne ["I"] ["T"]]) = some (init.after oneFactory loadFactory) :=
    step_eq_some.mpr ⟨by decide, rfl⟩
  have hdistinct : DistinctNames oneFactory (Macro.registrations oneFactory [factoryMacro]) := by
    unfold DistinctNames
    decide
  exact (factory_of_macros oneFactory (fun _ _ hne => hne) (.refl _ init) rfl hdistinct (by decide)
    hload rfl (history_run _ (init.after oneFactory loadFactory) _) (by decide) (by decide)
    (List.mem_singleton_self factoryMacro) ⟨rfl, rfl, rfl⟩ (by decide)).2.2 (by decide)

end World

end GzPlugin
