import GzPlugin.Resolution

/-!
# Discovery and instantiation

`PluginsImplementing` and `InterfacesImplemented` look at the `Info`s of both registries,
`Instantiate` at one of them. The condition under which they agree is determined exactly.
-/

namespace GzPlugin

open FiniteMaps Runs

set_option autoImplicit false

/-- The interface names that occur in the libraries and in the static registrations. -/
def Env.interfaceNames (env : Env) : Set String :=
  {interface | (∃ lib name info, (env.allInfo lib).lookup name = some info ∧
      interface ∈ info.interfaces) ∨ ∃ info ∈ env.staticInfos, interface ∈ info.interfaces}

theorem Env.statics_interfaces (env : Env) {name interface : String} {info : Info CodePtr}
    (h : env.statics.infos.lookup name = some info) (hi : interface ∈ info.interfaces) :
    interface ∈ env.interfaceNames := by
  refine StaticRegistry.registrations_forall
    (Q := fun _ i => ∀ interface ∈ i.interfaces, interface ∈ env.interfaceNames) ?_ h
    interface hi
  intro i hi entry he interface hinterface
  obtain ⟨j, hj, rfl⟩ := List.mem_map.mp hi
  have hnew : ∀ {k}, k ∈ (j.mapCode (CodePtr.mk .executable)).interfaces →
      k ∈ env.interfaceNames :=
    fun hk => Or.inr ⟨j, hj, mem_mapValues.mp hk⟩
  cases entry with
  | none => exact hnew hinterface
  | some e =>
    rcases Finmap.mem_union.mp hinterface with hold | hmem
    · exact he e rfl interface hold
    · exact hnew hmem

namespace World

variable {env : Env} {w w' : World} {s interface : String}

/-- What `PluginsImplementing` and `InterfacesImplemented` report is what an instance offers,
for the interface types whose names are in `U`, and instances are made by mapped code. -/
structure Discovers (env : Env) (w : World) (U : Set String) : Prop where
  implementing : ∀ interface ∈ U, ∀ name i, i ≠ 0 →
    (name ∈ w.pluginsImplementing env interface false ↔ name ∈ w.allPlugins env ∧
      (w.instantiate env name i).1.queryInterface interface ≠ 0)
  implemented : ∀ interface ∈ U, ∀ i, i ≠ 0 →
    (env.demangle interface ∈ w.interfacesImplemented env ↔ ∃ name ∈ w.allPlugins env,
      (w.instantiate env name i).1.queryInterface interface ≠ 0)
  mapped : ∀ name ∈ w.allPlugins env, w.InstantiatesMapped env name

def fileInterfaces (w : World) (name : String) : Finset String :=
  match w.impl.filePlugins.plugins.lookup name with
  | none => ∅
  | some ptr => ptr.info.interfaces.keys

/-- A static plugin whose name the file registry knows offers nothing that the file plugin
lacks, and one whose name is a unique alias in the file registry offers just the same. -/
def Unshadowed (env : Env) (w : World) : Prop :=
  ∀ name, ∀ info ∈ env.statics.infos.lookup name,
    (name ∈ w.impl.filePlugins.plugins → info.interfaces.keys ⊆ w.fileInterfaces name) ∧
    (name ∉ w.impl.filePlugins.plugins → ∀ other,
      w.impl.filePlugins.aliases.names name = {other} →
        info.interfaces.keys = w.fileInterfaces other)

def FromLibraries (env : Env) (w : World) : Prop :=
  ∀ name, ∀ ptr ∈ w.impl.filePlugins.plugins.lookup name,
    ∃ lib n info image, (env.allInfo lib).lookup n = some info ∧ ptr.info = env.stored image info

theorem FromLibraries.step {op : Op} (h : FromLibraries env w) (hS : Sound env w)
    (hs : step env w op = some w') : FromLibraries env w' := by
  intro name ptr hptr
  rcases step_stored hS hs hptr with hold | ⟨lib, serial, key, i, hi, he⟩
  · exact h name ptr hold
  · exact ⟨lib, key, i, .mapped lib serial, hi, he⟩

theorem reachable_fromLibraries (h : Reachable (World.step env) init w) :
    FromLibraries env w := by
  have hboth : Sound env w ∧ FromLibraries env w := by
    refine h.invariant (P := fun w => Sound env w ∧ FromLibraries env w)
      ⟨init_sound env, ?_⟩ fun hw hs => ⟨(step_sound hw.1 hs).1, hw.2.step hw.1 hs⟩
    intro name ptr hptr
    simp [init, Implementation.empty, Registry.empty] at hptr
  exact hboth.2

theorem FromLibraries.interfaces (h : FromLibraries env w) {name : String}
    {ptr : ConstInfoPtr CodePtr} (hptr : w.impl.filePlugins.plugins.lookup name = some ptr)
    (hi : interface ∈ ptr.info.interfaces) : interface ∈ env.interfaceNames := by
  obtain ⟨lib, n, info, image, hinfo, he⟩ := h name ptr hptr
  rw [he] at hi
  exact Or.inl ⟨lib, n, info, hinfo, mem_mapValues.mp hi⟩

def instanceInterfaces (env : Env) (w : World) (s : String) : Finset String :=
  if w.lookupFilePlugin s ≠ "" then w.fileInterfaces (w.lookupFilePlugin s)
  else
    match env.statics.infos.lookup (lookupStaticPlugin env s) with
    | none => ∅
    | some info => info.interfaces.keys

theorem made_queryInterface_ne (hcast : ∀ f p, p ≠ 0 → env.cast f p ≠ 0) {i : Ptr} (hi : i ≠ 0)
    (block : Nat) (info : ConstInfoPtr CodePtr) :
    (Plugin.made env.cast block i info).queryInterface interface ≠ 0 ↔
      interface ∈ info.info.interfaces.keys := by
  rw [Plugin.made_queryInterface, Finmap.mem_keys]
  cases hl : info.info.interfaces.lookup interface with
  | none =>
    simp only [Option.map_none, Option.getD_none, ne_eq, not_true, false_iff]
    exact Finmap.lookup_eq_none.mp hl
  | some f =>
    simp only [Option.map_some, Option.getD_some, ne_eq]
    exact iff_of_true (hcast f i hi) (Finmap.mem_of_lookup_eq_some hl)

theorem Sound.query_iff (h : Sound env w) (hcast : ∀ f p, p ≠ 0 → env.cast f p ≠ 0) {i : Ptr}
    (hi : i ≠ 0) : (w.instantiate env s i).1.queryInterface interface ≠ 0 ↔
      interface ∈ w.instanceInterfaces env s := by
  unfold instanceInterfaces
  cases h.resolution s with
  | file ptr hp hfile hinfo _ hmade =>
    rw [hmade, made_queryInterface_ne hcast hi, if_pos hfile]
    simp only [fileInterfaces, hinfo]
  | stale hfile hinfo hmade =>
    rw [hmade, if_pos hfile]
    simp [fileInterfaces, hinfo, Plugin.queryInterface, Plugin.empty]
  | static info hfile _ hinfo hmade =>
    rw [hmade, made_queryInterface_ne hcast hi, if_neg (not_not.mpr hfile)]
    simp only [hinfo]
  | missing hfile hstatic hmade =>
    have hnone : env.statics.infos.lookup "" = none :=
      Finmap.lookup_eq_none.mpr fun hm => env.statics_name_ne hm rfl
    rw [hmade, if_neg (not_not.mpr hfile), hstatic]
    simp [hnone, Plugin.queryInterface, Plugin.empty]

theorem instanceInterfaces_of_file (h : Sound env w) (hf : s ∈ w.impl.filePlugins.plugins) :
    w.instanceInterfaces env s = w.fileInterfaces s := by
  have hlookup := lookupFilePlugin_of_registered hf
  rw [instanceInterfaces, hlookup, if_pos (h.tables.named hf)]

theorem instanceInterfaces_of_alias (h : Sound env w) (hf : s ∉ w.impl.filePlugins.plugins)
    {other : String} (hin : w.impl.filePlugins.aliases.names s = {other}) :
    w.instanceInterfaces env s = w.fileInterfaces other := by
  have hmem : other ∈ w.impl.filePlugins.aliases.names s := by
    rw [hin]
    exact Finset.mem_singleton_self other
  have hlookup : w.lookupFilePlugin s = other := by
    rw [lookupFilePlugin_of_unknown hf, hin, Finset.card_singleton, if_pos rfl,
      firstName_singleton]
  rw [instanceInterfaces, hlookup, if_pos (h.tables.listed hmem)]

theorem instanceInterfaces_of_static {info : Info CodePtr}
    (hf : s ∉ w.impl.filePlugins.plugins)
    (hin : ∀ other, w.impl.filePlugins.aliases.names s ≠ {other})
    (hs : env.statics.infos.lookup s = some info) :
    w.instanceInterfaces env s = info.interfaces.keys := by
  have hcard : (w.impl.filePlugins.aliases.names s).card ≠ 1 := by
    intro hcard
    obtain ⟨other, hother⟩ := Finset.card_eq_one.mp hcard
    exact hin other hother
  have hlookup : w.lookupFilePlugin s = "" := by
    rw [lookupFilePlugin_of_unknown hf, if_neg hcard]
  have hstatic : lookupStaticPlugin env s = s :=
    lookupStaticPlugin_of_known (Finmap.mem_of_lookup_eq_some hs)
  rw [instanceInterfaces, hlookup, hstatic, if_neg (not_not.mpr rfl)]
  simp only [hs]

theorem mem_fileInterfaces {name : String} : interface ∈ w.fileInterfaces name ↔
    ∃ ptr, w.impl.filePlugins.plugins.lookup name = some ptr ∧
      interface ∈ ptr.info.interfaces := by
  unfold fileInterfaces
  cases w.impl.filePlugins.plugins.lookup name <;> simp [Finmap.mem_keys]

theorem Sound.mem_pluginsImplementing (h : Sound env w) {name : String} :
    name ∈ w.pluginsImplementing env interface false ↔ interface ∈ w.fileInterfaces name ∨
      ∃ info, env.statics.infos.lookup name = some info ∧ interface ∈ info.interfaces.keys := by
  rw [pluginsImplementing, Finset.mem_union,
    h.tables.registry.coherent.mem_pluginsImplementing,
    env.statics_wellFormed.coherent.mem_pluginsImplementing, mem_fileInterfaces]
  simp only [Registry.view_getInfo, Option.map_eq_some_iff, RegistryView.provides,
    Bool.false_eq_true, if_false, decide_eq_true_eq, Finmap.mem_keys]
  refine or_congr ?_ Iff.rfl
  constructor
  · rintro ⟨_, ⟨ptr, hptr, rfl⟩, hi⟩
    exact ⟨ptr, hptr, hi⟩
  · rintro ⟨ptr, hptr, hi⟩
    exact ⟨ptr.info, ⟨ptr, hptr, rfl⟩, hi⟩

theorem Sound.implementing_iff (h : Sound env w) (hu : Unshadowed env w) (name : String) :
    name ∈ w.pluginsImplementing env interface false ↔
      name ∈ w.allPlugins env ∧ interface ∈ w.instanceInterfaces env name := by
  rw [h.mem_pluginsImplementing, mem_allPlugins]
  by_cases hf : name ∈ w.impl.filePlugins.plugins
  · rw [instanceInterfaces_of_file h hf]
    constructor
    · rintro (hi | ⟨info, hinfo, hi⟩)
      · exact ⟨Or.inl hf, hi⟩
      · exact ⟨Or.inl hf, (hu name info hinfo).1 hf hi⟩
    · exact fun hi => Or.inl hi.2
  have hnone : interface ∉ w.fileInterfaces name := by
    rw [mem_fileInterfaces]
    rintro ⟨ptr, hptr, _⟩
    exact hf (Finmap.mem_of_lookup_eq_some hptr)
  have hkeys : ∀ {info}, env.statics.infos.lookup name = some info →
      w.instanceInterfaces env name = info.interfaces.keys := by
    intro info hinfo
    by_cases hin : ∃ other, w.impl.filePlugins.aliases.names name = {other}
    · obtain ⟨other, hin⟩ := hin
      rw [instanceInterfaces_of_alias h hf hin, (hu name info hinfo).2 hf other hin]
    · exact instanceInterfaces_of_static hf (fun other ho => hin ⟨other, ho⟩) hinfo
  constructor
  · rintro (hi | ⟨info, hinfo, hi⟩)
    · exact absurd hi hnone
    · exact ⟨Or.inr (Finmap.mem_of_lookup_eq_some hinfo), by rw [hkeys hinfo]; exact hi⟩
  · rintro ⟨hf' | hs, hi⟩
    · exact absurd hf' hf
    · obtain ⟨info, hinfo⟩ := Finmap.mem_iff.mp hs
      exact Or.inr ⟨info, hinfo, by rw [← hkeys hinfo]; exact hi⟩

theorem Sound.unshadowed (h : Sound env w) (hall : ∀ name, ∀ interface ∈ env.interfaceNames,
      (name ∈ w.pluginsImplementing env interface false ↔
        name ∈ w.allPlugins env ∧ interface ∈ w.instanceInterfaces env name))
    (hfrom : FromLibraries env w) : Unshadowed env w := by
  intro name info hinfo
  have hknown : name ∈ w.allPlugins env :=
    mem_allPlugins.mpr (Or.inr (Finmap.mem_of_lookup_eq_some hinfo))
  have hstatic : ∀ {interface}, interface ∈ info.interfaces.keys →
      interface ∈ w.instanceInterfaces env name := by
    intro interface hi
    have hnames := env.statics_interfaces hinfo (Finmap.mem_keys.mp hi)
    exact ((hall name interface hnames).mp
      (h.mem_pluginsImplementing.mpr (Or.inr ⟨info, hinfo, hi⟩))).2
  constructor
  · intro hf interface hi
    rw [← instanceInterfaces_of_file h hf]
    exact hstatic hi
  · intro hf other hin
    have hkeys := instanceInterfaces_of_alias h hf hin
    apply Finset.Subset.antisymm
    · intro interface hi
      rw [← hkeys]
      exact hstatic hi
    · intro interface hi
      obtain ⟨ptr, hptr, hmem⟩ := mem_fileInterfaces.mp hi
      have hnames := hfrom.interfaces hptr hmem
      have hreported := (hall name interface hnames).mpr ⟨hknown, by rw [hkeys]; exact hi⟩
      rcases h.mem_pluginsImplementing.mp hreported with hfile | ⟨info', hinfo', hi'⟩
      · obtain ⟨ptr', hptr', _⟩ := mem_fileInterfaces.mp hfile
        exact absurd (Finmap.mem_of_lookup_eq_some hptr') hf
      · rw [Option.mem_def, hinfo'] at hinfo
        cases hinfo
        exact hi'

theorem Sound.mem_interfacesImplemented (h : Sound env w) (hfrom : FromLibraries env w)
    {U : Set String} (hU : Set.InjOn env.demangle U) (huse : env.interfaceNames ⊆ U)
    (hI : interface ∈ U) : env.demangle interface ∈ w.interfacesImplemented env ↔
      ∃ name, name ∈ w.pluginsImplementing env interface false := by
  have hkey : ∀ {info : Info CodePtr}, (∀ k ∈ info.interfaces, k ∈ env.interfaceNames) →
      (env.demangle interface ∈ info.demangledKeys env.demangle ↔
        interface ∈ info.interfaces) := by
    intro info hinfo
    rw [Info.demangledKeys, Finset.mem_image]
    constructor
    · rintro ⟨k, hk, he⟩
      rw [Finmap.mem_keys] at hk
      rw [← hU (huse (hinfo k hk)) hI he]
      exact hk
    · exact fun hi => ⟨interface, Finmap.mem_keys.mpr hi, rfl⟩
  simp only [interfacesImplemented, Finset.mem_union,
    h.tables.registry.coherent.mem_interfacesImplemented,
    env.statics_wellFormed.coherent.mem_interfacesImplemented, h.mem_pluginsImplementing,
    exists_or, mem_fileInterfaces]
  refine or_congr (exists_congr fun name => ?_) (exists_congr fun name => ?_)
  · simp only [Registry.view_getInfo, Option.map_eq_some_iff]
    constructor
    · rintro ⟨_, ⟨ptr, hptr, rfl⟩, hi⟩
      rw [h.tables.demangled hptr, hkey fun k hk => hfrom.interfaces hptr hk] at hi
      exact ⟨ptr, hptr, hi⟩
    · rintro ⟨ptr, hptr, hi⟩
      refine ⟨ptr.info, ⟨ptr, hptr, rfl⟩, ?_⟩
      rw [h.tables.demangled hptr, hkey fun k hk => hfrom.interfaces hptr hk]
      exact hi
  · refine exists_congr fun info => and_congr_right fun hinfo => ?_
    rw [env.statics_wellFormed.demangled hinfo,
      hkey fun k hk => env.statics_interfaces hinfo hk, Finmap.mem_keys]

theorem Sound.mapped_iff (h : Sound env w) :
    (∀ name ∈ w.allPlugins env, w.InstantiatesMapped env name) ↔ w.RegistryMapped := by
  constructor
  · intro hmaps name ptr hptr
    have hm : name ∈ w.allPlugins env :=
      mem_allPlugins.mpr (Or.inl (Finmap.mem_of_lookup_eq_some hptr))
    exact (resolvesMapped_iff_of_registered hptr).mp
      (h.instantiatesMapped_iff.mp (hmaps name hm))
  · exact fun hmaps name _ => h.instantiatesMapped_iff.mpr (hmaps.resolves name)

/-- In every reachable state discovery agrees with instantiation exactly if no static plugin
is shadowed by a file plugin that lacks one of its interfaces, and the library of every file
plugin is still open. It always is as long as every library that is loaded owns the registered
plugins of the names it brings. -/
theorem discovers_iff (env : Env) (hcast : ∀ f p, p ≠ 0 → env.cast f p ≠ 0) {U : Set String}
    (hU : Set.InjOn env.demangle U) (huse : env.interfaceNames ⊆ U) {w : World}
    (hw : Reachable (step env) init w) :
    Discovers env w U ↔ Unshadowed env w ∧ w.RegistryMapped := by
  have h := reachable_sound hw
  have hfrom := reachable_fromLibraries hw
  constructor
  · intro hd
    refine ⟨h.unshadowed ?_ hfrom, h.mapped_iff.mp hd.mapped⟩
    intro name interface hi
    rw [hd.implementing interface (huse hi) name 1 Nat.one_ne_zero,
      h.query_iff hcast Nat.one_ne_zero]
  · rintro ⟨hu, hmaps⟩
    refine ⟨?_, ?_, h.mapped_iff.mpr hmaps⟩
    · intro interface _ name i hi
      rw [h.query_iff hcast hi, h.implementing_iff hu name]
    · intro interface hI i hi
      rw [h.mem_interfacesImplemented hfrom hU huse hI]
      refine exists_congr fun name => ?_
      rw [h.query_iff hcast hi, h.implementing_iff hu name]

/-- A library and the program itself register the plugin "p" with different interfaces. -/
def shadowedPlugin : Env :=
  twoLibraries (registrationsOf "p" p_ne ["I"] []) []
    (registrationsOf "p" p_ne ["J"] [])

def loadShadowing : List Op :=
  [.loadLib "a" false ⟨some 1, false⟩ [pluginOf "p" p_ne ["I"] []]]

/-- The library's plugin "p" has the interface of the static one too. -/
def coveredPlugin : Env :=
  twoLibraries (registrationsOf "p" p_ne ["I", "J"] []) []
    (registrationsOf "p" p_ne ["J"] [])

def loadCovering : List Op :=
  [.loadLib "a" false ⟨some 1, false⟩ [pluginOf "p" p_ne ["I", "J"] []]]

theorem discovers_loadCovering : Discovers coveredPlugin
    (last init (history (step coveredPlugin) init loadCovering)) Set.univ := by
  have hrun := history_run (step coveredPlugin) init loadCovering
  have hmatched := (matched_of_loadsOwnNames coveredPlugin hrun (by decide)).last
  refine (discovers_iff coveredPlugin (fun _ _ hp => hp) (fun _ _ _ _ h => h)
    (Set.subset_univ _) ⟨_, hrun, rfl⟩).mpr ⟨?_, hmatched.2.registered_maps hmatched.1⟩
  have hkeys : coveredPlugin.statics.infos.keys = {"p"} := by decide
  intro name info hinfo
  have hname : name ∈ coveredPlugin.statics.infos.keys :=
    Finmap.mem_keys.mpr (Finmap.mem_of_lookup_eq_some hinfo)
  rw [hkeys, Finset.mem_singleton] at hname
  subst hname
  constructor
  · intro _
    revert info
    decide
  · intro hfile
    exact absurd (by decide) hfile

/-- The plugin is reported for "J", but an instance of it has no such interface. -/
theorem not_discovers_loadShadowing :
    ¬ ∀ w, Reachable (step shadowedPlugin) init w → Discovers shadowedPlugin w Set.univ := by
  intro h
  have hd := h _ ⟨_, history_run (step shadowedPlugin) init loadShadowing, rfl⟩
  have hj := (hd.implementing "J" (Set.mem_univ _) "p" 1 Nat.one_ne_zero).mp (by decide)
  exact absurd hj.2 (by decide)

end World

end GzPlugin
