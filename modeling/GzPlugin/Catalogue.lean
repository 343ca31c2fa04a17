import GzPlugin.Resolution

/-!
# The Loader as a catalogue of loaded libraries

The abstract Loader is the set of the libraries that are loaded; every query is a set
defined by the `Info`s of these libraries. The Loader refines it when different plugins
have different names.
-/

namespace GzPlugin

open FiniteMaps Runs

set_option autoImplicit false

/-- A set of plugins, and what can be asked about it. -/
abbrev Catalogue := Set (Info Symbol)

namespace Catalogue

def allPlugins (c : Catalogue) : Set String := {name | ∃ i ∈ c, i.name = name}

def interfacesImplemented (c : Catalogue) : Set String :=
  {interface | ∃ i ∈ c, interface ∈ i.demangledInterfaces}

def pluginsImplementing (c : Catalogue) (interface : String) (demangled : Bool) : Set String :=
  {name | ∃ i ∈ c, i.name = name ∧
    if demangled then interface ∈ i.demangledInterfaces else interface ∈ i.interfaces}

def pluginsWithAlias (c : Catalogue) (a : String) : Set String :=
  {name | ∃ i ∈ c, i.name = name ∧ (a ∈ i.aliases ∨ name = a)}

def aliasesOfPlugin (c : Catalogue) (name : String) : Set String :=
  {a | ∃ i ∈ c, i.name = name ∧ a ∈ i.aliases}

open Classical in
/-- A plugin name stands for itself, an alias for the only plugin that has it. -/
noncomputable def lookupPlugin (c : Catalogue) (s : String) : String :=
  if s ∈ c.allPlugins then s
  else if h : ∃ name, c.pluginsWithAlias s = {name} then h.choose
  else ""

theorem lookupPlugin_of_mem {c : Catalogue} {s : String} (h : s ∈ c.allPlugins) :
    c.lookupPlugin s = s := if_pos h

theorem lookupPlugin_of_unique {c : Catalogue} {s name : String} (h : s ∉ c.allPlugins)
    (hone : c.pluginsWithAlias s = {name}) : c.lookupPlugin s = name := by
  have hex : ∃ name, c.pluginsWithAlias s = {name} := ⟨name, hone⟩
  rw [lookupPlugin, if_neg h, dif_pos hex]
  exact (Set.singleton_eq_singleton_iff.mp (hone.symm.trans hex.choose_spec)).symm

theorem lookupPlugin_of_not_unique {c : Catalogue} {s : String} (h : s ∉ c.allPlugins)
    (hnot : ∀ name, c.pluginsWithAlias s ≠ {name}) : c.lookupPlugin s = "" := by
  rw [lookupPlugin, if_neg h, dif_neg]
  rintro ⟨name, hone⟩
  exact hnot name hone

end Catalogue

namespace Env

variable (env : Env)

/-- A plugin as the users of the Loader see it, with demangled names. -/
def demangled (info : Info Symbol) : Info Symbol :=
  { info with
    name := env.demangle info.name
    demangledInterfaces := info.demangledKeys env.demangle }

/-- The plugins of a set of libraries. -/
def catalogue (loaded : Set LibId) : Catalogue :=
  {info | ∃ lib ∈ loaded, ∃ key i, (env.allInfo lib).lookup key = some i ∧
    info = env.demangled i}

/-- The demangled plugin names of different libraries are different, and so are those of
the plugins in one library. -/
structure DistinctPlugins : Prop where
  between : ∀ lib lib', lib ≠ lib' → Disjoint (env.pluginNames lib) (env.pluginNames lib')
  within : ∀ lib, Set.InjOn env.demangle (env.allInfo lib).keys

variable {env}

theorem DistinctPlugins.lib_eq (h : env.DistinctPlugins) {lib lib' : LibId} {name : String}
    (hn : name ∈ env.pluginNames lib) (hn' : name ∈ env.pluginNames lib') : lib = lib' := by
  by_contra hne
  exact Finset.disjoint_left.mp (h.between lib lib' hne) hn hn'

theorem DistinctPlugins.info_eq (h : env.DistinctPlugins) {lib lib' : LibId}
    {key key' : String} {i i' : Info Symbol} (hi : (env.allInfo lib).lookup key = some i)
    (hi' : (env.allInfo lib').lookup key' = some i')
    (he : env.demangle i.name = env.demangle i'.name) : i = i' := by
  have hlib : lib = lib' :=
    h.lib_eq (mem_pluginNames.mpr ⟨key, i, hi, rfl⟩) (mem_pluginNames.mpr ⟨key', i', hi', he.symm⟩)
  subst hlib
  have hkey : key = key' := by
    apply h.within lib (Finmap.mem_keys.mpr (Finmap.mem_of_lookup_eq_some hi))
      (Finmap.mem_keys.mpr (Finmap.mem_of_lookup_eq_some hi'))
    rw [← (env.allInfo_keyed lib key i hi).1, ← (env.allInfo_keyed lib key' i' hi').1]
    exact he
  rw [hkey, hi'] at hi
  exact (Option.some.inj hi).symm

end Env

/-- The two `Info`s differ at most in their functions. -/
structure SameData (i : Info Symbol) (info : Info CodePtr) : Prop where
  name : i.name = info.name
  aliases : i.aliases = info.aliases
  interfaces : ∀ interface, interface ∈ i.interfaces ↔ interface ∈ info.interfaces
  demangledInterfaces : i.demangledInterfaces = info.demangledInterfaces

theorem Env.demangled_sameData (env : Env) {lib : LibId} {key : String} {i : Info Symbol}
    (h : (env.allInfo lib).lookup key = some i) (image : Image) :
    SameData (env.demangled i) (env.stored image i) where
  name := rfl
  aliases := rfl
  interfaces _ := mem_mapValues.symm
  demangledInterfaces := by
    have hempty : (i.mapCode (CodePtr.mk image)).demangledInterfaces = ∅ :=
      (env.allInfo_keyed lib key i h).2.demangled
    rw [Env.stored, World.finishInfo, hempty, Finset.empty_union, Info.demangledKeys,
      Info.mapCode, keys_mapValues]
    rfl

namespace World

variable {env : Env} {w w' : World} {loaded loaded' : Set LibId}

/-- Every query has the value that the catalogue gives. -/
structure Agrees (env : Env) (w : World) (c : Catalogue) : Prop where
  allPlugins : (w.allPlugins env : Set String) = c.allPlugins
  interfacesImplemented : (w.interfacesImplemented env : Set String) = c.interfacesImplemented
  pluginsImplementing : ∀ interface demangled,
    (w.pluginsImplementing env interface demangled : Set String) =
      c.pluginsImplementing interface demangled
  pluginsWithAlias : ∀ a, (w.pluginsWithAlias env a : Set String) = c.pluginsWithAlias a
  aliasesOfPlugin : ∀ name, (w.aliasesOfPlugin env name : Set String) = c.aliasesOfPlugin name
  lookupPlugin : ∀ s, w.lookupPlugin env s = c.lookupPlugin s

/-- The abstract Loader: what an operation does to the set of loaded libraries. The failure
of `dlopen` is the only thing it has to be told. -/
noncomputable def catalogueAfter (env : Env) (_ : World) (loaded : Set LibId) :
    Op → Set LibId
  | .loadLib path noDelete res infos =>
    match (Op.loadLib path noDelete res infos).loads env with
    | none => loaded
    | some lib => insert lib loaded
  | .forgetLibrary path _ _ => {lib ∈ loaded | env.resolve path ≠ some lib}
  | .forgetLibraryOfPlugin s _ =>
    {lib ∈ loaded | (env.catalogue loaded).lookupPlugin s ∉ env.pluginNames lib}
  | .destroyLoader _ => ∅
  | _ => loaded

/-- The tables of the Loader are those of the loaded libraries. -/
structure Mirrors (env : Env) (w : World) (loaded : Set LibId) : Prop where
  registered : ∀ {name ptr}, w.impl.filePlugins.plugins.lookup name = some ptr →
    ∃ lib ∈ loaded, ∃ key i image, (env.allInfo lib).lookup key = some i ∧
      env.demangle i.name = name ∧ ptr.info = env.stored image i
  complete : ∀ {lib name}, lib ∈ loaded → name ∈ env.pluginNames lib →
    name ∈ w.impl.filePlugins.plugins
  listed : ∀ {name a}, name ∈ w.impl.filePlugins.aliases.names a →
    ∃ ptr, w.impl.filePlugins.plugins.lookup name = some ptr ∧ a ∈ ptr.info.aliases
  handles : ∀ {name hp}, w.impl.pluginToDlHandlePtrs.lookup name = some hp →
    ∃ lib ∈ loaded, name ∈ env.pluginNames lib ∧ (∃ serial, hp.image = .mapped lib serial) ∧
      w.impl.dlHandleToPluginMap.lookup hp.handle = some (env.pluginNames lib)
  recorded : ∀ {hd names name}, w.impl.dlHandleToPluginMap.lookup hd = some names →
    name ∈ names → ∃ hp, w.impl.pluginToDlHandlePtrs.lookup name = some hp ∧ hp.handle = hd

/-! ### The queries -/

theorem Mirrors.catalogued (h : Mirrors env w loaded) {name : String}
    {ptr : ConstInfoPtr CodePtr} (hptr : w.impl.filePlugins.plugins.lookup name = some ptr) :
    ∃ i ∈ env.catalogue loaded, SameData i ptr.info := by
  obtain ⟨lib, hlib, key, i, image, hi, _, he⟩ := h.registered hptr
  refine ⟨env.demangled i, ⟨lib, hlib, key, i, hi, rfl⟩, ?_⟩
  rw [he]
  exact env.demangled_sameData hi image

theorem Mirrors.stored (h : Mirrors env w loaded) (hd : env.DistinctPlugins) {i : Info Symbol}
    (hi : i ∈ env.catalogue loaded) :
    ∃ ptr, w.impl.filePlugins.plugins.lookup i.name = some ptr ∧ SameData i ptr.info := by
  obtain ⟨lib, hlib, key, j, hj, rfl⟩ := hi
  obtain ⟨ptr, hptr⟩ :=
    Finmap.mem_iff.mp (h.complete hlib (Env.mem_pluginNames.mpr ⟨key, j, hj, rfl⟩))
  refine ⟨ptr, hptr, ?_⟩
  obtain ⟨lib', _, key', j', image, hj', hn, he⟩ := h.registered hptr
  rw [he, hd.info_eq hj' hj hn]
  exact env.demangled_sameData hj image

/-- What is said about the `Info`s in the file registry is what the catalogue says. -/
theorem Mirrors.exists_iff (h : Mirrors env w loaded) (hd : env.DistinctPlugins)
    (hS : Sound env w) {P : Info Symbol → Prop} {Q : Info CodePtr → Prop}
    (hPQ : ∀ i info, SameData i info → (P i ↔ Q info)) (name : String) :
    (∃ info, w.impl.filePlugins.view.getInfo name = some info ∧ Q info) ↔
      ∃ i ∈ env.catalogue loaded, i.name = name ∧ P i := by
  simp only [Registry.view_getInfo, Option.map_eq_some_iff]
  constructor
  · rintro ⟨_, ⟨ptr, hptr, rfl⟩, hQ⟩
    obtain ⟨i, hi, hsame⟩ := h.catalogued hptr
    exact ⟨i, hi, hsame.name.trans (hS.tables.registry.named hptr), (hPQ i _ hsame).mpr hQ⟩
  · rintro ⟨i, hi, rfl, hP⟩
    obtain ⟨ptr, hptr, hsame⟩ := h.stored hd hi
    exact ⟨ptr.info, ⟨ptr, hptr, rfl⟩, (hPQ i _ hsame).mp hP⟩

theorem Mirrors.mem_allPlugins_iff (h : Mirrors env w loaded) (hd : env.DistinctPlugins)
    (hS : Sound env w) {name : String} :
    name ∈ w.impl.filePlugins.plugins ↔ name ∈ (env.catalogue loaded).allPlugins := by
  have hiff := h.exists_iff hd hS (P := fun _ => True) (Q := fun _ => True)
    (fun _ _ _ => Iff.rfl) name
  simp only [and_true] at hiff
  rw [← Finmap.lookup_isSome]
  refine Iff.trans ?_ hiff
  rw [Registry.view_getInfo]
  simp [Option.isSome_iff_exists]

theorem Mirrors.mem_names_iff (h : Mirrors env w loaded) (hd : env.DistinctPlugins)
    (hS : Sound env w) {name a : String} : name ∈ w.impl.filePlugins.aliases.names a ↔
      ∃ i ∈ env.catalogue loaded, i.name = name ∧ a ∈ i.aliases := by
  rw [← h.exists_iff hd hS (P := fun i => a ∈ i.aliases) (Q := fun info => a ∈ info.aliases)
    fun i info hs => by rw [hs.aliases]]
  constructor
  · intro hn
    obtain ⟨ptr, hptr, ha⟩ := h.listed hn
    exact ⟨ptr.info, by rw [Registry.view_getInfo, hptr]; rfl, ha⟩
  · rintro ⟨_, hinfo, ha⟩
    rw [Registry.view_getInfo, Option.map_eq_some_iff] at hinfo
    obtain ⟨ptr, hptr, rfl⟩ := hinfo
    exact hS.tables.registry.listed hptr ha

theorem Mirrors.mem_pluginsWithAlias_iff (h : Mirrors env w loaded) (hd : env.DistinctPlugins)
    (hS : Sound env w) {name a : String} :
    name ∈ w.impl.filePlugins.view.pluginsWithAlias a ↔
      name ∈ (env.catalogue loaded).pluginsWithAlias a := by
  rw [RegistryView.mem_pluginsWithAlias, Registry.view_aliases, h.mem_names_iff hd hS,
    Registry.view_getInfo, Option.isSome_map, Finmap.lookup_isSome,
    h.mem_allPlugins_iff hd hS]
  constructor
  · rintro (⟨i, hi, hn, ha⟩ | ⟨rfl, i, hi, hn⟩)
    · exact ⟨i, hi, hn, Or.inl ha⟩
    · exact ⟨i, hi, hn, Or.inr rfl⟩
  · rintro ⟨i, hi, hn, ha | rfl⟩
    · exact Or.inl ⟨i, hi, hn, ha⟩
    · exact Or.inr ⟨rfl, i, hi, hn⟩

theorem Mirrors.lookupFilePlugin_eq (h : Mirrors env w loaded) (hd : env.DistinctPlugins)
    (hS : Sound env w) (s : String) :
    w.lookupFilePlugin s = (env.catalogue loaded).lookupPlugin s := by
  by_cases hf : s ∈ w.impl.filePlugins.plugins
  · rw [lookupFilePlugin_of_registered hf,
      Catalogue.lookupPlugin_of_mem ((h.mem_allPlugins_iff hd hS).mp hf)]
  have hc : s ∉ (env.catalogue loaded).allPlugins :=
    fun hm => hf ((h.mem_allPlugins_iff hd hS).mpr hm)
  have hnames : (w.impl.filePlugins.aliases.names s : Set String) =
      (env.catalogue loaded).pluginsWithAlias s := by
    ext name
    rw [← h.mem_pluginsWithAlias_iff hd hS, RegistryView.mem_pluginsWithAlias,
      Registry.view_aliases, file_getInfo_none hf]
    simp
  rw [lookupFilePlugin_of_unknown hf]
  split
  · rename_i hcard
    obtain ⟨name, hname⟩ := Finset.card_eq_one.mp hcard
    rw [hname, firstName_singleton, Catalogue.lookupPlugin_of_unique hc]
    rw [← hnames, hname, Finset.coe_singleton]
  · rename_i hcard
    rw [Catalogue.lookupPlugin_of_not_unique hc]
    intro name hname
    apply hcard
    rw [Finset.card_eq_one]
    refine ⟨name, Finset.coe_injective ?_⟩
    rw [hnames, hname, Finset.coe_singleton]

theorem Mirrors.agrees (h : Mirrors env w loaded) (hd : env.DistinctPlugins)
    (hS : Sound env w) (hstat : env.staticInfos = []) : Agrees env w (env.catalogue loaded) := by
  have hst := Env.statics_of_nil hstat
  have hco := hS.tables.registry.coherent
  constructor
  · ext name
    rw [Finset.mem_coe, mem_allPlugins, hst, ← h.mem_allPlugins_iff hd hS]
    exact or_iff_left Finmap.notMem_empty
  · ext interface
    rw [Finset.mem_coe, World.interfacesImplemented, hst, Finset.mem_union,
      hco.mem_interfacesImplemented]
    have hiff := h.exists_iff hd hS (P := fun i => interface ∈ i.demangledInterfaces)
      (Q := fun info => interface ∈ info.demangledInterfaces)
      fun i info hs => by rw [hs.demangledInterfaces]
    simp only [hiff]
    constructor
    · rintro (⟨name, i, hi, _, hmem⟩ | hmem)
      · exact ⟨i, hi, hmem⟩
      · exact absurd hmem (Finset.notMem_empty interface)
    · rintro ⟨i, hi, hmem⟩
      exact Or.inl ⟨i.name, i, hi, rfl, hmem⟩
  · intro interface demangled
    ext name
    rw [Finset.mem_coe, World.pluginsImplementing, hst, Finset.mem_union,
      hco.mem_pluginsImplementing]
    rw [h.exists_iff hd hS
      (P := fun i => if demangled then interface ∈ i.demangledInterfaces
        else interface ∈ i.interfaces)
      (Q := fun info => RegistryView.provides info interface demangled = true)]
    · exact or_iff_left (Finset.notMem_empty name)
    · intro i info hs
      cases demangled
      · simp [RegistryView.provides, hs.interfaces]
      · simp [RegistryView.provides, hs.demangledInterfaces]
  · intro a
    ext name
    rw [Finset.mem_coe, World.pluginsWithAlias, hst, Finset.mem_union,
      h.mem_pluginsWithAlias_iff hd hS]
    exact or_iff_left (Finset.notMem_empty name)
  · intro name
    ext a
    rw [Finset.mem_coe, World.aliasesOfPlugin, hst, Finset.mem_union,
      RegistryView.mem_aliasesOfPlugin]
    rw [h.exists_iff hd hS (P := fun i => a ∈ i.aliases) (Q := fun info => a ∈ info.aliases)
      fun i info hs => by rw [hs.aliases]]
    exact or_iff_left (Finset.notMem_empty a)
  · intro s
    have hnone : lookupStaticPlugin env s = "" := by
      rw [lookupStaticPlugin, hst]
      rfl
    rw [← h.lookupFilePlugin_eq hd hS]
    by_cases hne : w.lookupFilePlugin s = ""
    · rw [lookupPlugin_of_not_file hne, hnone, hne]
    · exact lookupPlugin_of_file hne

/-! ### Steps -/

theorem mirrors_empty (himpl : w.impl = .empty) : Mirrors env w ∅ where
  registered h := by simp [himpl, Implementation.empty, Registry.empty] at h
  complete h := absurd h (Set.notMem_empty _)
  listed h := by simp [himpl, Implementation.empty, Registry.empty, AliasMap.names] at h
  handles h := by simp [himpl, Implementation.empty] at h
  recorded h := by simp [himpl, Implementation.empty] at h

theorem Mirrors.addLibrary (h : Mirrors env w loaded) (hd : env.DistinctPlugins) {lib : LibId}
    {hp : DlHandlePtr} {infos : List (Info Symbol)} (hl : Loaded env w lib hp infos w') :
    Mirrors env w' (insert lib loaded) := by
  obtain ⟨serial, himage⟩ := hl.image
  have hnames : ∀ {name}, (∃ i ∈ infos, env.demangle i.name = name) ↔
      name ∈ env.pluginNames lib := (mem_pluginNames hl.enumerates).symm
  have hregistered : ∀ {name ptr}, w'.impl.filePlugins.plugins.lookup name = some ptr →
      ∃ lib' ∈ insert lib loaded, ∃ key i image, (env.allInfo lib').lookup key = some i ∧
        env.demangle i.name = name ∧ ptr.info = env.stored image i := by
    intro name ptr hptr
    rcases hl.added.stored hptr with hold | ⟨_, i, hi, hn, he⟩
    · obtain ⟨lib', hlib', hrest⟩ := h.registered hold
      exact ⟨lib', Set.mem_insert_of_mem lib hlib', hrest⟩
    · obtain ⟨key, hkey⟩ := (hl.enumerates.mem_iff i).mp hi
      exact ⟨lib, Set.mem_insert lib loaded, key, i, hp.image, hkey, hn, he⟩
  have hcomplete : ∀ {lib' name}, lib' ∈ insert lib loaded → name ∈ env.pluginNames lib' →
      name ∈ w'.impl.filePlugins.plugins := by
    intro lib' name hlib' hname
    rw [hl.added.known]
    rcases hlib' with rfl | hlib'
    · exact Or.inr (hnames.mpr hname)
    · exact Or.inl (h.complete hlib' hname)
  refine ⟨hregistered, hcomplete, ?_, ?_, ?_⟩
  · intro name a hn
    rcases hl.added.listed.mp hn with hold | ⟨i, hi, ha, he⟩
    · obtain ⟨ptr, hptr, ha⟩ := h.listed hold
      exact ⟨ptr, hl.added.kept hptr, ha⟩
    · obtain ⟨ptr, hptr⟩ := Finmap.mem_iff.mp
        (hcomplete (Set.mem_insert lib loaded) (hnames.mp ⟨i, hi, he⟩))
      obtain ⟨lib', _, key, j, image, hj, hn', hinfo⟩ := hregistered hptr
      obtain ⟨key', hi⟩ := (hl.enumerates.mem_iff i).mp hi
      refine ⟨ptr, hptr, ?_⟩
      rw [hinfo, hd.info_eq hj hi (hn'.trans he.symm)]
      exact ha
  · intro name hp' hhp'
    rw [hl.added.handles] at hhp'
    rw [hl.recorded, lookup_insert_eq]
    split at hhp'
    · rename_i hmem
      cases hhp'
      rw [if_pos rfl]
      exact ⟨lib, Set.mem_insert lib loaded, hnames.mp hmem, hl.image, rfl⟩
    · obtain ⟨lib', hlib', hname, himage', hrec⟩ := h.handles hhp'
      refine ⟨lib', Set.mem_insert_of_mem lib hlib', hname, himage', ?_⟩
      split
      · rename_i he
        have hsame := hl.unique (held_of_handle hhp') he
        obtain ⟨serial', himage'⟩ := himage'
        rw [hsame, himage] at himage'
        cases himage'
        rfl
      · exact hrec
  · intro hd' names name hrec hname
    rw [hl.recorded, lookup_insert_eq] at hrec
    rw [hl.added.handles]
    split at hrec
    · rename_i he
      cases hrec
      rw [if_pos (hnames.mpr hname)]
      exact ⟨hp, rfl, he.symm⟩
    · rename_i hne
      obtain ⟨hp', hhp', hhd⟩ := h.recorded hrec hname
      split
      · rename_i hmem
        obtain ⟨lib', _, hname', ⟨serial', himage'⟩, _⟩ := h.handles hhp'
        have hlib : lib' = lib := hd.lib_eq hname' (hnames.mp hmem)
        subst hlib
        rw [hl.reuses (held_of_handle hhp') himage'] at hhd
        exact absurd hhd.symm hne
      · exact ⟨hp', hhp', hhd⟩

/-- Forgetting keeps the mirror if it removes the names of the libraries that go, and no
name of a library that stays. -/
theorem Mirrors.dropNames (h : Mirrors env w loaded) {hd : Handle} {names : Finset String}
    (hf : Forgot w hd names w') (hsub : loaded' ⊆ loaded)
    (hgone : ∀ lib ∈ loaded, lib ∉ loaded' → env.pluginNames lib ⊆ names)
    (hstay : ∀ lib ∈ loaded', Disjoint (env.pluginNames lib) names) :
    Mirrors env w' loaded' := by
  have hplugins : ∀ {name ptr}, w'.impl.filePlugins.plugins.lookup name = some ptr ↔
      name ∉ names ∧ w.impl.filePlugins.plugins.lookup name = some ptr := by
    intro name ptr
    rw [hf.removed.plugins]
    by_cases hn : name ∈ names <;> simp [hn]
  have hhandles : ∀ {name hp}, w'.impl.pluginToDlHandlePtrs.lookup name = some hp ↔
      name ∉ names ∧ w.impl.pluginToDlHandlePtrs.lookup name = some hp := by
    intro name hp
    rw [hf.removed.handles]
    by_cases hn : name ∈ names <;> simp [hn]
  have hstays : ∀ {lib name}, lib ∈ loaded → name ∈ env.pluginNames lib → name ∉ names →
      lib ∈ loaded' := by
    intro lib name hlib hname hn
    by_contra hnot
    exact hn (hgone lib hlib hnot hname)
  constructor
  · intro name ptr hptr
    obtain ⟨hn, hptr⟩ := hplugins.mp hptr
    obtain ⟨lib, hlib, key, i, image, hi, he, hinfo⟩ := h.registered hptr
    exact ⟨lib, hstays hlib (Env.mem_pluginNames.mpr ⟨key, i, hi, he⟩) hn, key, i, image, hi, he,
      hinfo⟩
  · intro lib name hlib hname
    obtain ⟨ptr, hptr⟩ := Finmap.mem_iff.mp (h.complete (hsub hlib) hname)
    have hn : name ∉ names := Finset.disjoint_left.mp (hstay lib hlib) hname
    exact Finmap.mem_of_lookup_eq_some (hplugins.mpr ⟨hn, hptr⟩)
  · intro name a hm
    obtain ⟨hold, hnot⟩ := hf.removed.listed.mp hm
    obtain ⟨ptr, hptr, ha⟩ := h.listed hold
    have hn : name ∉ names := fun hn => hnot ⟨hn, ptr, hptr, ha⟩
    exact ⟨ptr, hplugins.mpr ⟨hn, hptr⟩, ha⟩
  · intro name hp hhp
    obtain ⟨hn, hhp⟩ := hhandles.mp hhp
    obtain ⟨lib, hlib, hname, himage, hrec⟩ := h.handles hhp
    refine ⟨lib, hstays hlib hname hn, hname, himage, ?_⟩
    rw [hf.recorded, lookup_erase_eq, if_neg]
    · exact hrec
    · rintro rfl
      rw [hf.known] at hrec
      cases hrec
      exact hn hname
  · intro hd' names' name hrec hname
    rw [hf.recorded, lookup_erase_eq] at hrec
    split at hrec
    · cases hrec
    · rename_i hne
      obtain ⟨hp, hhp, he⟩ := h.recorded hrec hname
      refine ⟨hp, hhandles.mpr ⟨?_, hhp⟩, he⟩
      intro hn
      obtain ⟨hp', hhp', he'⟩ := h.recorded hf.known hn
      rw [hhp] at hhp'
      cases hhp'
      exact hne (he.symm.trans he')

theorem Mirrors.of_impl_eq (h : Mirrors env w loaded) (himpl : w'.impl = w.impl)
    (hsub : loaded' ⊆ loaded)
    (hgone : ∀ lib ∈ loaded, lib ∉ loaded' → env.pluginNames lib = ∅) :
    Mirrors env w' loaded' := by
  have hstays : ∀ {lib name}, lib ∈ loaded → name ∈ env.pluginNames lib → lib ∈ loaded' := by
    intro lib name hlib hname
    by_contra hnot
    rw [hgone lib hlib hnot] at hname
    exact Finset.notMem_empty name hname
  constructor
  · intro name ptr hptr
    rw [himpl] at hptr
    obtain ⟨lib, hlib, key, i, image, hi, he, hinfo⟩ := h.registered hptr
    exact ⟨lib, hstays hlib (Env.mem_pluginNames.mpr ⟨key, i, hi, he⟩), key, i, image, hi, he,
      hinfo⟩
  · intro lib name hlib hname
    rw [himpl]
    exact h.complete (hsub hlib) hname
  · rw [himpl]
    exact h.listed
  · intro name hp hhp
    rw [himpl] at hhp ⊢
    obtain ⟨lib, hlib, hname, hrest⟩ := h.handles hhp
    exact ⟨lib, hstays hlib hname, hname, hrest⟩
  · rw [himpl]
    exact h.recorded

theorem Mirrors.handle_of_name (h : Mirrors env w loaded) (hd : env.DistinctPlugins)
    (hS : Sound env w) {lib : LibId} {name : String} (hlib : lib ∈ loaded)
    (hname : name ∈ env.pluginNames lib) :
    ∃ hp m, w.impl.pluginToDlHandlePtrs.lookup name = some hp ∧
      w.dl.lookup hp.handle = some m ∧ m.lib = lib ∧
      w.impl.dlHandleToPluginMap.lookup hp.handle = some (env.pluginNames lib) := by
  obtain ⟨hp, hhp⟩ := Finmap.mem_iff.mp (hS.tables.keys.mp (h.complete hlib hname))
  obtain ⟨lib', _, hname', ⟨serial, himage⟩, hrec⟩ := h.handles hhp
  have hsame := hd.lib_eq hname' hname
  subst hsame
  obtain ⟨m, hm, hi, _⟩ := hS.linked.mapped (held_of_handle hhp)
  obtain ⟨n, hn⟩ := hS.linked.ordered.image hm
  refine ⟨hp, m, hhp, hm, ?_, hrec⟩
  rw [hi, himage] at hn
  cases hn
  rfl

theorem Mirrors.forgetLibrary (h : Mirrors env w loaded) (hd : env.DistinctPlugins)
    (hS : Sound env w) {path : String} {res : Option Handle} {order : List String}
    (hr : w.NoLoadMayReturn env path res)
    (heff : Effect env w (.forgetLibrary path res order) w') :
    Mirrors env w' {lib ∈ loaded | env.resolve path ≠ some lib} := by
  have hlib_of : ∀ {lib}, lib ∈ loaded → lib ∉ {lib ∈ loaded | env.resolve path ≠ some lib} →
      env.resolve path = some lib := by
    intro lib hlib hnot
    by_contra hne
    exact hnot ⟨hlib, hne⟩
  -- A loaded library with plugins is open, so `dlopen` returns the handle stored for them.
  have hreturned : ∀ {lib name}, lib ∈ loaded → env.resolve path = some lib →
      name ∈ env.pluginNames lib → ∃ hd, res = some hd ∧
        w.impl.dlHandleToPluginMap.lookup hd = some (env.pluginNames lib) := by
    intro lib name hlib hpath hname
    obtain ⟨hp, m, _, hm, hml, hrec⟩ := h.handle_of_name hd hS hlib hname
    simp only [NoLoadMayReturn, hpath] at hr
    cases res with
    | none => exact absurd ⟨_, m, hm, hml⟩ hr
    | some hd' =>
      obtain ⟨m', hm', hml'⟩ := hr
      have hsame := hS.linked.ordered.handle hm hm' (hml.trans hml'.symm)
      exact ⟨hd', rfl, hsame ▸ hrec⟩
  cases heff with
  | loaded lib hp infos hop _ => cases hop
  | forgot hd' names hop hf =>
    cases hop
    refine h.dropNames hf (fun lib hlib => hlib.1) ?_ ?_
    · intro lib hlib hnot name hname
      obtain ⟨_, he, hrec⟩ := hreturned hlib (hlib_of hlib hnot) hname
      cases he
      rw [hf.known] at hrec
      cases hrec
      exact hname
    · rintro lib ⟨hlib, hne⟩
      rw [Finset.disjoint_left]
      intro name hname hn
      obtain ⟨hp, m, hhp, hm, hml, _⟩ := h.handle_of_name hd hS hlib hname
      obtain ⟨hp', hhp', he⟩ := h.recorded hf.known hn
      rw [hhp] at hhp'
      cases hhp'
      cases hpath : env.resolve path with
      | none => simp [NoLoadMayReturn, hpath] at hr
      | some lib' =>
        simp only [NoLoadMayReturn, hpath] at hr
        obtain ⟨m', hm', hml'⟩ := hr
        rw [he, hm'] at hm
        cases hm
        exact hne (by rw [hpath, ← hml', hml])
  | kept _ hforget hq =>
    refine h.of_impl_eq hq.impl (fun lib hlib => hlib.1) ?_
    intro lib hlib hnot
    rw [Finset.eq_empty_iff_forall_notMem]
    intro name hname
    obtain ⟨hd', rfl, hrec⟩ := hreturned hlib (hlib_of hlib hnot) hname
    simp [forgottenNames, forgottenHandle, hrec] at hforget

theorem Mirrors.forgetLibraryOfPlugin (h : Mirrors env w loaded) (hd : env.DistinctPlugins)
    (hS : Sound env w) (hstat : env.staticInfos = []) {s : String} {order : List String}
    (heff : Effect env w (.forgetLibraryOfPlugin s order) w') :
    Mirrors env w'
      {lib ∈ loaded | (env.catalogue loaded).lookupPlugin s ∉ env.pluginNames lib} := by
  rw [← (h.agrees hd hS hstat).lookupPlugin]
  have hname_of : ∀ {lib}, lib ∈ loaded →
      lib ∉ {lib ∈ loaded | w.lookupPlugin env s ∉ env.pluginNames lib} →
      w.lookupPlugin env s ∈ env.pluginNames lib := by
    intro lib hlib hnot
    by_contra hne
    exact hnot ⟨hlib, hne⟩
  cases heff with
  | loaded lib hp infos hop _ => cases hop
  | forgot hd' names hop hf =>
    obtain ⟨hp, hhp, rfl⟩ := Option.map_eq_some_iff.mp hop
    obtain ⟨lib₀, _, hname₀, _, hrec⟩ := h.handles hhp
    rw [hf.known] at hrec
    cases hrec
    refine h.dropNames hf (fun lib hlib => hlib.1) ?_ ?_
    · intro lib hlib hnot
      rw [hd.lib_eq (hname_of hlib hnot) hname₀]
    · rintro lib ⟨_, hne⟩
      apply hd.between
      rintro rfl
      exact hne hname₀
  | kept _ hforget hq =>
    refine h.of_impl_eq hq.impl (fun lib hlib => hlib.1) ?_
    intro lib hlib hnot
    obtain ⟨hp, _, hhp, _, _, hrec⟩ := h.handle_of_name hd hS hlib (hname_of hlib hnot)
    simp [forgottenNames, forgottenHandle, hhp, hrec] at hforget

theorem Mirrors.step (h : Mirrors env w loaded) (hd : env.DistinctPlugins) (hS : Sound env w)
    (hstat : env.staticInfos = []) {op : Op} (hs : step env w op = some w') :
    Mirrors env w' (catalogueAfter env w loaded op) := by
  have heff := (step_sound hS hs).2
  have hsame : w'.impl = w.impl → Mirrors env w' loaded := fun himpl =>
    h.of_impl_eq himpl (Set.Subset.refl loaded) fun lib hlib hnot => absurd hlib hnot
  obtain ⟨hen, rfl⟩ := step_eq_some.mp hs
  cases op with
  | loadLib path noDelete res infos =>
    cases heff with
    | loaded lib hp infos' hop hl =>
      simp only [catalogueAfter, hop]
      exact h.addLibrary hd hl
    | forgot _ _ hop _ => cases hop
    | kept hload _ hq =>
      simp only [catalogueAfter, hload]
      exact hsame hq.impl
  | forgetLibrary path res order => exact h.forgetLibrary hd hS hen.2.1 heff
  | forgetLibraryOfPlugin s order => exact h.forgetLibraryOfPlugin hd hS hstat heff
  | destroyLoader order => exact mirrors_empty (destroyLoader_spec hS.linked hen.2).1
  | _ =>
    cases heff with
    | loaded _ _ _ hop _ => cases hop
    | forgot _ _ hop _ => cases hop
    | kept _ _ hq => exact hsame hq.impl

/-- Refinement: along every run of the Loader, all queries have the values that the `Info`s
of the libraries loaded at that point give, if different plugins have different names and
there are no static plugins. -/
theorem agrees_with_catalogue (env : Env) (hd : env.DistinctPlugins)
    (hstat : env.staticInfos = []) {l : List (Op × (World × Set LibId))}
    (hrun : Run (lockstep (step env) (catalogueAfter env)) (init, ∅) l) :
    States (fun st => Agrees env st.1 (env.catalogue st.2)) (init, ∅) l := by
  have hstates : States (fun st => Sound env st.1 ∧ Mirrors env st.1 st.2) (init, ∅) l := by
    refine hrun.states_of_step ⟨init_sound env, mirrors_empty rfl⟩ ?_
    rintro ⟨w, loaded⟩ op ⟨w', loaded'⟩ ⟨hS, hm⟩ hs
    obtain ⟨hs, rfl⟩ := lockstep_eq_some.mp hs
    exact ⟨(step_sound hS hs).1, hm.step hd hS hstat hs⟩
  exact hstates.imp fun st h => h.2.agrees hd h.1 hstat

/-- Two libraries that export different plugins under one alias. -/
def commonAlias : Env :=
  twoLibraries (registrationsOf "p" p_ne ["I"] ["x"])
    (registrationsOf "q" q_ne ["I"] ["x"]) []

theorem commonAlias_distinct : commonAlias.DistinctPlugins where
  between := by
    have h0 : commonAlias.pluginNames 0 = {"p"} := by decide
    have h1 : commonAlias.pluginNames 1 = {"q"} := by decide
    have h2 : ∀ n, commonAlias.pluginNames (n + 2) = ∅ := fun n => rfl
    rintro (_ | _ | lib) (_ | _ | lib') hne <;> simp [h0, h1, h2] at hne ⊢
  within _ := Function.injective_id.injOn

/-- Load both libraries and forget the first one, whereupon the alias is unique again. -/
def loadTwoForgetOne : List Op :=
  [.loadLib "a" false ⟨some 1, false⟩ [pluginOf "p" p_ne ["I"] ["x"]],
    .loadLib "b" false ⟨some 2, false⟩ [pluginOf "q" q_ne ["I"] ["x"]],
    .forgetLibrary "a" (some 1) ["p"]]

theorem agrees_with_catalogue_commonAlias :
    States (fun st => Agrees commonAlias st.1 (commonAlias.catalogue st.2)) (init, ∅)
      (history (lockstep (step commonAlias) (catalogueAfter commonAlias)) (init, ∅)
        loadTwoForgetOne) :=
  agrees_with_catalogue commonAlias commonAlias_distinct rfl
    (history_run _ (init, ∅) loadTwoForgetOne)

end World

end GzPlugin
