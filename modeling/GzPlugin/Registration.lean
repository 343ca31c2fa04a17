import GzPlugin.Effects

/-!
# From registration to loading

The accumulating hook, the handshake, the copy of the map, demangling and the insertion
into the registry, taken together: what a Loader with an empty file registry stores for the
registrations of a library.
-/

namespace GzPlugin

open FiniteMaps Runs

set_option autoImplicit false

theorem mem_registrations {abi : Abi} {infos : List (Info Symbol)} {name : String} :
    name ∈ registrations abi infos ↔ ∃ i ∈ infos, i.name = name := by
  rw [← Finmap.lookup_isSome, registrations_lookup]
  cases hl : named name infos with
  | nil =>
    have hnone : ∀ i ∈ infos, i.name ≠ name := by simpa [named] using hl
    simpa [mergeAll] using hnone
  | cons first later =>
    have hfirst : first ∈ named name infos := by simp [hl]
    have hmem : first ∈ infos ∧ first.name = name := by simpa [named] using hfirst
    exact iff_of_true rfl ⟨first, hmem⟩

/-- The `Info` stored for the registrations `regs` of one class, given in order, with the
code of the library mapped as `image`. -/
structure MergedFrom (env : Env) (image : Image) (regs : List (Info Symbol))
    (info : Info CodePtr) : Prop where
  name : ∀ i ∈ regs, info.name = env.demangle i.name
  interfaces : ∀ interface, interface ∈ info.interfaces ↔ ∃ i ∈ regs, interface ∈ i.interfaces
  aliases : ∀ a, a ∈ info.aliases ↔ ∃ i ∈ regs, a ∈ i.aliases
  demangledInterfaces : info.demangledInterfaces = info.interfaces.keys.image env.demangle
  factory : ∀ first ∈ regs.head?, info.factory = ⟨image, first.factory⟩
  deleter : ∀ first ∈ regs.head?, info.deleter = ⟨image, first.deleter⟩
  cast : ∀ interface, info.interfaces.lookup interface =
    (regs.findSome? fun i => i.interfaces.lookup interface).map (CodePtr.mk image)

/-- The part of an `Info` that does not depend on the order of the registrations. -/
def Info.summary (info : Info CodePtr) :
    String × Finset String × Finset String × Finset String :=
  (info.name, info.aliases, info.interfaces.keys, info.demangledInterfaces)

theorem stored_mergedFrom (env : Env) (image : Image) {name : String}
    {infos : List (Info Symbol)} (hreg : ∀ i ∈ infos, i.Registered) {info : Info Symbol}
    (h : mergeAll (named name infos) = some info) :
    MergedFrom env image (named name infos) (env.stored image info) := by
  have hnamed : ∀ i ∈ named name infos, i ∈ infos ∧ i.name = name := by
    intro i hi
    simpa [named] using hi
  cases hl : named name infos with
  | nil => simp [hl, mergeAll] at h
  | cons first later =>
    rw [hl] at h hnamed
    obtain ⟨hfirst, hname⟩ := hnamed first List.mem_cons_self
    simp only [mergeAll, Option.some.injEq] at h
    subst h
    have hinterfaces : ∀ interface, interface ∈ (later.foldl mergeInfo first).interfaces ↔
        ∃ i ∈ first :: later, interface ∈ i.interfaces := by
      intro interface
      rw [← Finmap.lookup_isSome, foldl_mergeInfo_interfaces, List.findSome?_isSome_iff]
      simp only [Finmap.lookup_isSome]
    constructor
    · intro i hi
      change env.demangle (later.foldl mergeInfo first).name = _
      rw [foldl_mergeInfo_name, hname, (hnamed i hi).2]
    · intro interface
      rw [← hinterfaces]
      exact mem_mapValues
    · intro a
      exact mem_foldl_mergeInfo_aliases later first a
    · have hempty : (later.foldl mergeInfo first).demangledInterfaces = ∅ :=
        (foldl_mergeInfo_demangled later first).trans (hreg first hfirst).demangled
      change (later.foldl mergeInfo first).demangledInterfaces ∪ _ = _
      rw [hempty, Finset.empty_union]
      rfl
    · intro f hf
      cases hf
      change CodePtr.mk image (later.foldl mergeInfo first).factory = _
      rw [foldl_mergeInfo_factory]
    · intro f hf
      cases hf
      change CodePtr.mk image (later.foldl mergeInfo first).deleter = _
      rw [foldl_mergeInfo_deleter]
    · intro interface
      rw [← foldl_mergeInfo_interfaces]
      exact lookup_mapValues _ _ _

theorem mem_named {name : String} {infos : List (Info Symbol)} {i : Info Symbol} :
    i ∈ named name infos ↔ i ∈ infos ∧ i.name = name := by
  simp [named]

theorem summary_eq_of_perm {env : Env} {image image' : Image} {infos infos' : List (Info Symbol)}
    {name : String} {info info' : Info CodePtr}
    (hperm : infos.Perm infos') (hname : ∃ i ∈ infos, i.name = name)
    (h : MergedFrom env image (named name infos) info)
    (h' : MergedFrom env image' (named name infos') info') : info.summary = info'.summary := by
  have hmem : ∀ i, i ∈ named name infos ↔ i ∈ named name infos' := by
    intro i
    rw [mem_named, mem_named, hperm.mem_iff]
  obtain ⟨i, hi, hn⟩ := hname
  have hfirst := mem_named.mpr ⟨hi, hn⟩
  have hkeys : info.interfaces.keys = info'.interfaces.keys := by
    ext k
    rw [Finmap.mem_keys, Finmap.mem_keys, h.interfaces, h'.interfaces]
    simp only [hmem]
  have haliases : info.aliases = info'.aliases := by
    ext a
    rw [h.aliases, h'.aliases]
    simp only [hmem]
  have hnames : info.name = info'.name := by
    rw [h.name i hfirst, h'.name i ((hmem i).mp hfirst)]
  simp only [Info.summary, hnames, haliases, hkeys, h.demangledInterfaces,
    h'.demangledInterfaces]

namespace World

variable {env : Env} {abi : Abi} {regs regs' : List (Registration Symbol)} {w w' : World}

/-- The arguments of a call of `LoadLib`, with the choices of the system. -/
structure LoadCall where
  path : String
  noDelete : Bool
  res : DlopenResult
  loadedPlugins : List (Info Symbol)

/-- The call loads a library, built from the registrations `regs` with the layout `abi`,
into a Loader whose file registry is empty. -/
structure LoadsFresh (env : Env) (abi : Abi) (regs : List (Registration Symbol)) (w : World)
    (call : LoadCall) : Prop where
  library : ∃ lib, env.resolve call.path = some lib ∧
    env.library lib = Library.ofRegistrations abi regs
  reachable : Reachable (step env) init w
  empty : w.impl.filePlugins.plugins = ∅
  enabled : w.Enabled env (.loadLib call.path call.noDelete call.res call.loadedPlugins)
  opened : call.res.handle.isSome ∧ call.res.error = false

def LoadCall.run (env : Env) (w : World) (call : LoadCall) : Finset String × World :=
  w.loadLib env call.path call.noDelete call.res call.loadedPlugins

/-- The call returns the demangled names of the registrations and stores their merged
`Info`s under them, and nothing else. -/
structure StoresMerged (env : Env) (regs : List (Registration Symbol))
    (result : Finset String × World) : Prop where
  returned : result.1 = (regs.map fun r => env.demangle r.info.name).toFinset
  known : ∀ name, name ∈ result.2.impl.filePlugins.plugins ↔ name ∈ result.1
  merged : ∃ image, ∀ r ∈ regs, ∃ ptr,
    result.2.impl.filePlugins.plugins.lookup (env.demangle r.info.name) = some ptr ∧
    MergedFrom env image (named r.info.name (regs.map (·.info))) ptr.info

/-- The names of the registered classes stay different when demangled. -/
def DistinctNames (env : Env) (regs : List (Registration Symbol)) : Prop :=
  ∀ r ∈ regs, ∀ r' ∈ regs,
    env.demangle r.info.name = env.demangle r'.info.name → r.info.name = r'.info.name

theorem mem_registrations_map {name : String} : name ∈ registrations abi (regs.map (·.info)) ↔
    ∃ r ∈ regs, r.info.name = name := by
  simp [mem_registrations]

theorem LoadsFresh.added {call : LoadCall} (h : LoadsFresh env abi regs w call)
    (habi : env.abi = abi) : ∃ lib hp, env.allInfo lib = registrations abi (regs.map (·.info)) ∧
      (call.run env w).1 = env.pluginNames lib ∧
      Loaded env w lib hp call.loadedPlugins (call.run env w).2 := by
  obtain ⟨lib, hpath, hlib⟩ := h.library
  obtain ⟨ha, hr, hvec⟩ := h.enabled
  have hS := reachable_sound h.reachable
  have hall : env.allInfo lib = registrations abi (regs.map (·.info)) := by
    rw [Env.allInfo, hlib, habi]
    exact loadPlugins_agree abi _
  have hloads : (Op.loadLib call.path call.noDelete call.res call.loadedPlugins).loads env =
      some lib := by
    simp only [Op.loads, h.opened, and_self, if_true, hpath]
  rcases loadLib_cases call.noDelete hS.linked ha hr hvec with
    ⟨hnone, _⟩ | ⟨lib', hp, hop, hnames, hl⟩
  · rw [hloads] at hnone
    cases hnone
  · rw [hloads] at hop
    cases hop
    exact ⟨lib, hp, hall, hnames, hl⟩

theorem LoadsFresh.storesMerged {call : LoadCall} (h : LoadsFresh env abi regs w call)
    (habi : env.abi = abi) (hinj : DistinctNames env regs) :
    StoresMerged env regs (call.run env w) := by
  obtain ⟨lib, hp, hall, hnames, hl⟩ := h.added habi
  have hret : (call.run env w).1 = (regs.map fun r => env.demangle r.info.name).toFinset := by
    refine hnames.trans ?_
    ext n
    simp only [Env.pluginNames, hall, Finset.mem_image, Finmap.mem_keys, mem_registrations_map,
      List.mem_toFinset, List.mem_map]
    constructor
    · rintro ⟨_, ⟨i, hi, rfl⟩, rfl⟩
      exact ⟨i, hi, rfl⟩
    · rintro ⟨i, hi, rfl⟩
      exact ⟨i.info.name, ⟨i, hi, rfl⟩, rfl⟩
  have hknown : ∀ name, name ∈ (call.run env w).2.impl.filePlugins.plugins ↔
      name ∈ (call.run env w).1 := by
    intro name
    refine hl.added.known.trans ?_
    rw [h.empty, ← mem_pluginNames hl.enumerates, ← hnames]
    exact or_iff_right Finmap.notMem_empty
  refine ⟨hret, hknown, hp.image, ?_⟩
  intro i hi
  have hmem : env.demangle i.info.name ∈ (call.run env w).2.impl.filePlugins.plugins := by
    rw [hknown, hret, List.mem_toFinset]
    exact List.mem_map.mpr ⟨i, hi, rfl⟩
  obtain ⟨ptr, hptr⟩ := Finmap.mem_iff.mp hmem
  refine ⟨ptr, hptr, ?_⟩
  rcases hl.added.stored hptr with hold | ⟨_, j, hj, hname, he⟩
  · rw [h.empty] at hold
    simp at hold
  · obtain ⟨n, hn⟩ := (hl.enumerates.mem_iff j).mp hj
    have hjn : j.name = n := (env.allInfo_keyed lib n j hn).1
    rw [hall] at hn
    obtain ⟨k, hk, hkn⟩ := mem_registrations_map.mp (Finmap.mem_of_lookup_eq_some hn)
    have hsame : n = i.info.name := by
      rw [← hkn]
      exact hinj k hk i hi (by rw [hkn, ← hjn, hname])
    subst hsame
    rw [registrations_lookup] at hn
    rw [he]
    exact stored_mergedFrom env hp.image (registered_of_map regs) hn

/-- With different layouts on the two sides the hook leaves the output null, and the Loader
returns and stores nothing. -/
theorem LoadsFresh.storesNothing {call : LoadCall} (h : LoadsFresh env abi regs w call)
    (habi : env.abi ≠ abi) : (call.run env w).1 = ∅ ∧ call.loadedPlugins = [] ∧
      (call.run env w).2.impl.filePlugins.plugins = ∅ := by
  obtain ⟨lib, hpath, hlib⟩ := h.library
  obtain ⟨ha, hr, hvec⟩ := h.enabled
  have hS := reachable_sound h.reachable
  have hall : env.allInfo lib = ∅ := by
    rw [Env.allInfo, hlib]
    exact loadPlugins_disagree _ habi
  have hloads : (Op.loadLib call.path call.noDelete call.res call.loadedPlugins).loads env =
      some lib := by
    simp only [Op.loads, h.opened, and_self, if_true, hpath]
  rcases loadLib_cases call.noDelete hS.linked ha hr hvec with
    ⟨hnone, _⟩ | ⟨lib', hp, hop, hnames, hl⟩
  · rw [hloads] at hnone
    cases hnone
  rw [hloads] at hop
  cases hop
  have hpn : env.pluginNames lib = ∅ := by
    rw [Env.pluginNames, hall]
    rfl
  refine ⟨hnames.trans hpn, enumerates_empty (hall ▸ hl.enumerates), ?_⟩
  apply Finmap.ext_lookup
  intro name
  rw [Finmap.lookup_empty, Finmap.lookup_eq_none]
  intro hm
  rcases hl.added.known.mp hm with hold | hnew
  · rw [h.empty] at hold
    exact Finmap.notMem_empty hold
  · rw [← mem_pluginNames hl.enumerates, hpn] at hnew
    exact Finset.notMem_empty name hnew

theorem hook_output_null {abi abi' : Abi} (pluginMap : InfoMap Symbol) (h : abi ≠ abi') :
    (gzPluginHook abi' pluginMap none
      ⟨some none, some abi.version, some abi.size, some abi.alignment⟩).2.outputAllInfo =
      some none := by
  simp only [gzPluginHook, hookOutput]
  rw [if_neg]
  rintro ⟨hv, hs, ha⟩
  apply h
  cases abi
  cases abi'
  simp_all

theorem StoresMerged.summary_eq {result result' : Finset String × World}
    (hperm : regs.Perm regs') (h : StoresMerged env regs result)
    (h' : StoresMerged env regs' result') (name : String) :
    (result.2.impl.filePlugins.plugins.lookup name).map (·.info.summary) =
      (result'.2.impl.filePlugins.plugins.lookup name).map (·.info.summary) := by
  obtain ⟨image, hmerged⟩ := h.merged
  obtain ⟨image', hmerged'⟩ := h'.merged
  by_cases hn : ∃ r ∈ regs, env.demangle r.info.name = name
  · obtain ⟨i, hi, rfl⟩ := hn
    obtain ⟨ptr, hptr, hm⟩ := hmerged i hi
    obtain ⟨ptr', hptr', hm'⟩ := hmerged' i (hperm.mem_iff.mp hi)
    rw [hptr, hptr', Option.map_some, Option.map_some,
      summary_eq_of_perm (hperm.map _) ⟨i.info, List.mem_map.mpr ⟨i, hi, rfl⟩, rfl⟩ hm hm']
  · have hnone : name ∉ result.2.impl.filePlugins.plugins := by
      rw [h.known, h.returned, List.mem_toFinset, List.mem_map]
      exact hn
    have hnone' : name ∉ result'.2.impl.filePlugins.plugins := by
      rw [h'.known, h'.returned, List.mem_toFinset, List.mem_map]
      rintro ⟨i, hi, he⟩
      exact hn ⟨i, hperm.mem_iff.mpr hi, he⟩
    rw [Finmap.lookup_eq_none.mpr hnone, Finmap.lookup_eq_none.mpr hnone']

/-- Registration to loading, end to end: with agreeing layouts `LoadLib` stores exactly the
merged registrations, in a way that depends on their order only through the functions;
with different layouts nothing is read, returned or stored. -/
theorem loadLib_registrations (env : Env) {abi : Abi} {regs : List (Registration Symbol)} {w : World}
    {call : LoadCall} (h : LoadsFresh env abi regs w call) (hinj : DistinctNames env regs) :
    (env.abi = abi → StoresMerged env regs (call.run env w) ∧
      ∀ regs' w' call', regs.Perm regs' → LoadsFresh env abi regs' w' call' →
        (call'.run env w').1 = (call.run env w).1 ∧
        ∀ name, ((call'.run env w').2.impl.filePlugins.plugins.lookup name).map
            (·.info.summary) =
          ((call.run env w).2.impl.filePlugins.plugins.lookup name).map (·.info.summary)) ∧
    (env.abi ≠ abi → (call.run env w).1 = ∅ ∧ call.loadedPlugins = [] ∧
      (call.run env w).2.impl.filePlugins.plugins = ∅ ∧
      (gzPluginHook abi (registrations abi (regs.map (·.info))) none ⟨some none, some env.abi.version,
        some env.abi.size, some env.abi.alignment⟩).2.outputAllInfo = some none) := by
  constructor
  · intro habi
    have hstores := h.storesMerged habi hinj
    refine ⟨hstores, ?_⟩
    intro regs' w' call' hperm h'
    have hinj' : DistinctNames env regs' := by
      intro i hi j hj
      exact hinj i (hperm.mem_iff.mpr hi) j (hperm.mem_iff.mpr hj)
    have hstores' := h'.storesMerged habi hinj'
    refine ⟨?_, fun name => (hstores.summary_eq hperm hstores' name).symm⟩
    rw [hstores.returned, hstores'.returned]
    exact (List.toFinset_eq_of_perm _ _ (hperm.map _)).symm
  · intro habi
    obtain ⟨hret, hvec, hplugins⟩ := h.storesNothing habi
    exact ⟨hret, hvec, hplugins, hook_output_null _ habi⟩

def loadFirst : LoadCall := ⟨"a", false, ⟨some 1, false⟩, [pluginOf "p" p_ne ["I"] ["x"]]⟩

theorem loadLib_registrations_first :
    StoresMerged sharedName (registrationsOf "p" (by decide) ["I"] ["x"])
      (loadFirst.run sharedName init) :=
  have hfresh : LoadsFresh sharedName ⟨infoApiVersion, 8, 8⟩
      (registrationsOf "p" (by decide) ["I"] ["x"]) init loadFirst :=
    ⟨⟨0, rfl, rfl⟩, Reachable.refl (step sharedName) init, rfl, by decide, ⟨rfl, rfl⟩⟩
  ((loadLib_registrations sharedName hfresh (fun _ _ _ _ h => h)).1 rfl).1

end World

end GzPlugin
