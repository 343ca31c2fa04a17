import GzPlugin.Registration

/-!
# Static and dynamic registration

The same registrations, given to the static registry and to the hook of a library that a
Loader then loads. The two ways of merging go side by side through the registrations, and
at the end both registries answer every query alike.
-/

namespace GzPlugin

open FiniteMaps Runs

set_option autoImplicit false

variable {Code Code' : Type}

/-! ### Registries that answer alike -/

/-- The same answer to every query; `f` forgets where the functions are. -/
structure RegistryView.SameAnswers (f : Code → Code') (v : RegistryView Code)
    (v' : RegistryView Code') : Prop where
  allPlugins : v.allPlugins = v'.allPlugins
  interfacesImplemented : v.interfacesImplemented = v'.interfacesImplemented
  pluginsImplementing : ∀ interface demangled,
    v.pluginsImplementing interface demangled = v'.pluginsImplementing interface demangled
  pluginsWithAlias : ∀ a, v.pluginsWithAlias a = v'.pluginsWithAlias a
  aliasesOfPlugin : ∀ name, v.aliasesOfPlugin name = v'.aliasesOfPlugin name
  lookupPlugin : ∀ s, v.lookupPlugin s = v'.lookupPlugin s
  getInfo : ∀ name, (v.getInfo name).map (Info.mapCode f) = v'.getInfo name

namespace RegistryView

variable {f : Code → Code'} {v : RegistryView Code} {v' : RegistryView Code'}

theorem provides_mapCode (info : Info Code) (interface : String) (demangled : Bool) :
    provides (info.mapCode f) interface demangled = provides info interface demangled := by
  cases demangled with
  | false => exact decide_eq_decide.mpr mem_mapValues
  | true => rfl

/-- All queries go through `GetInfo`, the list of names and the alias map. -/
theorem sameAnswers_of_getInfo (h : v.Coherent) (h' : v'.Coherent)
    (hinfo : ∀ name, (v.getInfo name).map (Info.mapCode f) = v'.getInfo name)
    (haliases : ∀ a, v.aliases.names a = v'.aliases.names a) : SameAnswers f v v' := by
  have hsome : ∀ name, (v'.getInfo name).isSome = (v.getInfo name).isSome := by
    intro name
    rw [← hinfo, Option.isSome_map]
  refine ⟨?_, ?_, ?_, ?_, ?_, ?_, hinfo⟩
  · ext name
    rw [h.all, h'.all, hsome]
  · ext interface
    rw [h.mem_interfacesImplemented, h'.mem_interfacesImplemented]
    refine exists_congr fun name => ?_
    rw [← hinfo]
    cases v.getInfo name <;> simp [Info.mapCode]
  · intro interface demangled
    ext name
    rw [h.mem_pluginsImplementing, h'.mem_pluginsImplementing, ← hinfo]
    cases v.getInfo name <;> simp [provides_mapCode]
  · intro a
    ext name
    rw [mem_pluginsWithAlias, mem_pluginsWithAlias, haliases, hsome]
  · intro name
    ext a
    rw [mem_aliasesOfPlugin, mem_aliasesOfPlugin, ← hinfo]
    cases v.getInfo name <;> simp [Info.mapCode]
  · intro s
    cases hs : v.getInfo s with
    | none =>
      have hs' : v'.getInfo s = none := by rw [← hinfo, hs, Option.map_none]
      rw [lookupPlugin_of_unknown hs, lookupPlugin_of_unknown hs', haliases]
    | some info =>
      rw [lookupPlugin_of_known (by rw [hs]; rfl),
        lookupPlugin_of_known (by rw [hsome, hs]; rfl)]

end RegistryView

/-! ### The two ways of merging -/

namespace StaticRegistry

variable {demangle : String → String} {S : Set String} {m : InfoMap Code} {r : StaticRegistry Code}

/-- The static registry holds what the hook of a library holds, under demangled names. `S`
are the type names in use. -/
structure Mirrors (demangle : String → String) (S : Set String) (m : InfoMap Code)
    (r : StaticRegistry Code) : Prop where
  stored : ∀ name ∈ S, r.infos.lookup (demangle name) =
    (m.lookup name).map fun info => addEntry demangle none info
  known : ∀ {name}, name ∈ r.infos → ∃ n ∈ S, demangle n = name
  inUse : ∀ {name}, name ∈ m → name ∈ S
  listed : ∀ {name a}, name ∈ r.aliases.names a ↔
    ∃ n info, m.lookup n = some info ∧ a ∈ info.aliases ∧ demangle n = name

theorem mirrors_empty : Mirrors demangle S (∅ : InfoMap Code) empty where
  stored name _ := by simp [empty]
  known h := absurd h Finmap.notMem_empty
  inUse h := absurd h Finmap.notMem_empty
  listed := by simp [empty, AliasMap.names]

/-- Merging commutes with what `AddInfo` makes of a first registration. -/
theorem addEntry_mergeInfo (entry input : Info Code) :
    addEntry demangle (some (addEntry demangle none entry)) input =
      addEntry demangle none (mergeInfo entry input) := by
  simp only [addEntry, mergeInfo, Info.demangledKeys, Finmap.keys_union, Finset.image_union,
    Finset.union_assoc]

theorem mem_hookInput {m : InfoMap Code} {info : Info Code} {name : String} :
    name ∈ hookInput m info ↔ name = info.name ∨ name ∈ m := by
  unfold hookInput
  split <;> exact Finmap.mem_insert

theorem hookInput_aliases {m : InfoMap Code} {info : Info Code} {name a : String} :
    (∃ i, (hookInput m info).lookup name = some i ∧ a ∈ i.aliases) ↔
      (name = info.name ∧ a ∈ info.aliases) ∨ ∃ i, m.lookup name = some i ∧ a ∈ i.aliases := by
  by_cases hn : name = info.name
  · subst hn
    cases hold : m.lookup info.name with
    | none => simp [hookInput_lookup_new hold]
    | some entry =>
      simp only [hookInput_lookup_old hold, Option.some.injEq, exists_eq_left', mergeInfo,
        Finset.mem_union, true_and]
      exact or_comm
  · simp [hookInput_lookup_ne m info hn, hn]

theorem Mirrors.next (h : Mirrors demangle S m r) (hS : Set.InjOn demangle S) {info : Info Code}
    (hinfo : info.name ∈ S) :
    Mirrors demangle S (hookInput m info) (r.addInfo demangle info) where
  stored name hname := by
    simp only [addInfo, lookup_insert_eq]
    by_cases hn : name = info.name
    · subst hn
      rw [if_pos rfl, h.stored _ hname]
      cases hold : m.lookup info.name with
      | none => rw [hookInput_lookup_new hold, Option.map_none, Option.map_some]
      | some entry =>
        rw [hookInput_lookup_old hold, Option.map_some, Option.map_some, addEntry_mergeInfo]
    · rw [if_neg fun he => hn (hS hname hinfo he), h.stored _ hname, hookInput_lookup_ne m info hn]
  known {name} hm := by
    rcases Finmap.mem_insert.mp hm with rfl | hm
    · exact ⟨info.name, hinfo, rfl⟩
    · exact h.known hm
  inUse {name} hm := by
    rcases mem_hookInput.mp hm with rfl | hm
    · exact hinfo
    · exact h.inUse hm
  listed {name a} := by
    have hsplit : ∀ n, (∃ i, (hookInput m info).lookup n = some i ∧ a ∈ i.aliases ∧
        demangle n = name) ↔ ((n = info.name ∧ a ∈ info.aliases) ∨
          ∃ i, m.lookup n = some i ∧ a ∈ i.aliases) ∧ demangle n = name := by
      intro n
      rw [← hookInput_aliases]
      simp only [← and_assoc, exists_and_right]
    simp only [addInfo, AliasMap.mem_names_insertAll, h.listed, hsplit, or_and_right, exists_or]
    refine or_congr ?_ (exists_congr fun n => ?_)
    · constructor
      · rintro ⟨ha, rfl⟩
        exact ⟨info.name, ⟨rfl, ha⟩, rfl⟩
      · rintro ⟨n, ⟨rfl, ha⟩, he⟩
        exact ⟨ha, he.symm⟩
    · simp only [← and_assoc, exists_and_right]

/-- The two ways of merging stay in step through any sequence of registrations. -/
theorem registrations_mirror (abi : Abi) {infos : List (Info Code)} (hS : Set.InjOn demangle S)
    (hinfos : ∀ info ∈ infos, info.name ∈ S) :
    Mirrors demangle S (GzPlugin.registrations abi infos) (registrations demangle infos) :=
  List.foldl_rel (r := Mirrors demangle S) mirrors_empty
    fun info hinfo _ _ h => h.next hS (hinfos info hinfo)

end StaticRegistry

namespace World

variable {env : Env} {regs : List (Registration Symbol)} {w : World} {call : LoadCall}

theorem stored_mapCode (env : Env) (image : Image) (info : Info Symbol) :
    (env.stored image info).mapCode CodePtr.symbol =
      StaticRegistry.addEntry env.demangle none info := by
  have hmap : mapValues CodePtr.symbol (mapValues (CodePtr.mk image) info.interfaces) =
      info.interfaces := by
    apply Finmap.ext_lookup
    intro name
    rw [lookup_mapValues, lookup_mapValues, Option.map_map]
    exact Option.map_id_apply
  have hkeys : (info.mapCode (CodePtr.mk image)).demangledKeys env.demangle =
      info.demangledKeys env.demangle := by
    rw [Info.demangledKeys, Info.demangledKeys, Info.mapCode, keys_mapValues]
  simp only [Env.stored, finishInfo, hkeys, StaticRegistry.addEntry]
  simp only [Info.mapCode, hmap]

/-- Registering the same classes in the same order in the program or in a library that is
then loaded into an empty Loader gives registries that answer every query alike. -/
theorem loaded_sameAnswers_static (h : LoadsFresh env env.abi regs w call)
    (haliases : ∀ a, w.impl.filePlugins.aliases.names a = ∅) (hinj : DistinctNames env regs) :
    RegistryView.SameAnswers CodePtr.symbol (call.run env w).2.impl.filePlugins.view
      (StaticRegistry.registrations env.demangle (regs.map (·.info))).view := by
  obtain ⟨lib, hp, hall, _, hl⟩ := h.added rfl
  have hreg := registered_of_map regs
  have hS : Set.InjOn env.demangle {name | ∃ r ∈ regs, r.info.name = name} := by
    rintro _ ⟨r, hr, rfl⟩ _ ⟨r', hr', rfl⟩ he
    exact hinj r hr r' hr' he
  have hnames : ∀ i ∈ regs.map (·.info), i.name ∈ {name | ∃ r ∈ regs, r.info.name = name} := by
    intro i hi
    obtain ⟨r, hr, rfl⟩ := List.mem_map.mp hi
    exact ⟨r, hr, rfl⟩
  have hm := StaticRegistry.registrations_mirror env.abi hS hnames
  rw [← hall] at hm
  have hkeyed := env.allInfo_keyed lib
  have hsound : Sound env (call.run env w).2 :=
    (step_sound (reachable_sound h.reachable) (step_eq_some.mpr ⟨h.enabled, rfl⟩)).1
  have hvec := hl.enumerates.mem_iff
  refine RegistryView.sameAnswers_of_getInfo hsound.tables.registry.coherent
    (StaticRegistry.registrations_wellFormed fun i hi => (hreg i hi).demangled).coherent ?_ ?_
  · intro name
    rw [Registry.view_getInfo]
    change _ = (StaticRegistry.registrations env.demangle (regs.map (·.info))).infos.lookup name
    cases hptr : (call.run env w).2.impl.filePlugins.plugins.lookup name with
    | none =>
      symm
      rw [Option.map_none, Option.map_none, Finmap.lookup_eq_none]
      intro hmem
      obtain ⟨n, hn, rfl⟩ := hm.known hmem
      obtain ⟨x, hx⟩ := Finmap.mem_iff.mp hmem
      rw [hm.stored n hn] at hx
      obtain ⟨i, hi, _⟩ := Option.map_eq_some_iff.mp hx
      have hin : i ∈ call.loadedPlugins := (hvec i).mpr ⟨n, hi⟩
      have hknown := hl.added.known.mpr (Or.inr ⟨i, hin, rfl⟩)
      rw [(hkeyed n i hi).1] at hknown
      exact Finmap.lookup_eq_none.mp hptr hknown
    | some ptr =>
      rcases hl.added.stored hptr with hold | ⟨_, i, hi, rfl, he⟩
      · rw [h.empty, Finmap.lookup_empty] at hold
        cases hold
      · obtain ⟨n, hn⟩ := (hvec i).mp hi
        have hname := (hkeyed n i hn).1
        subst hname
        rw [hm.stored _ (hm.inUse (Finmap.mem_of_lookup_eq_some hn)), hn, Option.map_some,
          Option.map_some, Option.map_some, he, stored_mapCode]
  · intro a
    ext name
    rw [Registry.view_aliases, hl.added.listed, haliases]
    refine Iff.trans ?_ hm.listed.symm
    constructor
    · rintro (hold | ⟨i, hi, ha, rfl⟩)
      · exact absurd hold (Finset.notMem_empty name)
      · obtain ⟨n, hn⟩ := (hvec i).mp hi
        exact ⟨n, i, hn, ha, by rw [(hkeyed n i hn).1]⟩
    · rintro ⟨n, i, hn, ha, rfl⟩
      exact Or.inr ⟨i, (hvec i).mpr ⟨n, hn⟩, ha, by rw [(hkeyed n i hn).1]⟩

theorem loaded_sameAnswers_static_first :
    RegistryView.SameAnswers CodePtr.symbol (loadFirst.run sharedName init).2.impl.filePlugins.view
      (StaticRegistry.registrations sharedName.demangle
        ((registrationsOf "p" (by decide) ["I"] ["x"]).map (·.info))).view :=
  have hfresh : LoadsFresh sharedName sharedName.abi
      (registrationsOf "p" (by decide) ["I"] ["x"]) init loadFirst :=
    ⟨⟨0, rfl, rfl⟩, Reachable.refl (step sharedName) init, rfl, by decide, ⟨rfl, rfl⟩⟩
  loaded_sameAnswers_static hfresh (fun _ => rfl) (fun _ _ _ _ h => h)

end World

end GzPlugin
