import GzPlugin.Linkage

/-!
# The tables of the Loader

What loading and forgetting do to the four maps of `Loader::Implementation`, and what the
maps have in common in every reachable state.
-/

namespace GzPlugin

open FiniteMaps

set_option autoImplicit false

/-- What the Loader stores for an `Info` that a library hands over. -/
def Env.stored (env : Env) (image : Image) (info : Info Symbol) : Info CodePtr :=
  World.finishInfo env (info.mapCode (CodePtr.mk image))

namespace Implementation

/-- The registrations `infos`, given in order, were added for the handle `hp`. -/
structure Added (env : Env) (hp : DlHandlePtr) (infos : List (Info Symbol))
    (d d' : Implementation) : Prop where
  handles : ∀ name, d'.pluginToDlHandlePtrs.lookup name =
    if ∃ i ∈ infos, env.demangle i.name = name then some hp
    else d.pluginToDlHandlePtrs.lookup name
  kept : ∀ {name ptr}, d.filePlugins.plugins.lookup name = some ptr →
    d'.filePlugins.plugins.lookup name = some ptr
  stored : ∀ {name ptr}, d'.filePlugins.plugins.lookup name = some ptr →
    d.filePlugins.plugins.lookup name = some ptr ∨ (name ∉ d.filePlugins.plugins ∧
      ∃ i ∈ infos, env.demangle i.name = name ∧ ptr.info = env.stored hp.image i)
  known : ∀ {name}, name ∈ d'.filePlugins.plugins ↔
    name ∈ d.filePlugins.plugins ∨ ∃ i ∈ infos, env.demangle i.name = name
  listed : ∀ {name a}, name ∈ d'.filePlugins.aliases.names a ↔
    name ∈ d.filePlugins.aliases.names a ∨
      ∃ i ∈ infos, a ∈ i.aliases ∧ env.demangle i.name = name

namespace Added

variable {env : Env} {hp : DlHandlePtr} {d d' d'' : Implementation} {l l' : List (Info Symbol)}

theorem nil (env : Env) (hp : DlHandlePtr) (d : Implementation) : Added env hp [] d d where
  handles name := by simp
  kept h := h
  stored h := Or.inl h
  known := by simp
  listed := by simp

theorem append (h : Added env hp l d d') (h' : Added env hp l' d' d'') :
    Added env hp (l ++ l') d d'' where
  handles name := by
    rw [h'.handles, h.handles]
    simp only [List.mem_append, or_and_right, exists_or]
    by_cases hl : ∃ i ∈ l, env.demangle i.name = name <;>
      by_cases hl' : ∃ i ∈ l', env.demangle i.name = name <;> simp [hl, hl']
  kept hk := h'.kept (h.kept hk)
  stored hs := by
    rcases h'.stored hs with hs | ⟨hn, i, hi, he⟩
    · rcases h.stored hs with hs | ⟨hn, i, hi, he⟩
      · exact Or.inl hs
      · exact Or.inr ⟨hn, i, List.mem_append_left l' hi, he⟩
    · exact Or.inr ⟨fun hm => hn (h.known.mpr (Or.inl hm)), i, List.mem_append_right l hi, he⟩
  known := by
    intro name
    rw [h'.known, h.known]
    simp only [List.mem_append, or_and_right, exists_or, or_assoc]
  listed := by
    intro name a
    rw [h'.listed, h.listed]
    simp only [List.mem_append, or_and_right, exists_or, or_assoc]

end Added

theorem Added.of_eq {env : Env} {hp : DlHandlePtr} {infos : List (Info Symbol)}
    {d d' e e' : Implementation} (h : Added env hp infos d d')
    (hf : e.filePlugins = d.filePlugins) (hf' : e'.filePlugins = d'.filePlugins)
    (hh : e.pluginToDlHandlePtrs = d.pluginToDlHandlePtrs)
    (hh' : e'.pluginToDlHandlePtrs = d'.pluginToDlHandlePtrs) : Added env hp infos e e' := by
  constructor
  · simpa only [hh, hh'] using h.handles
  · simpa only [hf, hf'] using @h.kept
  · simpa only [hf, hf'] using @h.stored
  · simpa only [hf, hf'] using @h.known
  · simpa only [hf, hf'] using @h.listed

/-- The plugins `names` were forgotten. -/
structure Removed (names : Finset String) (d d' : Implementation) : Prop where
  handles : ∀ name, d'.pluginToDlHandlePtrs.lookup name =
    if name ∈ names then none else d.pluginToDlHandlePtrs.lookup name
  plugins : ∀ name, d'.filePlugins.plugins.lookup name =
    if name ∈ names then none else d.filePlugins.plugins.lookup name
  listed : ∀ {name a}, name ∈ d'.filePlugins.aliases.names a ↔
    name ∈ d.filePlugins.aliases.names a ∧ ¬ (name ∈ names ∧
      ∃ ptr, d.filePlugins.plugins.lookup name = some ptr ∧ a ∈ ptr.info.aliases)

namespace Removed

variable {d d' d'' : Implementation} {l l' : Finset String}

theorem empty (d : Implementation) : Removed ∅ d d where
  handles name := by simp
  plugins name := by simp
  listed := by simp

theorem union (h : Removed l d d') (h' : Removed l' d' d'') : Removed (l ∪ l') d d'' where
  handles name := by
    rw [h'.handles, h.handles]
    simp only [Finset.mem_union]
    by_cases hl : name ∈ l <;> by_cases hl' : name ∈ l' <;> simp [hl, hl']
  plugins name := by
    rw [h'.plugins, h.plugins]
    simp only [Finset.mem_union]
    by_cases hl : name ∈ l <;> by_cases hl' : name ∈ l' <;> simp [hl, hl']
  listed := by
    intro name a
    rw [h'.listed, h.listed, h.plugins]
    simp only [Finset.mem_union]
    by_cases hl : name ∈ l <;> by_cases hl' : name ∈ l' <;> simp [hl, hl']

end Removed

theorem Removed.of_eq {names : Finset String} {d d' e' : Implementation} (h : Removed names d d')
    (hf : e'.filePlugins = d'.filePlugins)
    (hh : e'.pluginToDlHandlePtrs = d'.pluginToDlHandlePtrs) : Removed names d e' := by
  constructor
  · simpa only [hh] using h.handles
  · simpa only [hf] using h.plugins
  · simpa only [hf] using @h.listed

/-- What the maps have in common in every reachable state. -/
structure Tables (env : Env) (d : Implementation) : Prop where
  registry : d.filePlugins.WellFormed
  keys : ∀ {name}, name ∈ d.filePlugins.plugins ↔ name ∈ d.pluginToDlHandlePtrs
  named : ∀ {name}, name ∈ d.filePlugins.plugins → name ≠ ""
  listed : ∀ {name a}, name ∈ d.filePlugins.aliases.names a → name ≠ ""
  demangled : ∀ {name ptr}, d.filePlugins.plugins.lookup name = some ptr →
    ptr.info.demangledInterfaces = ptr.info.demangledKeys env.demangle

namespace Tables

variable {env : Env} {d d' : Implementation}

theorem empty (env : Env) : Tables env .empty where
  registry := Registry.empty_wellFormed
  keys := iff_of_false Finmap.notMem_empty Finmap.notMem_empty
  named h := absurd h Finmap.notMem_empty
  listed h := by simp [Implementation.empty, Registry.empty, AliasMap.names] at h
  demangled h := by simp [Implementation.empty, Registry.empty] at h

theorem added {hp : DlHandlePtr} {infos : List (Info Symbol)} (h : Tables env d)
    (ha : Added env hp infos d d') (hreg : ∀ i ∈ infos, i.Registered) : Tables env d' where
  registry := by
    constructor
    · intro name ptr hl
      rcases ha.stored hl with hl | ⟨_, i, _, hn, hi⟩
      · exact h.registry.named hl
      · rw [hi]
        exact hn
    · intro name ptr a hl hm
      rw [ha.listed]
      rcases ha.stored hl with hl | ⟨_, i, hi, hn, he⟩
      · exact Or.inl (h.registry.listed hl hm)
      · rw [he] at hm
        exact Or.inr ⟨i, hi, hm, hn⟩
  keys := by
    intro name
    rw [ha.known, ← Finmap.lookup_isSome (s := d'.pluginToDlHandlePtrs), ha.handles, h.keys,
      ← Finmap.lookup_isSome]
    by_cases hi : ∃ i ∈ infos, env.demangle i.name = name <;> simp [hi]
  named := by
    intro name hm
    rcases ha.known.mp hm with hm | ⟨i, hi, rfl⟩
    · exact h.named hm
    · exact env.demangle_ne _ (hreg i hi).name_ne
  listed := by
    intro name a hm
    rcases ha.listed.mp hm with hm | ⟨i, hi, _, rfl⟩
    · exact h.listed hm
    · exact env.demangle_ne _ (hreg i hi).name_ne
  demangled := by
    intro name ptr hl
    rcases ha.stored hl with hl | ⟨_, i, hi, _, he⟩
    · exact h.demangled hl
    · have hempty : (i.mapCode (CodePtr.mk hp.image)).demangledInterfaces = ∅ :=
        (hreg i hi).demangled
      rw [he, Env.stored, World.finishInfo, hempty, Finset.empty_union]
      rfl

theorem removed {names : Finset String} (h : Tables env d) (hr : Removed names d d') :
    Tables env d' where
  registry := by
    constructor
    · intro name ptr hl
      rw [hr.plugins] at hl
      split at hl
      · cases hl
      · exact h.registry.named hl
    · intro name ptr a hl hm
      rw [hr.plugins] at hl
      split at hl
      · cases hl
      · rename_i hn
        exact hr.listed.mpr ⟨h.registry.listed hl hm, fun hh => hn hh.1⟩
  keys := by
    intro name
    rw [← Finmap.lookup_isSome, ← Finmap.lookup_isSome, hr.plugins, hr.handles]
    split
    · rfl
    · rw [Finmap.lookup_isSome, Finmap.lookup_isSome]
      exact h.keys
  named := by
    intro name hm
    rw [← Finmap.lookup_isSome, hr.plugins] at hm
    split at hm
    · cases hm
    · exact h.named (Finmap.lookup_isSome.mp hm)
  listed := fun hm => h.listed (hr.listed.mp hm).1
  demangled := by
    intro name ptr hl
    rw [hr.plugins] at hl
    split at hl
    · cases hl
    · exact h.demangled hl

end Tables

end Implementation

end GzPlugin
