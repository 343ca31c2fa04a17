import GzPlugin.Mapped

/-!
# Whatever is resolved can be instantiated

The alias map may list a plugin that is not registered any more. This is the only way in
which `LookupPlugin` can promise something that `Instantiate` does not keep, and it comes
about when a plugin is forgotten under whose aliases another library listed it as well.
-/

namespace GzPlugin

open FiniteMaps Runs Implementation

set_option autoImplicit false

namespace World

variable {env : Env} {w w' : World} {s : String}

/-- `LookupPlugin` and `Instantiate` agree on a string, and none of the branches that
"should not be possible" is taken for it. -/
structure Instantiable (env : Env) (w : World) (s : String) : Prop where
  found : w.lookupPlugin env s ≠ "" → w.lookupPlugin env s ∈ w.allPlugins env ∧
    ∀ i, i ≠ 0 → (w.instantiate env s i).1.isEmpty = false ∧
      (w.instantiate env s i).1.name = some (w.lookupPlugin env s)
  notFound : w.lookupPlugin env s = "" → ∀ i, (w.instantiate env s i).1.isEmpty = true
  fileInfo : w.lookupFilePlugin s ≠ "" →
    (w.getInfoForFilePlugin (w.lookupFilePlugin s)).isSome ∧
    (w.getPluginDlHandlePtr (w.lookupFilePlugin s)).isSome
  staticInfo : lookupStaticPlugin env s ≠ "" →
    ∀ addr, (getInfoForStaticPlugin env addr (lookupStaticPlugin env s)).isSome
  mapped : w.InstantiatesMapped env s

def NoStale (w : World) : Prop :=
  ∀ a name, name ∈ w.impl.filePlugins.aliases.names a → name ∈ w.impl.filePlugins.plugins

/-- Whatever the operation forgets is listed under the aliases of its own `Info` only. -/
def ForgetsListed (env : Env) (w : World) (op : Op) : Prop :=
  ∀ names ∈ w.forgottenNames env op, ∀ name ∈ names,
    ∀ ptr ∈ w.impl.filePlugins.plugins.lookup name,
      ∀ a, name ∈ w.impl.filePlugins.aliases.names a → a ∈ ptr.info.aliases

instance (env : Env) (w : World) (op : Op) : Decidable (ForgetsListed env w op) := by
  have hiff : (∀ names ∈ w.forgottenNames env op, ∀ name ∈ names,
      ∀ ptr ∈ w.impl.filePlugins.plugins.lookup name, ∀ a ∈ w.impl.filePlugins.aliases.keys,
        name ∈ w.impl.filePlugins.aliases.names a → a ∈ ptr.info.aliases) ↔
      ForgetsListed env w op := by
    constructor
    · intro h names hnames name hname ptr hptr a ha
      exact h names hnames name hname ptr hptr a
        (Finmap.mem_keys.mpr (Registry.mem_of_mem_names ha)) ha
    · intro h names hnames name hname ptr hptr a _ ha
      exact h names hnames name hname ptr hptr a ha
  exact decidable_of_iff _ hiff

theorem init_noStale : init.NoStale := by
  intro a name h
  simp [init, Implementation.empty, Registry.empty, AliasMap.names] at h

theorem NoStale.file_known (h : w.NoStale) (hne : w.lookupFilePlugin s ≠ "") :
    w.lookupFilePlugin s ∈ w.impl.filePlugins.plugins := by
  rcases RegistryView.lookupPlugin_cases w.impl.filePlugins.view s with
    ⟨hk, he⟩ | ⟨_, name, hn, he⟩ | ⟨_, _, he⟩
  · rw [lookupFilePlugin, he, ← Finmap.lookup_isSome]
    simpa [Registry.view_getInfo] using hk
  · rw [lookupFilePlugin, he]
    apply h s name
    rw [← Registry.view_aliases, hn]
    exact Finset.mem_singleton_self name
  · exact absurd he hne

theorem mem_allPlugins_of_file {name : String} (h : name ∈ w.impl.filePlugins.plugins) :
    name ∈ w.allPlugins env :=
  Finset.mem_union_left _ (Registry.mem_view_allPlugins.mpr h)

theorem mem_allPlugins_of_static {name : String} {info : Info CodePtr}
    (h : env.statics.infos.lookup name = some info) : name ∈ w.allPlugins env :=
  Finset.mem_union_right _ (Finmap.mem_keys.mpr (Finmap.mem_of_lookup_eq_some h))

theorem NoStale.instantiable (h : w.NoStale) (hS : Sound env w) (hmaps : w.ResolvesMapped s) :
    Instantiable env w s where
  found hne := by
    cases hS.resolution s with
    | file ptr hp hfile hinfo hhandle hmade =>
      rw [lookupPlugin_of_file hfile]
      refine ⟨mem_allPlugins_of_file (h.file_known hfile), fun i hi => ?_⟩
      rw [hmade, Plugin.made_name, hS.tables.registry.named hinfo]
      exact ⟨Plugin.made_isEmpty _ _ _ hi, rfl⟩
    | stale hfile hinfo hmade =>
      exact absurd (h.file_known hfile) (Finmap.lookup_eq_none.mp hinfo)
    | static info hfile hstatic hinfo hmade =>
      rw [lookupPlugin_of_not_file hfile]
      refine ⟨mem_allPlugins_of_static hinfo, fun i hi => ?_⟩
      rw [hmade, Plugin.made_name, env.statics_wellFormed.named hinfo]
      exact ⟨Plugin.made_isEmpty _ _ _ hi, rfl⟩
    | missing hfile hstatic _ =>
      rw [lookupPlugin_of_not_file hfile] at hne
      exact absurd hstatic hne
  notFound he := by
    cases hS.resolution s with
    | file ptr hp hfile _ _ _ =>
      rw [lookupPlugin_of_file hfile] at he
      exact absurd he hfile
    | stale hfile _ _ =>
      rw [lookupPlugin_of_file hfile] at he
      exact absurd he hfile
    | static info hfile hstatic _ _ =>
      rw [lookupPlugin_of_not_file hfile] at he
      exact absurd he hstatic
    | missing _ _ hmade =>
      intro i
      rw [hmade]
      rfl
  fileInfo hne := by
    have hk := h.file_known hne
    exact ⟨Finmap.lookup_isSome.mpr hk, Finmap.lookup_isSome.mpr (hS.tables.keys.mp hk)⟩
  staticInfo hne := by
    intro addr
    obtain ⟨info, hinfo⟩ := static_known hne
    unfold getInfoForStaticPlugin
    rw [show env.statics.view.getInfo (lookupStaticPlugin env s) = some info from hinfo]
    rfl
  mapped := hS.instantiatesMapped_iff.mpr hmaps

theorem NoStale.step {op : Op} (h : w.NoStale) (hS : Sound env w) (hC : ForgetsListed env w op)
    (hs : step env w op = some w') : w'.NoStale := by
  intro a name hn
  cases (step_sound hS hs).2 with
  | loaded lib hp infos hop hl =>
    rw [hl.added.listed] at hn
    rw [hl.added.known]
    rcases hn with hn | ⟨i, hi, _, he⟩
    · exact Or.inl (h a name hn)
    · exact Or.inr ⟨i, hi, he⟩
  | forgot hd names hop hf =>
    obtain ⟨hn, hnot⟩ := hf.removed.listed.mp hn
    have hmem : name ∉ names := by
      intro hmem
      obtain ⟨ptr, hptr⟩ := Finmap.mem_iff.mp (h a name hn)
      have hknown : names ∈ w.forgottenNames env op := by
        simp [forgottenNames, hop, hf.known]
      exact hnot ⟨hmem, ptr, hptr, hC names hknown name hmem ptr hptr a hn⟩
    rw [← Finmap.lookup_isSome, hf.removed.plugins, if_neg hmem, Finmap.lookup_isSome]
    exact h a name hn
  | kept hload hforget hq =>
    rw [hq.impl] at hn ⊢
    exact h a name hn
  | destroyed himpl _ _ =>
    simp [himpl, Implementation.empty, Registry.empty, AliasMap.names] at hn

/-- In a run that only forgets plugins listed under their own aliases, in every state reached,
what `LookupPlugin` makes of a string can be instantiated if and only if the library of the `Info`
that is found is still open. It always is if every library that is loaded owns the registered
plugins of the names it brings. -/
theorem instantiable_of_forgetsListed (env : Env) {l : List (Op × World)}
    (hrun : Run (step env) init l) (hC : Steps (ForgetsListed env) init l) :
    States (fun w => ∀ s, Instantiable env w s ↔ w.ResolvesMapped s) init l ∧
    (Steps (LoadsOwnNames env) init l → States (fun w => ∀ s, Instantiable env w s) init l) := by
  have hstates : States (fun w => Sound env w ∧ w.NoStale) init l := by
    refine hrun.states hC ⟨init_sound env, init_noStale⟩ ?_
    intro w op w' hop hw hs
    exact ⟨(step_sound hw.1 hs).1, hw.2.step hw.1 hop hs⟩
  constructor
  · apply hstates.imp
    intro w hw s
    constructor
    · exact fun h => hw.1.instantiatesMapped_iff.mp h.mapped
    · exact hw.2.instantiable hw.1
  · intro hload
    apply (hstates.and (matched_of_loadsOwnNames env hrun hload)).imp
    intro w hw s
    exact hw.1.2.instantiable hw.1.1 ((hw.2.2.registered_maps hw.2.1).resolves s)

theorem instantiable_oneByOne :
    States (fun w => ∀ s, Instantiable sharedName w s) init
      (history (step sharedName) init oneByOne) :=
  (instantiable_of_forgetsListed sharedName (history_run (step sharedName) init oneByOne)
    (by decide)).2 (by decide)

/-- The alias "y" still resolves to the forgotten plugin. -/
theorem not_instantiable_after_loadBoth : ¬ ∀ w, Reachable (step sharedName) init w →
    ∀ s, Instantiable sharedName w s := by
  intro h
  have hy := h _ ⟨_, history_run (step sharedName) init forgetSecond, rfl⟩ "y"
  exact absurd (hy.found (by decide)).1 (by decide)

end World

end GzPlugin
