import GzPlugin.Mapped

/-!
# The law of name resolution

`LookupPlugin` asks the file registry first and the static registry only if the first one
has no answer, whereas the law speaks about the plugins of both. The condition under which
the two agree is determined exactly.
-/

namespace GzPlugin

open FiniteMaps Runs

set_option autoImplicit false

namespace World

variable {env : Env} {w : World} {s : String}

/-- The name that a string stands for: itself if it is a plugin name, otherwise the only
plugin with this alias. -/
def lawName (env : Env) (w : World) (s : String) : String :=
  if s ∈ w.allPlugins env then s
  else if (w.pluginsWithAlias env s).card = 1 then firstName (w.pluginsWithAlias env s)
  else ""

/-- `LookupPlugin` and `Instantiate` follow the law for a string, and the code that `Instantiate`
calls is mapped. -/
structure ObeysLaw (env : Env) (w : World) (s : String) : Prop where
  lookup : w.lookupPlugin env s = lawName env w s
  instantiated : lawName env w s ≠ "" → ∀ i, i ≠ 0 →
    (w.instantiate env s i).1.isEmpty = false ∧
    (w.instantiate env s i).1.name = some (lawName env w s)
  nothing : lawName env w s = "" → ∀ i, (w.instantiate env s i).1.isEmpty = true
  mapped : w.InstantiatesMapped env s

/-- The string names a file plugin, or it is no alias there, or it is the alias of one
registered file plugin and stands for nothing else in the static registry, or it is
ambiguous in the file registry and the static registry has no unique alias for it. -/
def LawCondition (env : Env) (w : World) (s : String) : Prop :=
  s ∈ w.impl.filePlugins.plugins ∨
  w.impl.filePlugins.aliases.names s = ∅ ∨
  (∃ name ∈ w.impl.filePlugins.plugins, w.impl.filePlugins.aliases.names s = {name} ∧
    env.statics.aliases.names s ⊆ {name} ∧ s ∉ env.statics.infos) ∨
  (2 ≤ (w.impl.filePlugins.aliases.names s).card ∧
    (s ∈ env.statics.infos ∨ (env.statics.aliases.names s).card ≠ 1))

theorem mem_allPlugins {name : String} : name ∈ w.allPlugins env ↔
    name ∈ w.impl.filePlugins.plugins ∨ name ∈ env.statics.infos := by
  rw [allPlugins, Finset.mem_union, Registry.mem_view_allPlugins]
  exact or_congr Iff.rfl Finmap.mem_keys

theorem file_getInfo_none (h : s ∉ w.impl.filePlugins.plugins) :
    w.impl.filePlugins.view.getInfo s = none := by
  rw [Registry.view_getInfo, Finmap.lookup_eq_none.mpr h]
  rfl

theorem static_getInfo_none (h : s ∉ env.statics.infos) : env.statics.view.getInfo s = none :=
  Finmap.lookup_eq_none.mpr h

theorem pluginsWithAlias_of_unknown (hf : s ∉ w.impl.filePlugins.plugins)
    (hs : s ∉ env.statics.infos) : w.pluginsWithAlias env s =
      w.impl.filePlugins.aliases.names s ∪ env.statics.aliases.names s := by
  simp only [pluginsWithAlias, RegistryView.pluginsWithAlias, file_getInfo_none hf,
    static_getInfo_none hs, Option.isSome_none, Bool.false_eq_true, if_false]
  rfl

theorem lawName_of_known (h : s ∈ w.allPlugins env) : lawName env w s = s := if_pos h

theorem lawName_of_unknown (hf : s ∉ w.impl.filePlugins.plugins)
    (hs : s ∉ env.statics.infos) : lawName env w s =
      if (w.impl.filePlugins.aliases.names s ∪ env.statics.aliases.names s).card = 1 then
        firstName (w.impl.filePlugins.aliases.names s ∪ env.statics.aliases.names s)
      else "" := by
  have hnot : s ∉ w.allPlugins env := by
    rw [mem_allPlugins, not_or]
    exact ⟨hf, hs⟩
  rw [lawName, if_neg hnot, pluginsWithAlias_of_unknown hf hs]

theorem lookupFilePlugin_of_unknown (h : s ∉ w.impl.filePlugins.plugins) :
    w.lookupFilePlugin s =
      if (w.impl.filePlugins.aliases.names s).card = 1 then
        firstName (w.impl.filePlugins.aliases.names s)
      else "" :=
  RegistryView.lookupPlugin_of_unknown (file_getInfo_none h)

theorem lookupStaticPlugin_of_known (h : s ∈ env.statics.infos) :
    lookupStaticPlugin env s = s :=
  RegistryView.lookupPlugin_of_known (Finmap.lookup_isSome.mpr h)

theorem lookupStaticPlugin_of_unknown (h : s ∉ env.statics.infos) :
    lookupStaticPlugin env s =
      if (env.statics.aliases.names s).card = 1 then firstName (env.statics.aliases.names s)
      else "" :=
  RegistryView.lookupPlugin_of_unknown (static_getInfo_none h)

theorem Sound.obeysLaw (h : Sound env w) (hmaps : w.ResolvesMapped s)
    (hlookup : w.lookupPlugin env s = lawName env w s)
    (hknown : w.lookupFilePlugin s ≠ "" →
      w.lookupFilePlugin s ∈ w.impl.filePlugins.plugins) : ObeysLaw env w s := by
  refine ⟨hlookup, ?_, ?_, h.instantiatesMapped_iff.mpr hmaps⟩
  · rw [← hlookup]
    intro hne i hi
    cases h.resolution s with
    | file ptr hp hfile hinfo _ hmade =>
      rw [lookupPlugin_of_file hfile, hmade, Plugin.made_name, h.tables.registry.named hinfo]
      exact ⟨Plugin.made_isEmpty _ _ _ hi, rfl⟩
    | stale hfile hinfo _ => exact absurd (hknown hfile) (Finmap.lookup_eq_none.mp hinfo)
    | static info hfile _ hinfo hmade =>
      rw [lookupPlugin_of_not_file hfile, hmade, Plugin.made_name,
        env.statics_wellFormed.named hinfo]
      exact ⟨Plugin.made_isEmpty _ _ _ hi, rfl⟩
    | missing hfile hstatic _ =>
      rw [lookupPlugin_of_not_file hfile] at hne
      exact absurd hstatic hne
  · rw [← hlookup]
    intro he i
    cases h.resolution s with
    | file ptr hp hfile _ _ _ =>
      rw [lookupPlugin_of_file hfile] at he
      exact absurd he hfile
    | stale hfile _ hmade =>
      rw [hmade]
      rfl
    | static info hfile hstatic _ _ =>
      rw [lookupPlugin_of_not_file hfile] at he
      exact absurd he hstatic
    | missing _ _ hmade =>
      rw [hmade]
      rfl

theorem Sound.obeysLaw_of_condition (h : Sound env w) (hc : LawCondition env w s)
    (hmaps : w.ResolvesMapped s) : ObeysLaw env w s := by
  by_cases hf : s ∈ w.impl.filePlugins.plugins
  · have hlookup := lookupFilePlugin_of_registered hf
    have hne : w.lookupFilePlugin s ≠ "" := by
      rw [hlookup]
      exact h.tables.named hf
    refine h.obeysLaw hmaps ?_ (fun _ => by rw [hlookup]; exact hf)
    rw [lookupPlugin_of_file hne, hlookup, lawName_of_known (mem_allPlugins.mpr (Or.inl hf))]
  have hfile := lookupFilePlugin_of_unknown hf
  rcases hc with hc | hnone | ⟨name, hname, hin, hst, hs⟩ | ⟨htwo, hst⟩
  · exact absurd hc hf
  · have hempty : w.lookupFilePlugin s = "" := by
      rw [hfile, hnone]
      rfl
    refine h.obeysLaw hmaps ?_ (fun hne => absurd hempty hne)
    rw [lookupPlugin_of_not_file hempty]
    by_cases hs : s ∈ env.statics.infos
    · rw [lookupStaticPlugin_of_known hs, lawName_of_known (mem_allPlugins.mpr (Or.inr hs))]
    · rw [lookupStaticPlugin_of_unknown hs, lawName_of_unknown hf hs, hnone,
        Finset.empty_union]
  · have hone : w.lookupFilePlugin s = name := by
      rw [hfile, hin, Finset.card_singleton, if_pos rfl, firstName_singleton]
    have hne : w.lookupFilePlugin s ≠ "" := hone ▸ h.tables.named hname
    refine h.obeysLaw hmaps ?_ (fun _ => hone ▸ hname)
    rw [lookupPlugin_of_file hne, hone, lawName_of_unknown hf hs, hin,
      Finset.union_eq_left.mpr hst, Finset.card_singleton, if_pos rfl, firstName_singleton]
  · have hempty : w.lookupFilePlugin s = "" := by
      rw [hfile, if_neg (by omega)]
    refine h.obeysLaw hmaps ?_ (fun hne => absurd hempty hne)
    rw [lookupPlugin_of_not_file hempty]
    by_cases hs : s ∈ env.statics.infos
    · rw [lookupStaticPlugin_of_known hs, lawName_of_known (mem_allPlugins.mpr (Or.inr hs))]
    · have hcard : (env.statics.aliases.names s).card ≠ 1 := hst.resolve_left hs
      have hunion : 2 ≤ (w.impl.filePlugins.aliases.names s ∪
          env.statics.aliases.names s).card :=
        htwo.trans (Finset.card_le_card Finset.subset_union_left)
      rw [lookupStaticPlugin_of_unknown hs, if_neg hcard, lawName_of_unknown hf hs,
        if_neg (by omega)]

/-- A string with one alias entry in the file registry is resolved to it, so the law asks
for the rest of the condition. -/
theorem Sound.condition_of_unique (h : Sound env w) {name : String}
    (hf : s ∉ w.impl.filePlugins.plugins)
    (hin : w.impl.filePlugins.aliases.names s = {name}) (hl : ObeysLaw env w s) :
    name ∈ w.impl.filePlugins.plugins ∧ env.statics.aliases.names s ⊆ {name} ∧
      s ∉ env.statics.infos := by
  have hone : w.lookupFilePlugin s = name := by
    rw [lookupFilePlugin_of_unknown hf, hin, Finset.card_singleton, if_pos rfl,
      firstName_singleton]
  have hmem : name ∈ w.impl.filePlugins.aliases.names s := by
    rw [hin]
    exact Finset.mem_singleton_self name
  have hname : name ≠ "" := h.tables.listed hmem
  have hne : w.lookupFilePlugin s ≠ "" := hone ▸ hname
  have hlaw : lawName env w s = name := by
    rw [← hl.lookup, lookupPlugin_of_file hne, hone]
  have hreg : name ∈ w.impl.filePlugins.plugins := by
    cases h.resolution s with
    | file ptr hp _ hinfo _ _ => exact hone ▸ Finmap.mem_of_lookup_eq_some hinfo
    | stale _ _ hmade =>
      have hfull := (hl.instantiated (hlaw ▸ hname) 1 Nat.one_ne_zero).1
      rw [hmade] at hfull
      exact absurd hfull (by decide)
    | static _ hnone _ _ _ => exact absurd hnone hne
    | missing hnone _ _ => exact absurd hnone hne
  have hs : s ∉ env.statics.infos := by
    intro hs
    rw [lawName_of_known (mem_allPlugins.mpr (Or.inr hs))] at hlaw
    exact hf (hlaw ▸ hreg)
  refine ⟨hreg, ?_, hs⟩
  rw [lawName_of_unknown hf hs] at hlaw
  split at hlaw
  · rename_i hcard
    obtain ⟨x, hx⟩ := Finset.card_eq_one.mp hcard
    have hmem : name ∈ ({x} : Finset String) := by
      rw [← hx, hin]
      exact Finset.mem_union_left _ (Finset.mem_singleton_self name)
    rw [Finset.mem_singleton.mp hmem, ← hx]
    exact Finset.subset_union_right
  · exact absurd hlaw.symm hname

theorem Sound.condition_of_obeysLaw (h : Sound env w) (hl : ObeysLaw env w s) :
    LawCondition env w s := by
  by_cases hf : s ∈ w.impl.filePlugins.plugins
  · exact Or.inl hf
  by_cases hnone : w.impl.filePlugins.aliases.names s = ∅
  · exact Or.inr (Or.inl hnone)
  have hpos : 0 < (w.impl.filePlugins.aliases.names s).card :=
    Finset.card_pos.mpr (Finset.nonempty_of_ne_empty hnone)
  by_cases hcard : (w.impl.filePlugins.aliases.names s).card = 1
  · obtain ⟨name, hin⟩ := Finset.card_eq_one.mp hcard
    obtain ⟨hreg, hst, hs⟩ := h.condition_of_unique hf hin hl
    exact Or.inr (Or.inr (Or.inl ⟨name, hreg, hin, hst, hs⟩))
  have htwo : 2 ≤ (w.impl.filePlugins.aliases.names s).card := by omega
  refine Or.inr (Or.inr (Or.inr ⟨htwo, ?_⟩))
  by_contra hcontra
  rw [not_or, not_not] at hcontra
  obtain ⟨hs, hunique⟩ := hcontra
  obtain ⟨name, hst⟩ := Finset.card_eq_one.mp hunique
  -- The static registry resolves the alias, although the law makes it ambiguous.
  have hempty : w.lookupFilePlugin s = "" := by
    rw [lookupFilePlugin_of_unknown hf, if_neg hcard]
  have hunion : 2 ≤ (w.impl.filePlugins.aliases.names s ∪
      env.statics.aliases.names s).card :=
    htwo.trans (Finset.card_le_card Finset.subset_union_left)
  have hlaw := hl.lookup
  rw [lookupPlugin_of_not_file hempty, lookupStaticPlugin_of_unknown hs, if_pos hunique, hst,
    firstName_singleton, lawName_of_unknown hf hs, if_neg (by omega)] at hlaw
  have hmem : name ∈ env.statics.aliases.names s := by
    rw [hst]
    exact Finset.mem_singleton_self name
  have hknown : name ∈ env.statics.infos :=
    Finmap.lookup_isSome.mp (env.statics_wellFormed.known hmem)
  exact env.statics_name_ne hknown hlaw

/-- In every reachable state and for every string the law of name resolution holds exactly
under `LawCondition`, if the library of the `Info` that is found in the file registry is still
open. It always is as long as every library that is loaded owns the registered plugins of the
names it brings. -/
theorem obeysLaw_iff (env : Env) {w : World} (h : Reachable (step env) init w) (s : String) :
    ObeysLaw env w s ↔ LawCondition env w s ∧ w.ResolvesMapped s := by
  have hS := reachable_sound h
  constructor
  · exact fun hl => ⟨hS.condition_of_obeysLaw hl, hS.instantiatesMapped_iff.mp hl.mapped⟩
  · exact fun hc => hS.obeysLaw_of_condition hc.1 hc.2

/-- The alias "x" belongs to two plugins of a library and to one static plugin, and the name "p"
to one plugin of each kind. -/
def sharedAlias : Env :=
  twoLibraries
    (registrationsOf "p" p_ne ["I"] ["x"] ++ registrationsOf "q" q_ne ["I"] ["x"])
    [] (registrationsOf "r" (by decide) ["I"] ["x"] ++ registrationsOf "p" p_ne ["I"] ["y"])

def loadAmbiguous : List Op :=
  [.loadLib "a" false ⟨some 1, false⟩
    [pluginOf "p" p_ne ["I"] ["x"], pluginOf "q" q_ne ["I"] ["x"]]]

/-- The name that both registries know is resolved in the file registry. -/
theorem obeysLaw_loadAmbiguous :
    ObeysLaw sharedAlias (last init (history (step sharedAlias) init loadAmbiguous)) "p" :=
  (obeysLaw_iff sharedAlias ⟨_, history_run (step sharedAlias) init loadAmbiguous, rfl⟩ "p").mpr
    ⟨Or.inl (by decide), by decide⟩

/-- Three plugins have the alias "x", and it is resolved to the static one. -/
theorem not_obeysLaw_loadAmbiguous :
    ¬ ∀ w, Reachable (step sharedAlias) init w → ∀ s, ObeysLaw sharedAlias w s := by
  intro h
  have hlaw := h _ ⟨_, history_run (step sharedAlias) init loadAmbiguous, rfl⟩ "x"
  exact absurd hlaw.lookup (by decide)

end World

end GzPlugin
