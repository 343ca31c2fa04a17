import GzPlugin.Runs
import GzPlugin.StaticRegistry

/-!
# The two copies of the alias relation

Both registries keep the aliases of a plugin in its `Info` and, the other way round, in the
alias map. The copies of a `StaticRegistry` always agree. Those of a `Registry` come apart
through calls of `AddInfo` that are rejected.
-/

namespace GzPlugin

open FiniteMaps Runs

set_option autoImplicit false

variable {Code : Type}

namespace Registry

/-- The calls that change a registry. -/
inductive Call (Code : Type) where
  | addInfo (ptr : ConstInfoPtr Code)
  | forgetInfo (pluginName : String)

/-- A call that throws has no outcome. -/
def step (r : Registry Code) : Call Code → Option (Registry Code)
  | .addInfo ptr => some (r.addInfo ptr).1
  | .forgetInfo pluginName => r.forgetInfo pluginName

/-- `PluginsWithAlias` and `LookupPlugin` answer as `AliasesOfPlugin` does. -/
structure Dual (r : Registry Code) : Prop where
  plugins : ∀ name a, name ∈ r.view.pluginsWithAlias a ↔
    (r.getInfo name).isSome ∧ (a ∈ r.view.aliasesOfPlugin name ∨ a = name)
  lookupKnown : ∀ s, (r.getInfo s).isSome → r.view.lookupPlugin s = s
  lookupUnique : ∀ s name, r.getInfo s = none →
    (∀ other, s ∈ r.view.aliasesOfPlugin other ↔ other = name) → r.view.lookupPlugin s = name
  lookupOther : ∀ s, r.getInfo s = none →
    (∀ name, ¬ ∀ other, s ∈ r.view.aliasesOfPlugin other ↔ other = name) →
    r.view.lookupPlugin s = ""

/-- A rejected `Info` brings no alias that the stored one lacks, other than the name of the
plugin, and a plugin that is forgotten is not listed under its own name on account of such
an `Info`. -/
def KeepsAliases (r : Registry Code) : Call Code → Prop
  | .addInfo ptr => ∀ stored ∈ r.getInfo ptr.info.name, ∀ a ∈ ptr.info.aliases,
      a ∈ stored.info.aliases ∨ a = ptr.info.name
  | .forgetInfo pluginName => ∀ stored ∈ r.getInfo pluginName,
      pluginName ∈ r.aliases.names pluginName → pluginName ∈ stored.info.aliases

instance (r : Registry Code) (call : Call Code) : Decidable (r.KeepsAliases call) := by
  cases call <;> unfold KeepsAliases <;> infer_instance

/-- What the alias map lists is a known plugin with that alias. -/
def Listed (r : Registry Code) : Prop :=
  ∀ name a, name ∈ r.aliases.names a →
    ∃ ptr, r.getInfo name = some ptr ∧ (a ∈ ptr.info.aliases ∨ a = name)

variable {r r' : Registry Code}

theorem mem_aliasesOfPlugin {name a : String} : a ∈ r.view.aliasesOfPlugin name ↔
    ∃ ptr, r.getInfo name = some ptr ∧ a ∈ ptr.info.aliases := by
  rw [RegistryView.mem_aliasesOfPlugin]
  constructor
  · rintro ⟨info, hi, ha⟩
    obtain ⟨ptr, hptr, rfl⟩ := Option.map_eq_some_iff.mp hi
    exact ⟨ptr, hptr, ha⟩
  · rintro ⟨ptr, hptr, ha⟩
    exact ⟨ptr.info, Option.map_eq_some_iff.mpr ⟨ptr, hptr, rfl⟩, ha⟩

theorem view_getInfo_isSome {name : String} :
    (r.view.getInfo name).isSome ↔ (r.getInfo name).isSome := by
  change ((r.getInfo name).map _).isSome ↔ _
  rw [Option.isSome_map]

theorem Listed.mem_names_iff (h : r.Listed) (hw : r.WellFormed) {s : String}
    (hs : r.getInfo s = none) {name : String} :
    name ∈ r.aliases.names s ↔ s ∈ r.view.aliasesOfPlugin name := by
  rw [mem_aliasesOfPlugin]
  constructor
  · intro hn
    obtain ⟨ptr, hptr, ha | rfl⟩ := h name s hn
    · exact ⟨ptr, hptr, ha⟩
    · rw [hs] at hptr
      cases hptr
  · rintro ⟨ptr, hptr, ha⟩
    exact hw.listed hptr ha

theorem WellFormed.dual_iff (h : r.WellFormed) : r.Dual ↔ r.Listed := by
  constructor
  · intro hd name a hn
    have hmem : name ∈ r.view.pluginsWithAlias a :=
      RegistryView.mem_pluginsWithAlias.mpr (Or.inl hn)
    obtain ⟨hknown, ha⟩ := (hd.plugins name a).mp hmem
    obtain ⟨ptr, hptr⟩ := Option.isSome_iff_exists.mp hknown
    refine ⟨ptr, hptr, ha.imp_left fun ha => ?_⟩
    obtain ⟨ptr', hptr', ha⟩ := mem_aliasesOfPlugin.mp ha
    rw [hptr] at hptr'
    cases hptr'
    exact ha
  · intro hl
    have hcases := RegistryView.lookupPlugin_cases r.view
    constructor
    · intro name a
      rw [RegistryView.mem_pluginsWithAlias, view_getInfo_isSome, mem_aliasesOfPlugin]
      constructor
      · rintro (hn | ⟨rfl, hknown⟩)
        · obtain ⟨ptr, hptr, ha⟩ := hl name a hn
          exact ⟨Option.isSome_iff_exists.mpr ⟨ptr, hptr⟩, ha.imp_left fun ha => ⟨ptr, hptr, ha⟩⟩
        · exact ⟨hknown, Or.inr rfl⟩
      · rintro ⟨hknown, ⟨ptr, hptr, ha⟩ | rfl⟩
        · exact Or.inl (h.listed hptr ha)
        · exact Or.inr ⟨rfl, hknown⟩
    · intro s hs
      exact RegistryView.lookupPlugin_of_known (view_getInfo_isSome.mpr hs)
    · intro s name hs hone
      have hset : r.view.aliases.names s = {name} := by
        ext other
        rw [Finset.mem_singleton, ← hone]
        exact hl.mem_names_iff h hs
      have hnone : r.view.getInfo s = none := by
        change (r.getInfo s).map _ = none
        rw [hs, Option.map_none]
      rw [RegistryView.lookupPlugin_of_unknown hnone, hset, Finset.card_singleton, if_pos rfl,
        firstName_singleton]
    · intro s hs hnot
      rcases hcases s with ⟨hk, _⟩ | ⟨_, name, hn, _⟩ | ⟨_, _, he⟩
      · rw [view_getInfo_isSome, hs] at hk
        cases hk
      · refine absurd (fun other => ?_) (hnot name)
        rw [← hl.mem_names_iff h hs, ← view_aliases, hn, Finset.mem_singleton]
      · exact he

/-! ### Calls -/

theorem Listed.addInfo_iff (h : r.Listed) (ptr : ConstInfoPtr Code) :
    (r.addInfo ptr).1.Listed ↔ r.KeepsAliases (.addInfo ptr) := by
  have hget : ∀ name, (r.addInfo ptr).1.getInfo name =
      if name = ptr.info.name ∧ ptr.info.name ∉ r.plugins then some ptr
      else r.getInfo name := addInfo_plugins r ptr
  constructor
  · intro hl stored hstored a ha
    have hknown : ptr.info.name ∈ r.plugins := Finmap.mem_of_lookup_eq_some hstored
    have hn := mem_addInfo_names (r := r).mpr (Or.inl ⟨ha, rfl⟩)
    obtain ⟨ptr', hptr', hor⟩ := hl ptr.info.name a hn
    rw [hget, if_neg fun hh => hh.2 hknown] at hptr'
    rw [Option.mem_def, hptr'] at hstored
    cases hstored
    exact hor
  · intro hk name a hn
    rw [hget]
    rcases mem_addInfo_names.mp hn with ⟨ha, rfl⟩ | hold
    · cases hstored : r.getInfo ptr.info.name with
      | none =>
        rw [if_pos ⟨rfl, Finmap.lookup_eq_none.mp hstored⟩]
        exact ⟨ptr, rfl, Or.inl ha⟩
      | some stored =>
        rw [if_neg fun hh => hh.2 (Finmap.mem_of_lookup_eq_some hstored)]
        exact ⟨stored, rfl, hk stored hstored a ha⟩
    · obtain ⟨stored, hstored, hor⟩ := h name a hold
      refine ⟨stored, ?_, hor⟩
      rw [if_neg, hstored]
      rintro ⟨rfl, hnew⟩
      exact hnew (Finmap.mem_of_lookup_eq_some hstored)

theorem Listed.forgetInfo_iff (h : r.Listed) (hw : r.WellFormed) {pluginName : String}
    (hf : r.forgetInfo pluginName = some r') :
    r'.Listed ↔ r.KeepsAliases (.forgetInfo pluginName) := by
  obtain ⟨r'', hr'', hplugins, hnames⟩ := hw.forgetInfo pluginName
  rw [hf] at hr''
  cases hr''
  have hget : ∀ name, r'.getInfo name = if name = pluginName then none else r.getInfo name :=
    hplugins
  constructor
  · intro hl stored hstored hn
    by_contra hnot
    -- The listing would survive the plugin.
    have hleft : pluginName ∈ r'.aliases.names pluginName := by
      refine (hnames _ _).mpr ⟨hn, fun ⟨_, ptr, hptr, ha⟩ => hnot ?_⟩
      rw [Option.mem_def, getInfo, hptr] at hstored
      cases hstored
      exact ha
    obtain ⟨ptr, hptr, _⟩ := hl _ _ hleft
    rw [hget, if_pos rfl] at hptr
    cases hptr
  · intro hk name a hn
    obtain ⟨hold, hnot⟩ := (hnames a name).mp hn
    obtain ⟨ptr, hptr, hor⟩ := h name a hold
    rw [hget, if_neg]
    · exact ⟨ptr, hptr, hor⟩
    · rintro rfl
      refine hnot ⟨rfl, ptr, hptr, hor.elim id ?_⟩
      rintro rfl
      exact hk ptr hptr hold

theorem step_wellFormed {call : Call Code} (h : r.WellFormed) (hs : r.step call = some r') :
    r'.WellFormed := by
  cases call with
  | addInfo ptr =>
    cases hs
    exact addInfo_wellFormed h ptr
  | forgetInfo pluginName => exact h.of_forgetInfo hs

theorem WellFormed.step_isSome (h : r.WellFormed) (call : Call Code) :
    ∃ r', r.step call = some r' := by
  cases call with
  | addInfo ptr => exact ⟨_, rfl⟩
  | forgetInfo pluginName =>
    obtain ⟨r', hr', _⟩ := h.forgetInfo pluginName
    exact ⟨r', hr'⟩

theorem WellFormed.history_length (h : r.WellFormed) (calls : List (Call Code)) :
    (history step r calls).length = calls.length := by
  induction calls generalizing r with
  | nil => rfl
  | cons call calls ih =>
    obtain ⟨r', hr'⟩ := h.step_isSome call
    simp only [history, hr', List.length_cons]
    rw [ih (step_wellFormed h hr')]

/-- A call keeps the registry dual exactly if it keeps the aliases. -/
theorem Dual.step_iff {call : Call Code} (hd : r.Dual) (h : r.WellFormed)
    (hs : r.step call = some r') : r'.Dual ↔ r.KeepsAliases call := by
  have hl := h.dual_iff.mp hd
  rw [(step_wellFormed h hs).dual_iff]
  cases call with
  | addInfo ptr =>
    cases hs
    exact hl.addInfo_iff ptr
  | forgetInfo pluginName => exact hl.forgetInfo_iff h hs

theorem empty_dual : (empty : Registry Code).Dual := by
  rw [empty_wellFormed.dual_iff]
  intro name a hn
  simp [empty, AliasMap.names] at hn

/-- No sequence of `AddInfo` and `ForgetInfo` throws, and the two copies of the alias relation
agree after each call if and only if every call keeps the aliases. -/
theorem dual_iff_keepsAliases (calls : List (Call Code)) :
    (history step empty calls).length = calls.length ∧
    (States Dual (empty : Registry Code) (history step empty calls) ↔
      Steps KeepsAliases empty (history step empty calls)) := by
  refine ⟨empty_wellFormed.history_length calls, ?_⟩
  exact (history_run step empty calls).states_iff empty_wellFormed empty_dual
    (fun h hs => step_wellFormed h hs) fun h hd hs => hd.step_iff h hs

def aliased (aliases : Finset String) : ConstInfoPtr Nat :=
  ⟨0, ⟨"p", aliases, ∅, ∅, 0, 0⟩⟩

/-- The second `Info` is rejected, but the plugin is listed under its alias. -/
theorem not_dual_rejected : ¬ ∀ calls : List (Call Nat),
    States Dual empty (history step empty calls) := by
  intro h
  have hdual := (h [.addInfo (aliased ∅), .addInfo (aliased {"x"})]).last
  exact absurd ((hdual.plugins "p" "x").mp (by decide)) (by decide)

end Registry

/-- The later `Info` has everything that the earlier one has, with the same functions. -/
structure Info.KeptIn (info info' : Info Code) : Prop where
  aliases : info.aliases ⊆ info'.aliases
  interfaces : ∀ {interface f}, info.interfaces.lookup interface = some f →
    info'.interfaces.lookup interface = some f
  factory : info'.factory = info.factory
  deleter : info'.deleter = info.deleter

namespace StaticRegistry

variable {demangle : String → String} {r r' r'' : StaticRegistry Code}

/-- The copies agree, and whatever `LookupPlugin` finds is registered. -/
structure Represented (demangle : String → String) (r : StaticRegistry Code) : Prop extends
    r.WellFormed demangle where
  lookup : ∀ s, r.view.lookupPlugin s = "" ∨ (r.view.getInfo (r.view.lookupPlugin s)).isSome

/-- Nothing recorded in `r` is removed or replaced in `r'`. -/
structure Keeps (r r' : StaticRegistry Code) : Prop where
  listed : ∀ {name a}, name ∈ r.aliases.names a → name ∈ r'.aliases.names a
  infos : ∀ {name info}, r.infos.lookup name = some info →
    ∃ info', r'.infos.lookup name = some info' ∧ info.KeptIn info'

theorem Keeps.refl (r : StaticRegistry Code) : Keeps r r :=
  ⟨id, fun {_ info} hi => ⟨info, hi, Finset.Subset.refl _, id, rfl, rfl⟩⟩

theorem Keeps.trans (h : Keeps r r') (h' : Keeps r' r'') : Keeps r r'' where
  listed hn := h'.listed (h.listed hn)
  infos hi := by
    obtain ⟨info', hi', hk⟩ := h.infos hi
    obtain ⟨info'', hi'', hk'⟩ := h'.infos hi'
    exact ⟨info'', hi'', hk.aliases.trans hk'.aliases, fun hf => hk'.interfaces (hk.interfaces hf),
      hk'.factory.trans hk.factory, hk'.deleter.trans hk.deleter⟩

theorem addEntry_keptIn (entry info : Info Code) :
    entry.KeptIn (addEntry demangle (some entry) info) where
  aliases := Finset.subset_union_left
  interfaces hf := by
    rw [addEntry, lookup_union, hf, Option.some_or]
  factory := rfl
  deleter := rfl

theorem addInfo_keeps (r : StaticRegistry Code) (info : Info Code) :
    Keeps r (r.addInfo demangle info) where
  listed hn := AliasMap.mem_names_insertAll.mpr (Or.inr hn)
  infos {name entry} he := by
    simp only [addInfo, lookup_insert_eq]
    split
    · rename_i hn
      rw [← hn, he]
      exact ⟨_, rfl, addEntry_keptIn entry info⟩
    · exact (Keeps.refl r).infos he

theorem addInfos_keeps (r : StaticRegistry Code) (infos : List (Info Code)) :
    Keeps r (infos.foldl (addInfo demangle) r) := by
  induction infos generalizing r with
  | nil => exact Keeps.refl r
  | cons info infos ih => exact (addInfo_keeps r info).trans (ih _)

theorem WellFormed.lookupPlugin_known (h : r.WellFormed demangle) (s : String) :
    r.view.lookupPlugin s = "" ∨ (r.view.getInfo (r.view.lookupPlugin s)).isSome := by
  rcases RegistryView.lookupPlugin_cases r.view s with ⟨hk, he⟩ | ⟨_, name, hn, he⟩ | ⟨_, _, he⟩
  · rw [he]
    exact Or.inr hk
  · have hmem : name ∈ r.aliases.names s := by
      change name ∈ r.view.aliases.names s
      rw [hn]
      exact Finset.mem_singleton_self name
    rw [he]
    exact Or.inr (h.known hmem)
  · exact Or.inl he

/-- After any sequence of registrations the static registry is in order, and it has kept
whatever was in it after the first ones of them. -/
theorem registrations_represented (demangle : String → String) {infos : List (Info Code)}
    (h : ∀ i ∈ infos, i.demangledInterfaces = ∅) :
    (registrations demangle infos).Represented demangle ∧
    ∀ earlier later, infos = earlier ++ later →
      (registrations demangle earlier).Keeps (registrations demangle infos) := by
  have hw : (registrations demangle infos).WellFormed demangle := registrations_wellFormed h
  refine ⟨⟨hw, hw.lookupPlugin_known⟩, ?_⟩
  rintro earlier later rfl
  rw [registrations, registrations, List.foldl_append]
  exact addInfos_keeps _ later

/-- An alias, an interface and both at once, for one class. -/
theorem registrations_represented_merged :
    (registrations id [(⟨"p", {"x"}, ∅, ∅, 0, 1⟩ : Info Nat),
      ⟨"p", ∅, Finmap.singleton "I" 2, ∅, 0, 1⟩,
      ⟨"p", {"y"}, Finmap.singleton "I" 3, ∅, 4, 5⟩]).Represented id :=
  (registrations_represented id (by decide)).1

end StaticRegistry

end GzPlugin
