import Mathlib.Order.Basic
import GzPlugin.Effects

/-!
# What loading does to the meaning of a name in the file registry

The plugins of a new library may claim names and aliases that were in use before. A string
can thereby come to stand for more and more, up to the name of a plugin, but among the plugins
loaded from files it is never passed on from one to another one. Where it becomes ambiguous
there, `LookupPlugin` goes on to the static plugins.
-/

namespace GzPlugin

open FiniteMaps Runs

set_option autoImplicit false

/-- What a string stands for in a registry: nothing, the only plugin that is listed under it,
several of those, or the plugin of that name. -/
inductive Standing where
  | unlisted
  | aliasOf (name : String)
  | ambiguous
  | ownName
  deriving DecidableEq

namespace Standing

/-- The later standing claims at least as much. -/
inductive Le : Standing → Standing → Prop where
  | refl (x : Standing) : Le x x
  | unlisted (x : Standing) : Le unlisted x
  | aliasOf (name : String) : Le (aliasOf name) ambiguous
  | ownName (x : Standing) : Le x ownName

instance : PartialOrder Standing where
  le := Le
  le_refl := .refl
  le_trans x y z hxy hyz := by
    cases hxy with
    | refl => exact hyz
    | unlisted => exact .unlisted z
    | aliasOf name =>
      cases hyz with
      | refl => exact .aliasOf name
      | ownName => exact .ownName _
    | ownName =>
      cases hyz with
      | refl => exact .ownName x
      | ownName => exact .ownName x
  le_antisymm x y hxy hyx := by
    cases hxy with
    | refl => rfl
    | unlisted =>
      cases hyx
      · rfl
      · rfl
    | aliasOf name => cases hyx
    | ownName =>
      cases hyx
      · rfl
      · rfl

/-- The plugin that the string leads to, or the empty string. -/
def resolve (s : String) : Standing → String
  | unlisted => ""
  | aliasOf name => name
  | ambiguous => ""
  | ownName => s

/-- The standing of a string under which these plugins are listed. -/
def ofNames (names : Finset String) : Standing :=
  if names = ∅ then unlisted
  else if names.card = 1 then aliasOf (firstName names)
  else ambiguous

theorem ofNames_mono {names names' : Finset String} (h : names ⊆ names') :
    ofNames names ≤ ofNames names' := by
  by_cases hempty : names = ∅
  · rw [ofNames, if_pos hempty]
    exact .unlisted _
  have hpos : 0 < names.card := Finset.card_pos.mpr (Finset.nonempty_of_ne_empty hempty)
  have hcard : names.card ≤ names'.card := Finset.card_le_card h
  have hempty' : names' ≠ ∅ := by
    rintro rfl
    exact hempty (Finset.subset_empty.mp h)
  rw [ofNames, ofNames, if_neg hempty, if_neg hempty']
  by_cases hone' : names'.card = 1
  · have hsame : names = names' := Finset.eq_of_subset_of_card_le h (by omega)
    rw [hsame]
  · rw [if_neg hone']
    split
    · exact .aliasOf _
    · exact le_refl ambiguous

end Standing

namespace World

variable {env : Env} {w w' : World} {s : String}

/-- What a string stands for among the plugins loaded from files. -/
def standing (w : World) (s : String) : Standing :=
  if s ∈ w.impl.filePlugins.plugins then .ownName
  else .ofNames (w.impl.filePlugins.aliases.names s)

theorem lookupFilePlugin_eq_resolve (w : World) (s : String) :
    w.lookupFilePlugin s = (w.standing s).resolve s := by
  unfold lookupFilePlugin standing
  by_cases hs : s ∈ w.impl.filePlugins.plugins
  · rw [if_pos hs]
    apply RegistryView.lookupPlugin_of_known
    rwa [Registry.view_getInfo, Option.isSome_map, Finmap.lookup_isSome]
  · have hnone : w.impl.filePlugins.view.getInfo s = none := by
      rw [Registry.view_getInfo, Finmap.lookup_eq_none.mpr hs, Option.map_none]
    rw [if_neg hs, RegistryView.lookupPlugin_of_unknown hnone, Standing.ofNames]
    change (if (w.impl.filePlugins.aliases.names s).card = 1 then _ else _) = _
    by_cases hempty : w.impl.filePlugins.aliases.names s = ∅
    · rw [if_pos hempty, hempty]
      rfl
    · rw [if_neg hempty]
      split
      · rfl
      · rfl

/-- The operation forgets no plugin, and the Loader stays. -/
def ForgetsNothing (env : Env) (w : World) (op : Op) : Prop :=
  w.forgottenNames env op = none ∧ ∀ order, op ≠ .destroyLoader order

theorem standing_mono (hknown : s ∈ w.impl.filePlugins.plugins → s ∈ w'.impl.filePlugins.plugins)
    (hlisted : w.impl.filePlugins.aliases.names s ⊆ w'.impl.filePlugins.aliases.names s) :
    w.standing s ≤ w'.standing s := by
  unfold standing
  by_cases hs' : s ∈ w'.impl.filePlugins.plugins
  · rw [if_pos hs']
    exact .ownName _
  · rw [if_neg hs', if_neg (mt hknown hs')]
    exact Standing.ofNames_mono hlisted

theorem step_standing_le {op : Op} (h : Sound env w) (hop : ForgetsNothing env w op)
    (hs : step env w op = some w') (s : String) : w.standing s ≤ w'.standing s := by
  cases (step_sound h hs).2 with
  | loaded lib hp infos _ hl =>
    refine standing_mono (fun hm => hl.added.known.mpr (Or.inl hm)) fun name hn => ?_
    exact hl.added.listed.mpr (Or.inl hn)
  | forgot hd names hforget hf =>
    have hnone := hop.1
    rw [forgottenNames, hforget, Option.bind_some, hf.known] at hnone
    cases hnone
  | kept _ _ hq =>
    unfold standing
    rw [hq.impl]
  | destroyed _ _ _ => exact absurd rfl (hop.2 _)

/-- A string that leads to a plugin is not passed on to another one. -/
theorem lookup_of_standing_le (h : w.standing s ≤ w'.standing s) (hne : w.lookupFilePlugin s ≠ "") :
    w'.lookupFilePlugin s = w.lookupFilePlugin s ∨
      (w'.standing s = .ambiguous ∧ w'.lookupFilePlugin s = "") ∨
      w'.standing s = .ownName ∧ w'.lookupFilePlugin s = s := by
  rw [lookupFilePlugin_eq_resolve] at hne
  simp only [lookupFilePlugin_eq_resolve]
  generalize w.standing s = x at h hne ⊢
  generalize w'.standing s = y at h ⊢
  cases h with
  | refl => exact Or.inl rfl
  | unlisted => exact absurd rfl hne
  | aliasOf name => exact Or.inr (Or.inl ⟨rfl, rfl⟩)
  | ownName => exact Or.inr (Or.inr ⟨rfl, rfl⟩)

/-- While nothing is forgotten, whatever else is loaded or instantiated, a string leads in the
file registry to the plugin that it led to before, or it has become ambiguous there, or a plugin
bears it as its name; and once it is ambiguous, only a plugin of that name can change it. -/
theorem standing_le_of_forgetsNothing (env : Env) (hw : Reachable (step env) init w)
    {l : List (Op × World)} (hrun : Run (step env) w l) (hl : Steps (ForgetsNothing env) w l)
    (s : String) : w.standing s ≤ (last w l).standing s ∧ (w.lookupFilePlugin s ≠ "" →
      (last w l).lookupFilePlugin s = w.lookupFilePlugin s ∨
        ((last w l).standing s = .ambiguous ∧ (last w l).lookupFilePlugin s = "") ∨
        (last w l).standing s = .ownName ∧ (last w l).lookupFilePlugin s = s) := by
  have hstates : States (fun v => Sound env v ∧ w.standing s ≤ v.standing s) w l :=
    hrun.states hl ⟨reachable_sound hw, le_refl _⟩ fun hop h hs =>
      ⟨(step_sound h.1 hs).1, h.2.trans (step_standing_le h.1 hop hs s)⟩
  exact ⟨hstates.last.2, lookup_of_standing_le hstates.last.2⟩

/-- Two libraries that export different plugins under one alias. -/
def oneAlias : Env :=
  twoLibraries (registrationsOf "p" p_ne ["I"] ["x"]) (registrationsOf "q" q_ne ["I"] ["x"]) []

def firstLoaded : World :=
  init.after oneAlias (.loadLib "a" false ⟨some 1, false⟩ [pluginOf "p" p_ne ["I"] ["x"]])

def loadSecond : List Op :=
  [.loadLib "b" false ⟨some 2, false⟩ [pluginOf "q" q_ne ["I"] ["x"]]]

theorem standing_le_firstLoaded : firstLoaded.standing "x" ≤
    (last firstLoaded (history (step oneAlias) firstLoaded loadSecond)).standing "x" := by
  have hfirst : Reachable (step oneAlias) init firstLoaded :=
    ⟨[(_, firstLoaded)], .cons (step_eq_some.mpr ⟨by decide, rfl⟩) (.nil firstLoaded), rfl⟩
  have hsteps : Steps (ForgetsNothing oneAlias) firstLoaded
      (history (step oneAlias) firstLoaded loadSecond) := ⟨⟨by decide, nofun⟩, trivial⟩
  exact (standing_le_of_forgetsNothing oneAlias hfirst (history_run _ firstLoaded loadSecond)
    hsteps "x").1

/-- There it goes from the alias of one plugin to that of two. -/
example : firstLoaded.standing "x" = .aliasOf "p" ∧
    (last firstLoaded (history (step oneAlias) firstLoaded loadSecond)).standing "x" =
      .ambiguous := by decide

end World

end GzPlugin
