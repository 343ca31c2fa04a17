import Mathlib.Data.Finset.Max
import Mathlib.Data.String.Basic
import GzPlugin.Info

/-!
# The registry of loaded plugins

The queries of `Registry` go through the virtual functions `AllPlugins` and `GetInfo`, so
they are defined once for a `RegistryView`, which both registries provide. The loops over
a `std::set` of aliases are folds whose body commutes with itself.
-/

namespace GzPlugin

open FiniteMaps

set_option autoImplicit false

variable {Code : Type}

/-- A `std::shared_ptr<const Info>`: the object it points to and its constant content. -/
structure ConstInfoPtr (Code : Type) where
  addr : Nat
  info : Info Code
  deriving DecidableEq

abbrev AliasMap := StringMap (Finset String)

namespace AliasMap

/-- The names listed under an alias; an absent entry and an empty one are read alike. -/
def names (m : AliasMap) (a : String) : Finset String := (m.lookup a).getD ∅

/-- `aliases[alias].insert(name)` -/
def insertName (name a : String) (m : AliasMap) : AliasMap :=
  m.insert a (insert name (m.names a))

/-- `aliases.at(alias).erase(name)`; the result is `none` once `at` has thrown. -/
def eraseName (name a : String) (m : Option AliasMap) : Option AliasMap :=
  m.bind fun m => (m.lookup a).map fun names => m.insert a (names.erase name)

theorem insertName_lookup (name a b : String) (m : AliasMap) :
    (insertName name a m).lookup b =
      if b = a then some (insert name (m.names a)) else m.lookup b :=
  lookup_insert_eq m a b _

instance (name : String) : LeftCommutative (insertName name) where
  left_comm a b m := by
    apply Finmap.ext_lookup
    intro c
    by_cases hab : a = b
    · subst hab; rfl
    simp only [insertName_lookup, names, hab, Ne.symm hab, if_false]
    by_cases hca : c = a
    · subst hca; simp [hab]
    · simp [hca]

instance (name : String) : LeftCommutative (eraseName name) where
  left_comm a b m := by
    cases m with
    | none => rfl
    | some m =>
      by_cases hab : a = b
      · subst hab; rfl
      cases ha : m.lookup a <;> cases hb : m.lookup b <;>
        simp [eraseName, ha, hb, Finmap.lookup_insert_of_ne, hab, Ne.symm hab,
          Finmap.insert_insert_of_ne]

/-- The loop of `AddInfo`. -/
def insertAll (m : AliasMap) (name : String) (aliases : Finset String) : AliasMap :=
  aliases.val.foldr (insertName name) m

/-- The loop of `ForgetInfo`. -/
def eraseAll (m : AliasMap) (name : String) (aliases : Finset String) : Option AliasMap :=
  aliases.val.foldr (eraseName name) (some m)

theorem foldr_insertName_lookup (m : AliasMap) (name : String) (s : Multiset String)
    (b : String) : (s.foldr (insertName name) m).lookup b =
      if b ∈ s then some (insert name (m.names b)) else m.lookup b := by
  induction s using Multiset.induction_on with
  | empty => simp
  | cons a s ih =>
    rw [Multiset.foldr_cons, insertName_lookup]
    by_cases hba : b = a
    · subst hba
      simp only [names, ih, Multiset.mem_cons, true_or, if_true]
      split <;> simp
    · simp [hba, ih]

theorem insertAll_lookup (m : AliasMap) (name : String) (aliases : Finset String) (b : String) :
    (m.insertAll name aliases).lookup b =
      if b ∈ aliases then some (insert name (m.names b)) else m.lookup b := by
  simpa only [insertAll, Finset.mem_val] using foldr_insertName_lookup m name aliases.val b

theorem mem_names_insertAll {m : AliasMap} {name n b : String} {aliases : Finset String} :
    n ∈ (m.insertAll name aliases).names b ↔ (b ∈ aliases ∧ n = name) ∨ n ∈ m.names b := by
  unfold names
  rw [insertAll_lookup]
  by_cases hb : b ∈ aliases <;> simp [hb, names]

theorem foldr_eraseName {m : AliasMap} (name : String) {s : Multiset String} (hnodup : s.Nodup)
    (h : ∀ a ∈ s, a ∈ m) : ∃ m', s.foldr (eraseName name) (some m) = some m' ∧
      ∀ b, m'.lookup b = if b ∈ s then (m.lookup b).map (·.erase name) else m.lookup b := by
  induction s using Multiset.induction_on with
  | empty => exact ⟨m, rfl, by simp⟩
  | cons a s ih =>
    rw [Multiset.nodup_cons] at hnodup
    obtain ⟨m', hm', hl⟩ := ih hnodup.2 fun b hb => h b (Multiset.mem_cons_of_mem hb)
    obtain ⟨ns, hns⟩ := Finmap.mem_iff.mp (h a (Multiset.mem_cons_self a s))
    have ha : m'.lookup a = some ns := by rw [hl, if_neg hnodup.1, hns]
    refine ⟨m'.insert a (ns.erase name), ?_, ?_⟩
    · rw [Multiset.foldr_cons, hm']
      simp [eraseName, ha]
    · intro b
      rw [lookup_insert_eq]
      by_cases hba : b = a
      · subst hba; simp [hns]
      · simp [hba, hl]

theorem eraseAll_eq_some {m : AliasMap} (name : String) {aliases : Finset String}
    (h : ∀ a ∈ aliases, a ∈ m) : ∃ m', m.eraseAll name aliases = some m' ∧
      ∀ b, m'.lookup b =
        if b ∈ aliases then (m.lookup b).map (·.erase name) else m.lookup b := by
  simpa only [eraseAll, Finset.mem_val] using foldr_eraseName name aliases.nodup h

end AliasMap

/-- What the queries of `Registry` see: the protected alias map and the two virtual
functions. -/
structure RegistryView (Code : Type) where
  aliases : AliasMap
  allPlugins : Finset String
  getInfo : String → Option (Info Code)

/-- `*names.begin()` of a set that is not empty. -/
def firstName (names : Finset String) : String := names.min.untopD ""

@[simp] theorem firstName_singleton (name : String) : firstName {name} = name := by
  simp [firstName]

namespace RegistryView

variable (v : RegistryView Code)

def interfacesImplemented : Finset String :=
  v.allPlugins.biUnion fun name =>
    match v.getInfo name with
    | none => ∅
    | some plugin => plugin.demangledInterfaces

/-- The test of `PluginsImplementing`. -/
def provides (plugin : Info Code) (interface : String) (demangled : Bool) : Bool :=
  if demangled then decide (interface ∈ plugin.demangledInterfaces)
  else decide (interface ∈ plugin.interfaces)

def pluginsImplementing (interface : String) (demangled : Bool) : Finset String :=
  v.allPlugins.biUnion fun name =>
    match v.getInfo name with
    | none => ∅
    | some plugin => if provides plugin interface demangled then {plugin.name} else ∅

def pluginsWithAlias (a : String) : Finset String :=
  let result := v.aliases.names a
  if (v.getInfo a).isSome then insert a result else result

def aliasesOfPlugin (pluginName : String) : Finset String :=
  match v.getInfo pluginName with
  | none => ∅
  | some plugin => plugin.aliases

def lookupPlugin (nameOrAlias : String) : String :=
  if (v.getInfo nameOrAlias).isSome then nameOrAlias
  else match v.aliases.lookup nameOrAlias with
    | none => ""
    | some names =>
      if names ≠ ∅ then
        if names.card = 1 then firstName names else ""
      else ""

/-- The listing and the look-up agree, and every `Info` is stored under its own name. -/
structure Coherent : Prop where
  all : ∀ name, name ∈ v.allPlugins ↔ (v.getInfo name).isSome
  named : ∀ {name info}, v.getInfo name = some info → info.name = name

variable {v}

theorem lookupPlugin_of_known {s : String} (h : (v.getInfo s).isSome) :
    v.lookupPlugin s = s := by
  simp [lookupPlugin, h]

theorem lookupPlugin_of_unknown {s : String} (h : v.getInfo s = none) :
    v.lookupPlugin s =
      if (v.aliases.names s).card = 1 then firstName (v.aliases.names s) else "" := by
  simp only [lookupPlugin, h, Option.isSome_none, Bool.false_eq_true, if_false]
  split
  · rename_i hl
    simp [AliasMap.names, hl]
  · rename_i names hl
    by_cases hn : names = ∅ <;> simp [AliasMap.names, hl, hn]

theorem lookupPlugin_cases (v : RegistryView Code) (s : String) :
    ((v.getInfo s).isSome ∧ v.lookupPlugin s = s) ∨
    (v.getInfo s = none ∧ ∃ name, v.aliases.names s = {name} ∧ v.lookupPlugin s = name) ∨
    (v.getInfo s = none ∧ (∀ name, v.aliases.names s ≠ {name}) ∧ v.lookupPlugin s = "") := by
  cases h : v.getInfo s with
  | some info => exact Or.inl ⟨rfl, lookupPlugin_of_known (by simp [h])⟩
  | none =>
    have hl := lookupPlugin_of_unknown h
    by_cases hc : (v.aliases.names s).card = 1
    · obtain ⟨name, hn⟩ := Finset.card_eq_one.mp hc
      rw [if_pos hc, hn, firstName_singleton] at hl
      exact Or.inr (Or.inl ⟨rfl, name, hn, hl⟩)
    · rw [if_neg hc] at hl
      refine Or.inr (Or.inr ⟨rfl, fun name hn => hc ?_, hl⟩)
      rw [hn, Finset.card_singleton]

theorem mem_pluginsWithAlias {a name : String} :
    name ∈ v.pluginsWithAlias a ↔
      name ∈ v.aliases.names a ∨ (name = a ∧ (v.getInfo a).isSome) := by
  unfold pluginsWithAlias
  by_cases h : (v.getInfo a).isSome = true
  · simp only [h, if_true, Finset.mem_insert, and_true]
    exact or_comm
  · simp [h]

theorem mem_aliasesOfPlugin {a name : String} :
    a ∈ v.aliasesOfPlugin name ↔ ∃ info, v.getInfo name = some info ∧ a ∈ info.aliases := by
  unfold aliasesOfPlugin
  cases v.getInfo name <;> simp

theorem Coherent.mem_interfacesImplemented (h : v.Coherent) {interface : String} :
    interface ∈ v.interfacesImplemented ↔
      ∃ name info, v.getInfo name = some info ∧ interface ∈ info.demangledInterfaces := by
  simp only [interfacesImplemented, Finset.mem_biUnion]
  constructor
  · rintro ⟨name, _, hi⟩
    cases hg : v.getInfo name with
    | none => simp [hg] at hi
    | some info => exact ⟨name, info, hg, by simpa [hg] using hi⟩
  · rintro ⟨name, info, hg, hi⟩
    exact ⟨name, (h.all name).mpr (by simp [hg]), by simpa [hg] using hi⟩

theorem Coherent.mem_pluginsImplementing (h : v.Coherent) {interface name : String}
    {demangled : Bool} : name ∈ v.pluginsImplementing interface demangled ↔
      ∃ info, v.getInfo name = some info ∧ provides info interface demangled := by
  simp only [pluginsImplementing, Finset.mem_biUnion]
  constructor
  · rintro ⟨n, _, hi⟩
    cases hg : v.getInfo n with
    | none => simp [hg] at hi
    | some info =>
      simp only [hg] at hi
      split at hi
      · have hname : name = info.name := Finset.mem_singleton.mp hi
        rw [hname, h.named hg]
        exact ⟨info, hg, ‹_›⟩
      · simp at hi
  · rintro ⟨info, hg, hp⟩
    exact ⟨name, (h.all name).mpr (by simp [hg]), by simp [hg, hp, h.named hg]⟩

end RegistryView

/-- The data of `Registry`. -/
structure Registry (Code : Type) where
  aliases : AliasMap
  plugins : StringMap (ConstInfoPtr Code)

namespace Registry

def empty : Registry Code := ⟨∅, ∅⟩

/-- `Registry::GetInfo` -/
def getInfo (r : Registry Code) (pluginName : String) : Option (ConstInfoPtr Code) :=
  r.plugins.lookup pluginName

def view (r : Registry Code) : RegistryView Code where
  aliases := r.aliases
  allPlugins := r.plugins.keys
  getInfo name := (r.getInfo name).map (·.info)

/-- `Registry::AddInfo`; the argument is the object that `make_shared` creates, and the
second result tells whether it was stored. -/
def addInfo (r : Registry Code) (ptr : ConstInfoPtr Code) : Registry Code × Bool :=
  let aliases := r.aliases.insertAll ptr.info.name ptr.info.aliases
  (⟨aliases, insertNew ptr.info.name ptr r.plugins⟩, decide (ptr.info.name ∉ r.plugins))

/-- `Registry::ForgetInfo`; the result is `none` if `aliases.at` throws. -/
def forgetInfo (r : Registry Code) (pluginName : String) : Option (Registry Code) :=
  match r.getInfo pluginName with
  | none => some r
  | some ptr =>
    (r.aliases.eraseAll ptr.info.name ptr.info.aliases).map fun aliases =>
      ⟨aliases, r.plugins.erase pluginName⟩

@[simp] theorem view_aliases (r : Registry Code) : r.view.aliases = r.aliases := rfl

theorem view_getInfo (r : Registry Code) (name : String) :
    r.view.getInfo name = (r.plugins.lookup name).map (·.info) := rfl

theorem mem_view_allPlugins {r : Registry Code} {name : String} :
    name ∈ r.view.allPlugins ↔ name ∈ r.plugins := Finmap.mem_keys

theorem addInfo_plugins (r : Registry Code) (ptr : ConstInfoPtr Code) (name : String) :
    (r.addInfo ptr).1.plugins.lookup name =
      if name = ptr.info.name ∧ ptr.info.name ∉ r.plugins then some ptr
      else r.plugins.lookup name :=
  lookup_insertNew _ _ _ _

theorem mem_addInfo_plugins {r : Registry Code} {ptr : ConstInfoPtr Code} {name : String} :
    name ∈ (r.addInfo ptr).1.plugins ↔ name = ptr.info.name ∨ name ∈ r.plugins :=
  mem_insertNew

theorem mem_addInfo_names {r : Registry Code} {ptr : ConstInfoPtr Code} {a name : String} :
    name ∈ (r.addInfo ptr).1.aliases.names a ↔
      (a ∈ ptr.info.aliases ∧ name = ptr.info.name) ∨ name ∈ r.aliases.names a :=
  AliasMap.mem_names_insertAll

/-- What every sequence of `AddInfo` and `ForgetInfo` keeps: an `Info` is stored under its
own name, and all its aliases have an entry that lists it. -/
structure WellFormed (r : Registry Code) : Prop where
  named : ∀ {name ptr}, r.plugins.lookup name = some ptr → ptr.info.name = name
  listed : ∀ {name ptr a}, r.plugins.lookup name = some ptr → a ∈ ptr.info.aliases →
    name ∈ r.aliases.names a

theorem empty_wellFormed : (empty : Registry Code).WellFormed where
  named h := by simp [empty] at h
  listed h := by simp [empty] at h

theorem WellFormed.coherent {r : Registry Code} (h : r.WellFormed) : r.view.Coherent where
  all name := by
    rw [mem_view_allPlugins, view_getInfo, ← Finmap.lookup_isSome, Option.isSome_map]
  named {name info} hi := by
    rw [view_getInfo, Option.map_eq_some_iff] at hi
    obtain ⟨ptr, hp, rfl⟩ := hi
    exact h.named hp

theorem addInfo_wellFormed {r : Registry Code} (h : r.WellFormed) (ptr : ConstInfoPtr Code) :
    (r.addInfo ptr).1.WellFormed where
  named {name q} hq := by
    rw [addInfo_plugins] at hq
    split at hq
    · rename_i hn
      cases hq
      exact hn.1.symm
    · exact h.named hq
  listed {name q a} hq ha := by
    rw [addInfo_plugins] at hq
    rw [mem_addInfo_names]
    split at hq
    · rename_i hn
      cases hq
      exact Or.inl ⟨ha, hn.1⟩
    · exact Or.inr (h.listed hq ha)

theorem mem_of_mem_names {m : AliasMap} {a name : String} (h : name ∈ m.names a) : a ∈ m := by
  unfold AliasMap.names at h
  cases hl : m.lookup a with
  | none => simp [hl] at h
  | some ns => exact Finmap.mem_of_lookup_eq_some hl

/-- On a well-formed registry `at` does not throw; the name and its aliases are gone. -/
theorem WellFormed.forgetInfo {r : Registry Code} (h : r.WellFormed) (pluginName : String) :
    ∃ r', r.forgetInfo pluginName = some r' ∧
      (∀ name, r'.plugins.lookup name =
        if name = pluginName then none else r.plugins.lookup name) ∧
      ∀ a name, name ∈ r'.aliases.names a ↔ name ∈ r.aliases.names a ∧
        ¬ (name = pluginName ∧
          ∃ ptr, r.plugins.lookup pluginName = some ptr ∧ a ∈ ptr.info.aliases) := by
  cases hg : r.plugins.lookup pluginName with
  | none =>
    refine ⟨r, by simp [Registry.forgetInfo, getInfo, hg], fun name => ?_, by simp⟩
    split
    · rename_i hn; rw [hn, hg]
    · rfl
  | some ptr =>
    have hname := h.named hg
    obtain ⟨m', hm', hl⟩ := AliasMap.eraseAll_eq_some (m := r.aliases) ptr.info.name
      fun a ha => mem_of_mem_names (h.listed hg ha)
    refine ⟨⟨m', r.plugins.erase pluginName⟩, ?_, ?_, ?_⟩
    · simp [Registry.forgetInfo, getInfo, hg, hm']
    · intro name
      exact lookup_erase_eq _ _ _
    · intro a name
      simp only [AliasMap.names, hl, hname]
      by_cases ha : a ∈ ptr.info.aliases
      · cases r.aliases.lookup a <;> simp [ha, and_comm]
      · simp [ha]

theorem WellFormed.of_forgetInfo {r r' : Registry Code} (h : r.WellFormed) {pluginName : String}
    (hf : r.forgetInfo pluginName = some r') : r'.WellFormed := by
  obtain ⟨r'', hr'', hp, ha⟩ := h.forgetInfo pluginName
  rw [hf] at hr''
  cases hr''
  constructor
  · intro name ptr hn
    rw [hp] at hn
    split at hn
    · cases hn
    · exact h.named hn
  · intro name ptr a hn hm
    rw [hp] at hn
    split at hn
    · cases hn
    · rename_i hne
      exact (ha a name).mpr ⟨h.listed hn hm, fun hh => hne hh.1⟩

end Registry

end GzPlugin
