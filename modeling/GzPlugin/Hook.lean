import GzPlugin.Info

/-!
# The hook of a plugin library

`GzPluginHook` accumulates the registrations of one library in a static map and hands the
map over to a Loader after comparing version, size and alignment. `loadPlugins` is the
Loader's side of the handshake.
-/

namespace GzPlugin

open FiniteMaps

set_option autoImplicit false

variable {Code : Type}

/-- The out parameters of `GzPluginHook`. Here `none` is a null pointer; the pointer to the
output may in turn point to a null map. -/
structure HookArgs (Code : Type) where
  outputAllInfo : Option (Option (InfoMap Code))
  version : Option Int
  size : Option Nat
  alignment : Option Nat

def HookArgs.null : HookArgs Code := ⟨none, none, none, none⟩

/-- A later registration of the same class: existing entries are never replaced. -/
def mergeInfo (entry input : Info Code) : Info Code :=
  { entry with
    interfaces := entry.interfaces ∪ input.interfaces
    aliases := entry.aliases ∪ input.aliases }

/-- The branch of `GzPluginHook` taken when a registration macro provides an `Info`. -/
def hookInput (pluginMap : InfoMap Code) (input : Info Code) : InfoMap Code :=
  match pluginMap.lookup input.name with
  | none => pluginMap.insert input.name input
  | some entry => pluginMap.insert input.name (mergeInfo entry input)

/-- The branch of `GzPluginHook` taken when a Loader asks for the map. The handshake
values are overwritten whether or not the two sides agree. -/
def hookOutput (abi : Abi) (pluginMap : InfoMap Code) (args : HookArgs Code) : HookArgs Code :=
  match args.outputAllInfo, args.version, args.size, args.alignment with
  | some allInfo, some version, some size, some alignment =>
    let agreement := abi.version = version ∧ abi.size = size ∧ abi.alignment = alignment
    { outputAllInfo := some (if agreement then some pluginMap else allInfo)
      version := some abi.version
      size := some abi.size
      alignment := some abi.alignment }
  | _, _, _, _ => args

/-- `GzPluginHook`; its static variable is an argument and a result. -/
def gzPluginHook (abi : Abi) (pluginMap : InfoMap Code) (inputSingleInfo : Option (Info Code))
    (args : HookArgs Code) : InfoMap Code × HookArgs Code :=
  let pluginMap := match inputSingleInfo with
    | none => pluginMap
    | some input => hookInput pluginMap input
  (pluginMap, hookOutput abi pluginMap args)

/-- The static map after the registrations of a library, in the order of its static
initialisation. -/
def registrations (abi : Abi) (infos : List (Info Code)) : InfoMap Code :=
  infos.foldl (fun pluginMap info => (gzPluginHook abi pluginMap (some info) .null).1) ∅

/-- `Loader::Implementation::LoadPlugins`, up to the order in which the map is copied. The
argument is what `dlsym` finds; every failure exit gives the empty result. -/
def loadPlugins (abi : Abi) (infoHook : Option (HookArgs Code → HookArgs Code)) :
    InfoMap Code :=
  match infoHook with
  | none => ∅
  | some infoHook =>
    let out := infoHook ⟨some none, some abi.version, some abi.size, some abi.alignment⟩
    if some abi.version ≠ out.version then ∅
    else if some abi.size ≠ out.size ∨ some abi.alignment ≠ out.alignment then ∅
    else match out.outputAllInfo with
      | some (some allInfo) => allInfo
      | _ => ∅

/-- The vector `loadedPlugins` copied from a map: its values in some order. -/
def Enumerates (loadedPlugins : List (Info Code)) (allInfo : InfoMap Code) : Prop :=
  (loadedPlugins : Multiset (Info Code)) = allInfo.entries.map fun entry => entry.2

/-- A map keyed by type names, as the hook builds it from registrations. -/
def Keyed (allInfo : InfoMap Code) : Prop :=
  ∀ name info, allInfo.lookup name = some info → info.name = name ∧ info.Registered

theorem keyed_empty : Keyed (∅ : InfoMap Code) := by
  intro name info h
  simp at h

theorem Enumerates.mem_iff {vec : List (Info Code)} {m : InfoMap Code} (h : Enumerates vec m)
    (info : Info Code) : info ∈ vec ↔ ∃ name, m.lookup name = some info := by
  have hm : info ∈ vec ↔ info ∈ m.entries.map fun entry => entry.2 := by
    rw [← h, Multiset.mem_coe]
  rw [hm, Multiset.mem_map]
  constructor
  · rintro ⟨⟨name, _⟩, he, rfl⟩
    exact ⟨name, Finmap.lookup_eq_some_iff.mpr he⟩
  · rintro ⟨name, hn⟩
    exact ⟨⟨name, info⟩, Finmap.lookup_eq_some_iff.mp hn, rfl⟩

theorem enumerates_empty {vec : List (Info Code)} (h : Enumerates vec ∅) : vec = [] := by
  have h' : (vec : Multiset (Info Code)) = 0 := h
  simpa using h'

theorem hookInput_lookup_ne (m : InfoMap Code) (info : Info Code) {name : String}
    (h : name ≠ info.name) : (hookInput m info).lookup name = m.lookup name := by
  unfold hookInput
  split <;> rw [lookup_insert_eq, if_neg h]

theorem hookInput_lookup_new {m : InfoMap Code} {info : Info Code}
    (h : m.lookup info.name = none) : (hookInput m info).lookup info.name = some info := by
  simp [hookInput, h]

theorem hookInput_lookup_old {m : InfoMap Code} {info entry : Info Code}
    (h : m.lookup info.name = some entry) :
    (hookInput m info).lookup info.name = some (mergeInfo entry info) := by
  simp [hookInput, h]

/-- What the hook stores for the registrations of one class, given in order. -/
def mergeAll : List (Info Code) → Option (Info Code)
  | [] => none
  | first :: later => some (later.foldl mergeInfo first)

def named (name : String) (infos : List (Info Code)) : List (Info Code) :=
  infos.filter fun info => info.name = name

theorem foldl_hookInput_old {m : InfoMap Code} {name : String} {entry : Info Code}
    (infos : List (Info Code)) (h : m.lookup name = some entry) :
    (infos.foldl hookInput m).lookup name = some ((named name infos).foldl mergeInfo entry) := by
  induction infos generalizing m entry with
  | nil => exact h
  | cons info infos ih =>
    rw [List.foldl_cons]
    by_cases hn : info.name = name
    · subst hn
      rw [ih (hookInput_lookup_old h)]
      simp [named]
    · have hne : name ≠ info.name := fun he => hn he.symm
      rw [ih ((hookInput_lookup_ne m info hne).trans h)]
      simp [named, hn]

theorem foldl_hookInput_new {m : InfoMap Code} {name : String} (infos : List (Info Code))
    (h : m.lookup name = none) :
    (infos.foldl hookInput m).lookup name = mergeAll (named name infos) := by
  induction infos generalizing m with
  | nil => exact h
  | cons info infos ih =>
    rw [List.foldl_cons]
    by_cases hn : info.name = name
    · subst hn
      rw [foldl_hookInput_old infos (hookInput_lookup_new h)]
      simp [named, mergeAll]
    · have hne : name ≠ info.name := fun he => hn he.symm
      rw [ih ((hookInput_lookup_ne m info hne).trans h)]
      simp [named, hn]

theorem registrations_lookup (abi : Abi) (infos : List (Info Code)) (name : String) :
    (registrations abi infos).lookup name = mergeAll (named name infos) :=
  foldl_hookInput_new infos (Finmap.lookup_empty name)

/-! The fields of a merged entry. -/

@[simp] theorem foldl_mergeInfo_name (later : List (Info Code)) (first : Info Code) :
    (later.foldl mergeInfo first).name = first.name := by
  induction later generalizing first with
  | nil => rfl
  | cons info later ih => rw [List.foldl_cons, ih]; rfl

@[simp] theorem foldl_mergeInfo_factory (later : List (Info Code)) (first : Info Code) :
    (later.foldl mergeInfo first).factory = first.factory := by
  induction later generalizing first with
  | nil => rfl
  | cons info later ih => rw [List.foldl_cons, ih]; rfl

@[simp] theorem foldl_mergeInfo_deleter (later : List (Info Code)) (first : Info Code) :
    (later.foldl mergeInfo first).deleter = first.deleter := by
  induction later generalizing first with
  | nil => rfl
  | cons info later ih => rw [List.foldl_cons, ih]; rfl

@[simp] theorem foldl_mergeInfo_demangled (later : List (Info Code)) (first : Info Code) :
    (later.foldl mergeInfo first).demangledInterfaces = first.demangledInterfaces := by
  induction later generalizing first with
  | nil => rfl
  | cons info later ih => rw [List.foldl_cons, ih]; rfl

theorem mem_foldl_mergeInfo_aliases (later : List (Info Code)) (first : Info Code)
    (a : String) : a ∈ (later.foldl mergeInfo first).aliases ↔
      ∃ info ∈ first :: later, a ∈ info.aliases := by
  induction later generalizing first with
  | nil => simp
  | cons info later ih =>
    rw [List.foldl_cons, ih]
    simp only [mergeInfo, List.exists_mem_cons_iff, Finset.mem_union, or_assoc]

theorem foldl_mergeInfo_interfaces (later : List (Info Code)) (first : Info Code)
    (interface : String) : (later.foldl mergeInfo first).interfaces.lookup interface =
      (first :: later).findSome? fun info => info.interfaces.lookup interface := by
  induction later generalizing first with
  | nil => cases h : first.interfaces.lookup interface <;> simp [h]
  | cons info later ih =>
    rw [List.foldl_cons, ih]
    simp only [mergeInfo, List.findSome?_cons, lookup_union]
    cases first.interfaces.lookup interface <;> rfl

theorem registrations_keyed (abi : Abi) {infos : List (Info Code)}
    (h : ∀ info ∈ infos, info.Registered) : Keyed (registrations abi infos) := by
  intro name info hn
  rw [registrations_lookup] at hn
  cases hf : named name infos with
  | nil => simp [hf, mergeAll] at hn
  | cons first later =>
    simp only [hf, mergeAll, Option.some.injEq] at hn
    subst hn
    have hfirst : first ∈ named name infos := by simp [hf]
    have hmem : first ∈ infos ∧ first.name = name := by simpa [named] using hfirst
    have hreg := h first hmem.1
    refine ⟨by rw [foldl_mergeInfo_name]; exact hmem.2, ?_, ?_⟩
    · rw [foldl_mergeInfo_name]; exact hreg.name_ne
    · rw [foldl_mergeInfo_demangled]; exact hreg.demangled

theorem loadPlugins_keyed (abi : Abi) (infoHook : Option (HookArgs Code → HookArgs Code))
    (h : ∀ f ∈ infoHook, ∀ args allInfo, args.outputAllInfo = some none →
      (f args).outputAllInfo = some (some allInfo) → Keyed allInfo) :
    Keyed (loadPlugins abi infoHook) := by
  cases infoHook with
  | none => exact keyed_empty
  | some f =>
    simp only [loadPlugins]
    split
    · exact keyed_empty
    split
    · exact keyed_empty
    split
    · rename_i allInfo hout
      exact h f rfl _ allInfo rfl hout
    · exact keyed_empty

theorem loadPlugins_agree (abi : Abi) (pluginMap : InfoMap Code) :
    loadPlugins abi (some fun args => (gzPluginHook abi pluginMap none args).2) = pluginMap := by
  simp [loadPlugins, gzPluginHook, hookOutput]

theorem loadPlugins_disagree {abi abi' : Abi} (pluginMap : InfoMap Code) (h : abi ≠ abi') :
    loadPlugins abi (some fun args => (gzPluginHook abi' pluginMap none args).2) = ∅ := by
  obtain ⟨v, s, a⟩ := abi
  obtain ⟨v', s', a'⟩ := abi'
  simp only [ne_eq, Abi.mk.injEq] at h
  simp only [loadPlugins, gzPluginHook, hookOutput]
  by_cases hv : v = v'
  · have hsa : s ≠ s' ∨ a ≠ a' := by
      by_cases hs : s = s'
      · exact Or.inr fun ha => h ⟨hv, hs, ha⟩
      · exact Or.inl hs
    simp [hv, hsa]
  · simp [hv]

end GzPlugin
