import GzPlugin.Registry

/-!
# The static registry

It stores one `Info` per class and merges later registrations into it. `GetInfo` hands
out a fresh copy; here only its content matters.
-/

namespace GzPlugin

open FiniteMaps

set_option autoImplicit false

variable {Code : Type}

/-- The data of `StaticRegistry`; the map `plugins` of the base class stays unused. -/
structure StaticRegistry (Code : Type) where
  aliases : AliasMap
  infos : InfoMap Code

/-- The demangled interface names of an `Info`. -/
def Info.demangledKeys (demangle : String → String) (info : Info Code) : Finset String :=
  info.interfaces.keys.image demangle

namespace StaticRegistry

def empty : StaticRegistry Code := ⟨∅, ∅⟩

def view (r : StaticRegistry Code) : RegistryView Code where
  aliases := r.aliases
  allPlugins := r.infos.keys
  getInfo name := r.infos.lookup name

/-- The entry of `infos` after `AddInfo`. -/
def addEntry (demangle : String → String) (entry : Option (Info Code)) (info : Info Code) :
    Info Code :=
  match entry with
  | none =>
    { info with
      name := demangle info.name
      demangledInterfaces := info.demangledInterfaces ∪ info.demangledKeys demangle }
  | some entry =>
    { entry with
      interfaces := entry.interfaces ∪ info.interfaces
      demangledInterfaces := entry.demangledInterfaces ∪ info.demangledKeys demangle
      aliases := entry.aliases ∪ info.aliases }

/-- `StaticRegistry::AddInfo` -/
def addInfo (demangle : String → String) (r : StaticRegistry Code) (info : Info Code) :
    StaticRegistry Code :=
  let pluginName := demangle info.name
  { aliases := r.aliases.insertAll pluginName info.aliases
    infos := r.infos.insert pluginName (addEntry demangle (r.infos.lookup pluginName) info) }

/-- The registry after the registrations made at program start. -/
def registrations (demangle : String → String) (infos : List (Info Code)) :
    StaticRegistry Code :=
  infos.foldl (addInfo demangle) empty

/-- The two copies of the alias relation agree, and the stored `Info` is in order. -/
structure WellFormed (demangle : String → String) (r : StaticRegistry Code) : Prop where
  named : ∀ {name info}, r.infos.lookup name = some info → info.name = name
  listed : ∀ {name a}, name ∈ r.aliases.names a ↔
    ∃ info, r.infos.lookup name = some info ∧ a ∈ info.aliases
  demangled : ∀ {name info}, r.infos.lookup name = some info →
    info.demangledInterfaces = info.demangledKeys demangle

variable {demangle : String → String} {r : StaticRegistry Code}

theorem empty_wellFormed : (empty : StaticRegistry Code).WellFormed demangle where
  named h := by simp [empty] at h
  listed := by simp [empty, AliasMap.names]
  demangled h := by simp [empty] at h

theorem addEntry_name {name : String} {entry : Option (Info Code)} {info : Info Code}
    (h : ∀ e ∈ entry, e.name = name) (hn : demangle info.name = name) :
    (addEntry demangle entry info).name = name := by
  cases entry with
  | none => exact hn
  | some e => exact h e rfl

theorem mem_addEntry_aliases {entry : Option (Info Code)} {info : Info Code} {a : String} :
    a ∈ (addEntry demangle entry info).aliases ↔
      (∃ e ∈ entry, a ∈ e.aliases) ∨ a ∈ info.aliases := by
  cases entry <;> simp [addEntry]

theorem addEntry_demangled {entry : Option (Info Code)} {info : Info Code}
    (h : ∀ e ∈ entry, e.demangledInterfaces = e.demangledKeys demangle)
    (hi : info.demangledInterfaces = ∅) : (addEntry demangle entry info).demangledInterfaces =
      (addEntry demangle entry info).demangledKeys demangle := by
  cases entry with
  | none =>
    simp only [addEntry, hi, Finset.empty_union]
    rfl
  | some e =>
    simp only [addEntry, h e rfl, Info.demangledKeys, Finmap.keys_union, Finset.image_union]

theorem addInfo_wellFormed (h : r.WellFormed demangle) {info : Info Code}
    (hi : info.demangledInterfaces = ∅) : (r.addInfo demangle info).WellFormed demangle where
  named {name i} hl := by
    simp only [addInfo, lookup_insert_eq] at hl
    split at hl
    · rename_i hn
      cases hl
      exact addEntry_name (fun e he => by rw [hn]; exact h.named he) hn.symm
    · exact h.named hl
  listed {name a} := by
    simp only [addInfo, AliasMap.mem_names_insertAll, lookup_insert_eq]
    by_cases hn : name = demangle info.name
    · subst hn
      simp only [and_true, h.listed, if_true, Option.some.injEq, exists_eq_left',
        mem_addEntry_aliases, Option.mem_def]
      exact or_comm
    · simp [hn, h.listed]
  demangled {name i} hl := by
    simp only [addInfo, lookup_insert_eq] at hl
    split at hl
    · cases hl
      exact addEntry_demangled (fun e he => h.demangled he) hi
    · exact h.demangled hl

theorem registrations_wellFormed {infos : List (Info Code)}
    (h : ∀ i ∈ infos, i.demangledInterfaces = ∅) :
    (registrations demangle infos).WellFormed demangle := by
  have hgo : ∀ (l : List (Info Code)) (r : StaticRegistry Code), r.WellFormed demangle →
      (∀ i ∈ l, i.demangledInterfaces = ∅) →
      (l.foldl (addInfo demangle) r).WellFormed demangle := by
    intro l
    induction l with
    | nil => exact fun r hr _ => hr
    | cons info l ih =>
      intro r hr hl
      exact ih _ (addInfo_wellFormed hr (hl info List.mem_cons_self))
        fun i hi => hl i (List.mem_cons_of_mem info hi)
  exact hgo infos empty empty_wellFormed h

theorem registrations_forall {Q : String → Info Code → Prop} {infos : List (Info Code)}
    (h : ∀ i ∈ infos, ∀ entry, (∀ e ∈ entry, Q (demangle i.name) e) →
      Q (demangle i.name) (addEntry demangle entry i)) {name : String} {info : Info Code}
    (hl : (registrations demangle infos).infos.lookup name = some info) : Q name info := by
  have hgo : ∀ (l : List (Info Code)) (r : StaticRegistry Code), (∀ i ∈ l, i ∈ infos) →
      (∀ n i, r.infos.lookup n = some i → Q n i) →
      ∀ n i, (l.foldl (addInfo demangle) r).infos.lookup n = some i → Q n i := by
    intro l
    induction l with
    | nil => exact fun r _ hr => hr
    | cons first l ih =>
      intro r hl hr
      refine ih _ (fun i hi => hl i (List.mem_cons_of_mem first hi)) ?_
      intro n i hn
      simp only [addInfo, lookup_insert_eq] at hn
      split at hn
      · rename_i he
        cases hn
        rw [he]
        exact h first (hl first List.mem_cons_self) _ fun e he => hr _ e he
      · exact hr n i hn
  exact hgo infos empty (fun i hi => hi) (by simp [empty]) name info hl

theorem WellFormed.coherent (h : r.WellFormed demangle) : r.view.Coherent where
  all name := by
    change name ∈ r.infos.keys ↔ (r.infos.lookup name).isSome
    rw [Finmap.mem_keys, Finmap.lookup_isSome]
  named hi := h.named hi

theorem WellFormed.known (h : r.WellFormed demangle) {a name : String}
    (hn : name ∈ r.aliases.names a) : (r.view.getInfo name).isSome := by
  obtain ⟨info, hi, _⟩ := h.listed.mp hn
  simp [view, hi]

end StaticRegistry

end GzPlugin
