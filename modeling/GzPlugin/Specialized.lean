import GzPlugin.Interfaces
import GzPlugin.NodeMaps

/-!
# The fast path of specialized plugins

The class hierarchy that the templates generate for `SpecializedPlugin<L...>`, the iterators
that its leaves keep, and the dispatch of `QueryInterface` between them and the lookup by
name. The interface map is one of nodes here, so that an iterator has something to denote.
-/

namespace GzPlugin

open FiniteMaps NodeMaps Runs

set_option autoImplicit false

universe u

/-- The classes that the templates generate from the interface types in `ι`. -/
inductive ClassType (ι : Type u) where
  | plugin
  /-- `SpecializedPlugin<SpecInterfaces...>` -/
  | specialized (specInterfaces : List ι)
  /-- `SelectSpecializers<Base>` -/
  | select (base : ClassType ι)
  /-- `ComposePlugin<Base1, Base2>` -/
  | compose (base1 base2 : ClassType ι)
  deriving DecidableEq

namespace ClassType

variable {ι : Type u} [DecidableEq ι]

/-- The base classes in a class definition. -/
def bases : ClassType ι → List (ClassType ι)
  | plugin => []
  | specialized [] => [plugin]
  | specialized [_] => [plugin]
  | specialized (i :: j :: l) => [select (compose (specialized [i]) (specialized (j :: l)))]
  | select base => [base]
  | compose base1 base2 => if base1 = base2 then [base1] else [base1, base2]

/-- A measure that a base class is below. -/
def weight : ClassType ι → Nat
  | plugin => 0
  | specialized [] => 1
  | specialized (_ :: l) => 4 * l.length + 1
  | select base => base.weight + 1
  | compose base1 base2 => base1.weight + base2.weight + 1

theorem weight_bases {b c : ClassType ι} (h : b ∈ c.bases) : b.weight < c.weight := by
  unfold bases at h
  split at h
  · cases h
  · rw [List.mem_singleton.mp h]
    exact Nat.one_pos
  · rw [List.mem_singleton.mp h]
    exact Nat.one_pos
  · rw [List.mem_singleton.mp h]
    simp only [weight, List.length_nil, List.length_cons]
    omega
  · rw [List.mem_singleton.mp h]
    exact Nat.lt_succ_self _
  · simp only [weight]
    split at h
    · rw [List.mem_singleton.mp h]
      omega
    · rcases List.mem_cons.mp h with rfl | h
      · omega
      · rw [List.mem_singleton.mp h]
        omega

/-- `std::is_base_of<b, c>` -/
def isBaseOf (b c : ClassType ι) : Bool :=
  b = c || c.bases.attach.any fun d => isBaseOf b d.1
termination_by c.weight
decreasing_by exact weight_bases d.2

/-- The order in which the constructors run: base classes first, from left to right. -/
def constructionOrder (c : ClassType ι) : List (ClassType ι) :=
  c.bases.attach.flatMap (fun d => constructionOrder d.1) ++ [c]
termination_by c.weight
decreasing_by exact weight_bases d.2

theorem isBaseOf_iff {b c : ClassType ι} :
    isBaseOf b c = true ↔ b = c ∨ ∃ d ∈ c.bases, isBaseOf b d = true := by
  rw [isBaseOf]
  simp

theorem mem_constructionOrder_iff {b c : ClassType ι} :
    b ∈ constructionOrder c ↔ b = c ∨ ∃ d ∈ c.bases, b ∈ constructionOrder d := by
  rw [constructionOrder]
  simp [or_comm]

theorem mem_constructionOrder {b c : ClassType ι} :
    b ∈ constructionOrder c ↔ isBaseOf b c = true := by
  rw [mem_constructionOrder_iff, isBaseOf_iff]
  refine or_congr Iff.rfl ⟨?_, ?_⟩
  · intro h
    obtain ⟨d, hd, hb⟩ := h
    exact ⟨d, hd, mem_constructionOrder.mp hb⟩
  · intro h
    obtain ⟨d, hd, hb⟩ := h
    exact ⟨d, hd, mem_constructionOrder.mpr hb⟩
termination_by c.weight
decreasing_by all_goals exact weight_bases hd

theorem isBaseOf_plugin {b : ClassType ι} : isBaseOf b plugin = true ↔ b = plugin := by
  rw [isBaseOf_iff]
  simp [bases]

variable {t i : ι} {L : List ι} {c d : ClassType ι}

theorem isBaseOf_select :
    isBaseOf (specialized L) (select c) = true ↔ isBaseOf (specialized L) c = true := by
  rw [isBaseOf_iff]
  simp [bases]

theorem isBaseOf_compose : isBaseOf (specialized L) (compose c d) = true ↔
    isBaseOf (specialized L) c = true ∨ isBaseOf (specialized L) d = true := by
  rw [isBaseOf_iff]
  by_cases hcd : c = d
  · subst hcd
    simp [bases]
  · simp [bases, hcd]

theorem isBaseOf_leaf : isBaseOf (specialized [t]) (specialized [i]) = true ↔ t = i := by
  rw [isBaseOf_iff]
  simp [bases, isBaseOf_plugin]

/-- The leaf for `T` is a base of `SpecializedPlugin<L...>` exactly if `T` occurs in `L`. -/
theorem isBaseOf_specialized :
    isBaseOf (specialized [t]) (specialized L) = true ↔ t ∈ L := by
  induction L with
  | nil =>
    rw [isBaseOf_iff]
    simp [bases, isBaseOf_plugin]
  | cons i l ih =>
    cases l with
    | nil => rw [isBaseOf_leaf, List.mem_singleton]
    | cons j l =>
      rw [isBaseOf_iff, List.mem_cons (b := i), ← ih, ← isBaseOf_leaf (t := t) (i := i),
        ← isBaseOf_compose, ← isBaseOf_select]
      simp [bases]

theorem isBaseOf_composed {j : ι} {l : List ι} : isBaseOf (specialized [t])
    (compose (specialized [i]) (specialized (j :: l))) = true ↔ t ∈ i :: j :: l := by
  rw [isBaseOf_compose, isBaseOf_leaf, isBaseOf_specialized, List.mem_cons (b := i)]

end ClassType

open ClassType

/-- The data of `Plugin::Implementation`, with the nodes of its map. -/
structure PluginData where
  interfaces : NodeMap String Ptr
  loadedInstancePtr : Option InstancePtr
  info : Option (ConstInfoPtr CodePtr)

namespace PluginData

def empty : PluginData := ⟨.empty, none, none⟩

/-- `Plugin::PrivateQueryInterface` -/
def privateQueryInterface (d : PluginData) (interfaceName : String) : Ptr :=
  match d.interfaces.find interfaceName with
  | none => 0
  | some node => node.value

/-- `Plugin::Implementation::Clear` -/
def clear (d : PluginData) : PluginData := ⟨d.interfaces.updateValues fun _ => 0, none, none⟩

/-- `Plugin::Implementation::Create`; `order` is how the interfaces of the `Info` are walked. -/
def create (cast : CodePtr → Ptr → Ptr) (d : PluginData) (info : Option (ConstInfoPtr CodePtr))
    (dlHandlePtr : Option DlHandlePtr) (allowNullDlHandlePtr : Bool) (block : Nat)
    (instance_ : Ptr) (order : List (String × CodePtr)) : PluginData :=
  let d := d.clear
  match info with
  | none => d
  | some info =>
    let d := { d with info := some info }
    if dlHandlePtr.isNone && !allowNullDlHandlePtr then d
    else
      { d with
        loadedInstancePtr := some ⟨block, instance_⟩
        interfaces := d.interfaces.assignAll (order.map fun e => (e.1, cast e.2 instance_)) }

/-- `Copy(_other)` after its call of `Clear`; `other` is the state of the source by then. -/
def copy (d other : PluginData) : PluginData where
  loadedInstancePtr := other.loadedInstancePtr
  info := other.info
  interfaces :=
    if Plugin.isSet other.loadedInstancePtr then d.interfaces.assignAll other.interfaces.entries
    else d.interfaces

/-- `Copy(_info, _instance)` -/
def copyFrom (cast : CodePtr → Ptr → Ptr) (d : PluginData)
    (info : Option (ConstInfoPtr CodePtr)) (instance_ : Option InstancePtr)
    (order : List (String × CodePtr)) : PluginData where
  loadedInstancePtr := instance_
  info := info
  interfaces :=
    match instance_, info with
    | some ptr, some _ =>
      if ptr.get ≠ 0 then d.interfaces.assignAll (order.map fun e => (e.1, cast e.2 ptr.get))
      else d.interfaces
    | _, _ => d.interfaces

end PluginData

/-- An object of a class `SpecializedPlugin<L...>`. -/
structure SpecializedPlugin (ι : Type u) where
  data : PluginData
  /-- `privateSpecializedInterfaceIterator` of every base class `SpecializedPlugin<i>`. -/
  iterators : Finmap fun _ : ι => Nat

namespace SpecializedPlugin

variable {ι : Type u} [DecidableEq ι] (name : ι → String)

/-- What the constructor of a class does. A virtual base class is constructed only once. -/
def runConstructor (p : SpecializedPlugin ι) : ClassType ι → SpecializedPlugin ι
  | .specialized [i] =>
    if i ∈ p.iterators then p
    else
      let (it, interfaces) := p.data.interfaces.insertNew (name i) 0
      ⟨{ p.data with interfaces := interfaces }, p.iterators.insert i it⟩
  | _ => p

/-- The default constructor of `SpecializedPlugin<L...>`. -/
def construct (L : List ι) : SpecializedPlugin ι :=
  (constructionOrder (.specialized L)).foldl (runConstructor name) ⟨.empty, ∅⟩

/-- A pointer, and `usedSpecializedInterfaceAccess`. -/
structure Answer where
  pointer : Ptr
  usedSpecializedInterfaceAccess : Bool

/-- `Plugin::QueryInterface<T>` -/
def pluginQueryInterface (p : SpecializedPlugin ι) (t : ι) : Option Answer :=
  some ⟨p.data.privateQueryInterface (name t), false⟩

/-- `SpecializedPlugin<i>::QueryInterface<T>`, with the overload for `type<i>`. There is no
answer if the iterator is not valid. -/
def leafQueryInterface (p : SpecializedPlugin ι) (i t : ι) : Option Answer :=
  if t = i then
    ((p.iterators.lookup i).bind p.data.interfaces.deref).map fun node => ⟨node.value, true⟩
  else p.pluginQueryInterface name t

/-- `SelectSpecalizerIfAvailable<T, Specialization>::Specializer` -/
def specializer (t : ι) (specialization : ClassType ι) : ClassType ι :=
  if isBaseOf (.specialized [t]) specialization then .specialized [t] else .plugin

/-- `SelectSpecializers<Base>::QueryInterface<T>` -/
def selectQueryInterface (p : SpecializedPlugin ι) (base : ClassType ι) (t : ι) : Option Answer :=
  match specializer t base with
  | .specialized [i] => p.leafQueryInterface name i t
  | _ => p.pluginQueryInterface name t

/-- `SpecializedPlugin<L...>::QueryInterface<T>`; the class inherits it if `L` does not have
length one. -/
def queryInterface (p : SpecializedPlugin ι) (t : ι) : List ι → Option Answer
  | [] => p.pluginQueryInterface name t
  | [i] => p.leafQueryInterface name i t
  | i :: j :: l => p.selectQueryInterface name (.compose (.specialized [i]) (.specialized (j :: l))) t

/-- What happens to a wrapper: `Create`, the two `Copy` functions and `Clear`. -/
inductive Op where
  | create (info : Option (ConstInfoPtr CodePtr)) (dlHandlePtr : Option DlHandlePtr)
      (allowNullDlHandlePtr : Bool) (block : Nat) (instance_ : Ptr)
      (order : List (String × CodePtr))
  | copy (other : PluginData)
  | copySelf
  | copyFrom (info : Option (ConstInfoPtr CodePtr)) (instance_ : Option InstancePtr)
      (order : List (String × CodePtr))
  | clear

/-- `order` walks the map. -/
def Walks (order : List (String × CodePtr)) (interfaces : StringMap CodePtr) : Prop :=
  ((order.map Prod.fst : List String) : Multiset String) = interfaces.keys.val ∧
    ∀ e ∈ order, interfaces.lookup e.1 = some e.2

instance (order : List (String × CodePtr)) (interfaces : StringMap CodePtr) :
    Decidable (Walks order interfaces) := by
  unfold Walks; infer_instance

def Enabled : Op → Prop
  | .create info _ _ _ _ order => ∀ i ∈ info, Walks order i.info.interfaces
  | .copyFrom info _ order => ∀ i ∈ info, Walks order i.info.interfaces
  | _ => True

instance (op : Op) : Decidable (Enabled op) := by
  cases op <;> unfold Enabled <;> infer_instance

def after (cast : CodePtr → Ptr → Ptr) (d : PluginData) : Op → PluginData
  | .create info dlHandlePtr allowNullDlHandlePtr block instance_ order =>
    d.create cast info dlHandlePtr allowNullDlHandlePtr block instance_ order
  | .copy other => d.clear.copy other
  | .copySelf => d.clear.copy d.clear
  | .copyFrom info instance_ order => d.copyFrom cast info instance_ order
  | .clear => d.clear

def step (cast : CodePtr → Ptr → Ptr) (p : SpecializedPlugin ι) (op : Op) :
    Option (SpecializedPlugin ι) :=
  if Enabled op then some { p with data := after cast p.data op } else none

omit [DecidableEq ι] in
theorem step_eq_some {cast : CodePtr → Ptr → Ptr} {p p' : SpecializedPlugin ι} {op : Op} :
    step cast p op = some p' ↔ Enabled op ∧ { p with data := after cast p.data op } = p' := by
  unfold step
  split <;> simp [*]

/-! ### The wrapper without nodes -/

end SpecializedPlugin

namespace PluginData

variable {cast : CodePtr → Ptr → Ptr} {d : PluginData}

/-- The wrapper of the other modules. -/
def toPlugin (d : PluginData) : Plugin := ⟨d.interfaces.toFinmap, d.loadedInstancePtr, d.info⟩

theorem privateQueryInterface_eq (d : PluginData) (interfaceName : String) :
    d.privateQueryInterface interfaceName = d.toPlugin.queryInterface interfaceName := by
  simp only [privateQueryInterface, toPlugin, Plugin.queryInterface, NodeMap.lookup_toFinmap,
    NodeMap.lookup]
  cases d.interfaces.find interfaceName <;> rfl

theorem toPlugin_clear (d : PluginData) : d.clear.toPlugin = d.toPlugin.clear := by
  simp only [toPlugin, clear, Plugin.clear, Plugin.mk.injEq, and_self, and_true]
  apply Finmap.ext_lookup
  intro k
  rw [NodeMap.lookup_toFinmap, NodeMap.lookup_updateValues, Plugin.nullEntries,
    lookup_mapValues, NodeMap.lookup_toFinmap, NodeMap.lookup, Option.map_map]
  rfl

theorem assignAll_toFinmap {l : List (String × Ptr)} {s : StringMap Ptr}
    (hl : ∀ k x, (k, x) ∈ l ↔ s.lookup k = some x) (m : NodeMap String Ptr) :
    (m.assignAll l).toFinmap = s ∪ m.toFinmap := by
  apply Finmap.ext_lookup
  intro k
  rw [NodeMap.lookup_toFinmap, NodeMap.lookup_assignAll hl, lookup_union, NodeMap.lookup_toFinmap]

theorem toPlugin_copy (d other : PluginData) :
    (d.copy other).toPlugin = d.toPlugin.copy other.toPlugin := by
  have hmap : (d.copy other).interfaces.toFinmap =
      (d.toPlugin.copy other.toPlugin).interfaces := by
    by_cases hset : Plugin.isSet other.loadedInstancePtr = true
    · have hd : (d.copy other).interfaces =
          d.interfaces.assignAll other.interfaces.entries := if_pos hset
      have hp : (d.toPlugin.copy other.toPlugin).interfaces =
          other.interfaces.toFinmap ∪ d.interfaces.toFinmap := if_pos hset
      rw [hd, hp]
      refine assignAll_toFinmap (fun k x => ?_) d.interfaces
      rw [NodeMap.mem_entries, NodeMap.lookup_toFinmap]
    · have hd : (d.copy other).interfaces = d.interfaces := if_neg hset
      have hp : (d.toPlugin.copy other.toPlugin).interfaces = d.interfaces.toFinmap :=
        if_neg hset
      rw [hd, hp]
  rw [toPlugin, hmap]
  rfl

theorem walk_casts {order : List (String × CodePtr)} {info : Info CodePtr}
    (hw : SpecializedPlugin.Walks order info.interfaces) (instance_ : Ptr) (k : String) (x : Ptr) :
    (k, x) ∈ order.map (fun e => (e.1, cast e.2 instance_)) ↔
      (Plugin.castAll cast info instance_).lookup k = some x := by
  obtain ⟨hkeys, hvalues⟩ := hw
  simp only [Plugin.castAll, lookup_mapValues, Option.map_eq_some_iff, List.mem_map]
  constructor
  · intro h
    obtain ⟨e, he, heq⟩ := h
    cases heq
    exact ⟨e.2, hvalues e he, rfl⟩
  · intro h
    obtain ⟨f, hf, rfl⟩ := h
    have hmem : k ∈ order.map Prod.fst := by
      rw [← Multiset.mem_coe, hkeys]
      exact Finmap.mem_keys.mpr (Finmap.mem_of_lookup_eq_some hf)
    obtain ⟨e, he, rfl⟩ := List.mem_map.mp hmem
    have hf' := hvalues e he
    rw [hf] at hf'
    cases hf'
    exact ⟨e, he, rfl⟩

theorem toPlugin_create {info : Option (ConstInfoPtr CodePtr)}
    {order : List (String × CodePtr)}
    (hw : ∀ i ∈ info, SpecializedPlugin.Walks order i.info.interfaces) (d : PluginData)
    (dlHandlePtr : Option DlHandlePtr) (allowNull : Bool) (block : Nat) (instance_ : Ptr) :
    (d.create cast info dlHandlePtr allowNull block instance_ order).toPlugin =
      (d.toPlugin.create cast info dlHandlePtr allowNull block instance_).1 := by
  cases info with
  | none => exact toPlugin_clear d
  | some info =>
    have hclear := toPlugin_clear d
    simp only [create, Plugin.create]
    split
    · rw [← hclear]
      rfl
    · rw [← hclear]
      simp only [toPlugin, Plugin.mk.injEq, and_self, and_true]
      exact assignAll_toFinmap (walk_casts (hw info rfl) instance_) _

theorem toPlugin_copyFrom {info : Option (ConstInfoPtr CodePtr)}
    {order : List (String × CodePtr)}
    (hw : ∀ i ∈ info, SpecializedPlugin.Walks order i.info.interfaces) (d : PluginData)
    (instance_ : Option InstancePtr) :
    (d.copyFrom cast info instance_ order).toPlugin =
      d.toPlugin.copyFrom cast info instance_ := by
  simp only [toPlugin, copyFrom, Plugin.copyFrom, Plugin.mk.injEq, and_self, and_true]
  cases instance_ with
  | none => rfl
  | some ptr =>
    cases info with
    | none => rfl
    | some info =>
      simp only
      split
      · exact assignAll_toFinmap (walk_casts (hw info rfl) ptr.get) _
      · rfl

end PluginData

namespace SpecializedPlugin

variable {ι : Type u} [DecidableEq ι] {name : ι → String}

/-- The operation on a wrapper without nodes. -/
def Op.onPlugin (cast : CodePtr → Ptr → Ptr) (p : Plugin) : Op → Plugin
  | .create info dlHandlePtr allowNullDlHandlePtr block instance_ _ =>
    (p.create cast info dlHandlePtr allowNullDlHandlePtr block instance_).1
  | .copy other => p.clear.copy other.toPlugin
  | .copySelf => p.clear.copy p.clear
  | .copyFrom info instance_ _ => p.copyFrom cast info instance_
  | .clear => p.clear

/-- Every operation does to the nodes what it does to the map without them. -/
theorem after_toPlugin {cast : CodePtr → Ptr → Ptr} {op : Op} (hen : Enabled op)
    (d : PluginData) : (after cast d op).toPlugin = op.onPlugin cast d.toPlugin := by
  cases op with
  | create info dlHandlePtr allowNull block instance_ order =>
    exact PluginData.toPlugin_create hen d dlHandlePtr allowNull block instance_
  | copy other =>
    rw [after, Op.onPlugin, PluginData.toPlugin_copy, PluginData.toPlugin_clear]
  | copySelf => rw [after, Op.onPlugin, PluginData.toPlugin_copy, PluginData.toPlugin_clear]
  | copyFrom info instance_ order => exact PluginData.toPlugin_copyFrom hen d instance_
  | clear => exact PluginData.toPlugin_clear d

/-! ### Iterators stay valid -/

variable {cast : CodePtr → Ptr → Ptr} {p p' : SpecializedPlugin ι} {t i : ι} {L : List ι}

/-- Every cached iterator denotes the entry with the name of its own interface type. -/
def Cached (name : ι → String) (p : SpecializedPlugin ι) : Prop :=
  ∀ i it, p.iterators.lookup i = some it →
    ∃ node, p.data.interfaces.deref it = some node ∧ node.key = name i

theorem Cached.keeps (h : Cached name p) {d : PluginData}
    (hd : p.data.interfaces.Keeps d.interfaces) : Cached name { p with data := d } := by
  intro i it hit
  obtain ⟨node, hnode, hkey⟩ := h i it hit
  obtain ⟨node', hnode', hkey'⟩ := hd it node hnode
  exact ⟨node', hnode', hkey'.trans hkey⟩

theorem runConstructor_cached (h : Cached name p) (c : ClassType ι) :
    Cached name (p.runConstructor name c) := by
  unfold runConstructor
  split
  · rename_i i
    split
    · exact h
    · have hk := h.keeps (d := { p.data with
          interfaces := (p.data.interfaces.insertNew (name i) 0).2 })
        (NodeMap.insertNew_keeps (name i) 0 p.data.interfaces)
      intro i' it hit
      rw [lookup_insert_eq] at hit
      split at hit
      · rename_i he
        cases hit
        rw [he]
        exact NodeMap.deref_insertNew_fst (name i) 0 p.data.interfaces
      · exact hk i' it hit
  · exact h

theorem mem_runConstructor (c : ClassType ι) : i ∈ (p.runConstructor name c).iterators ↔
    i ∈ p.iterators ∨ c = .specialized [i] := by
  unfold runConstructor
  split
  · rename_i j
    simp only [ClassType.specialized.injEq, List.cons.injEq, and_true]
    split
    · rename_i hj
      constructor
      · exact Or.inl
      · intro h
        rcases h with h | rfl
        · exact h
        · exact hj
    · rw [Finmap.mem_insert, or_comm, eq_comm]
  · rename_i hc
    exact ⟨Or.inl, fun h => h.resolve_right (hc i)⟩

theorem construct_cached (name : ι → String) (L : List ι) : Cached name (construct name L) := by
  have hgo : ∀ (cs : List (ClassType ι)) (p : SpecializedPlugin ι), Cached name p →
      Cached name (cs.foldl (runConstructor name) p) := by
    intro cs
    induction cs with
    | nil => exact fun _ h => h
    | cons c cs ih => exact fun p h => ih _ (runConstructor_cached h c)
  apply hgo
  intro i it hit
  cases hit

/-- Exactly the interface types of `L` get an iterator. -/
theorem mem_construct (name : ι → String) : i ∈ (construct name L).iterators ↔ i ∈ L := by
  have hgo : ∀ (cs : List (ClassType ι)) (p : SpecializedPlugin ι),
      i ∈ (cs.foldl (runConstructor name) p).iterators ↔
        i ∈ p.iterators ∨ .specialized [i] ∈ cs := by
    intro cs
    induction cs with
    | nil => simp
    | cons c cs ih =>
      intro p
      rw [List.foldl_cons, ih, mem_runConstructor, List.mem_cons, or_assoc, @eq_comm _ c]
  rw [construct, hgo, mem_constructionOrder, isBaseOf_specialized]
  exact or_iff_right Finmap.notMem_empty

/-- No operation on the wrapper erases a node or gives it another key. -/
theorem after_keeps (cast : CodePtr → Ptr → Ptr) (d : PluginData) (op : Op) :
    d.interfaces.Keeps (after cast d op).interfaces := by
  have hclear : d.interfaces.Keeps d.clear.interfaces := NodeMap.updateValues_keeps _ _
  have hcopy : ∀ other, d.interfaces.Keeps (d.clear.copy other).interfaces := by
    intro other
    unfold PluginData.copy
    simp only
    split
    · exact hclear.trans (NodeMap.assignAll_keeps _ _)
    · exact hclear
  cases op with
  | create info dlHandlePtr allowNull block instance_ order =>
    cases info with
    | none => exact hclear
    | some info =>
      simp only [after, PluginData.create]
      split
      · exact hclear
      · exact hclear.trans (NodeMap.assignAll_keeps _ _)
  | copy other => exact hcopy other
  | copySelf => exact hcopy d.clear
  | copyFrom info instance_ order =>
    simp only [after, PluginData.copyFrom]
    split
    · split
      · exact NodeMap.assignAll_keeps _ _
      · exact NodeMap.Keeps.refl _
    · exact NodeMap.Keeps.refl _
  | clear => exact hclear

/-! ### The dispatch -/

theorem leafQueryInterface_eq (h : Cached name p) (hi : i ∈ p.iterators) :
    p.leafQueryInterface name i t =
      some ⟨p.data.privateQueryInterface (name t), decide (t = i)⟩ := by
  unfold leafQueryInterface
  split
  · rename_i he
    obtain ⟨it, hit⟩ := Finmap.mem_iff.mp hi
    obtain ⟨node, hnode, hkey⟩ := h i it hit
    have hfind : p.data.interfaces.find (name t) = some node := by
      rw [he, ← hkey]
      exact NodeMap.find_of_deref hnode
    rw [hit, Option.bind_some, hnode, Option.map_some, PluginData.privateQueryInterface, hfind,
      decide_eq_true he]
  · rename_i hne
    rw [pluginQueryInterface, decide_eq_false hne]

/-- The answer of the specialized class, whatever the templates make of `L`. -/
theorem queryInterface_eq (h : Cached name p) (hL : ∀ i, i ∈ p.iterators ↔ i ∈ L) (t : ι) :
    p.queryInterface name t L =
      some ⟨p.data.privateQueryInterface (name t), decide (t ∈ L)⟩ := by
  cases L with
  | nil => simp [queryInterface, pluginQueryInterface]
  | cons i l =>
    have hi : i ∈ p.iterators := (hL i).mpr List.mem_cons_self
    cases l with
    | nil =>
      rw [queryInterface, leafQueryInterface_eq h hi]
      simp
    | cons j l =>
      simp only [queryInterface, selectQueryInterface, specializer]
      by_cases ht : t ∈ i :: j :: l
      · rw [if_pos (isBaseOf_composed.mpr ht)]
        simp only
        rw [leafQueryInterface_eq h ((hL t).mpr ht), decide_eq_true rfl, decide_eq_true ht]
      · rw [if_neg fun hb => ht (isBaseOf_composed.mp hb), pluginQueryInterface,
          decide_eq_false ht]

theorem toPlugin_construct (name : ι → String) (L : List ι) :
    (construct name L).data.toPlugin = Plugin.specialized (L.map name) := by
  have hgo : ∀ (cs : List (ClassType ι)) (p : SpecializedPlugin ι),
      (p.data.loadedInstancePtr = none ∧ p.data.info = none ∧
        ∀ k x, p.data.interfaces.lookup k = some x → x = 0 ∧ ∃ i ∈ p.iterators, name i = k) →
      ((cs.foldl (runConstructor name) p).data.loadedInstancePtr = none ∧
        (cs.foldl (runConstructor name) p).data.info = none ∧
        ∀ k x, (cs.foldl (runConstructor name) p).data.interfaces.lookup k = some x →
          x = 0 ∧ ∃ i ∈ (cs.foldl (runConstructor name) p).iterators, name i = k) := by
    intro cs
    induction cs with
    | nil => exact fun _ h => h
    | cons c cs ih =>
      intro p h
      apply ih
      unfold runConstructor
      split
      · rename_i i
        split
        · exact h
        · refine ⟨h.1, h.2.1, fun k x hx => ?_⟩
          rw [NodeMap.lookup_insertNew] at hx
          split at hx
          · rename_i hk
            cases hx
            exact ⟨rfl, i, Finmap.mem_insert.mpr (Or.inl rfl), hk.1.symm⟩
          · obtain ⟨hzero, j, hj, hk⟩ := h.2.2 k x hx
            exact ⟨hzero, j, Finmap.mem_insert.mpr (Or.inr hj), hk⟩
      · exact h
  obtain ⟨hinst, hinfo, hnull⟩ := hgo (constructionOrder (.specialized L)) ⟨.empty, ∅⟩
    ⟨rfl, rfl, fun k x hx => by cases hx⟩
  have hmap : (construct name L).data.interfaces.toFinmap =
      (Plugin.specialized (L.map name)).interfaces := by
    apply Finmap.ext_lookup
    intro k
    rw [NodeMap.lookup_toFinmap]
    cases hs : (Plugin.specialized (L.map name)).interfaces.lookup k with
    | none =>
      cases hx : (construct name L).data.interfaces.lookup k with
      | none => rfl
      | some x =>
        obtain ⟨_, i, hi, rfl⟩ := hnull k x hx
        have hmem : name i ∈ L.map name := List.mem_map_of_mem ((mem_construct name).mp hi)
        exact absurd (Plugin.mem_specialized.mpr hmem) (Finmap.lookup_eq_none.mp hs)
    | some x =>
      rw [Plugin.specialized_cleared (L.map name) k x hs]
      have hmem := Plugin.mem_specialized.mp (Finmap.mem_of_lookup_eq_some hs)
      obtain ⟨i, hi, rfl⟩ := List.mem_map.mp hmem
      obtain ⟨it, hit⟩ := Finmap.mem_iff.mp ((mem_construct name).mpr hi)
      obtain ⟨node, hnode, hkey⟩ := construct_cached name L i it hit
      have hx := NodeMap.lookup_of_deref hnode
      rw [hkey] at hx
      rw [hx, (hnull _ _ hx).1]
  rw [PluginData.toPlugin, hmap]
  change (⟨_, (construct name L).data.loadedInstancePtr, (construct name L).data.info⟩ : Plugin) = _
  rw [show (construct name L).data.loadedInstancePtr = none from hinst,
    show (construct name L).data.info = none from hinfo,
    ← Plugin.specialized_loadedInstancePtr (L.map name), ← Plugin.specialized_info (L.map name)]

/-- The fast path answers as `Plugin::QueryInterface` does, it is taken for the interface
types of `L` and no others, and the iterators made by the constructor still denote the
entries of their interface types. -/
structure FastPath (name : ι → String) (L : List ι) (p : SpecializedPlugin ι) : Prop where
  answer : ∀ t, p.queryInterface name t L =
    some ⟨p.data.privateQueryInterface (name t), decide (t ∈ L)⟩
  iterator : ∀ i ∈ L, ∃ it node, (construct name L).iterators.lookup i = some it ∧
    p.iterators.lookup i = some it ∧ p.data.interfaces.deref it = some node ∧ node.key = name i

theorem fastPath_of_cached (h : Cached name p)
    (he : p.iterators = (construct name L).iterators) : FastPath name L p where
  answer t := queryInterface_eq h (fun i => he ▸ mem_construct name) t
  iterator i hi := by
    obtain ⟨it, hit⟩ := Finmap.mem_iff.mp ((mem_construct name).mpr hi)
    have hit' : p.iterators.lookup i = some it := he ▸ hit
    obtain ⟨node, hnode, hkey⟩ := h i it hit'
    exact ⟨it, node, hit, hit', hnode, hkey⟩

/-- For every list of interface types, in every run of operations on a wrapper specialized for
them, the fast path equals the lookup by name. -/
theorem fastPath_of_run (name : ι → String) (cast : CodePtr → Ptr → Ptr) (L : List ι)
    {l : List (Op × SpecializedPlugin ι)} (hrun : Run (step cast) (construct name L) l) :
    States (FastPath name L) (construct name L) l := by
  have hcached : States (fun p => Cached name p ∧ p.iterators = (construct name L).iterators)
      (construct name L) l := by
    refine hrun.states_of_step ⟨construct_cached name L, rfl⟩ ?_
    intro p op p' hp hs
    obtain ⟨_, rfl⟩ := step_eq_some.mp hs
    exact ⟨hp.1.keeps (after_keeps cast p.data op), hp.2⟩
  exact hcached.imp fun p hp => fastPath_of_cached hp.1 hp.2

/-- The names of two interface types. -/
def interfaceName (i : Bool) : String := if i then "I" else "J"

/-- A plugin with one of them is created, assigned to itself and cleared. -/
theorem fastPath_created : States (FastPath interfaceName [true, false, true])
    (construct interfaceName [true, false, true])
    (history (step fun _ ptr => ptr) (construct interfaceName [true, false, true])
      [.create (some ⟨0, (pluginOf "p" (by decide) ["I"] []).mapCode (CodePtr.mk .executable)⟩)
        none true 1 5 [("I", ⟨.executable, 2⟩)], .copySelf, .clear]) :=
  fastPath_of_run interfaceName (fun _ ptr => ptr) [true, false, true] (history_run _ _ _)

end SpecializedPlugin

end GzPlugin
