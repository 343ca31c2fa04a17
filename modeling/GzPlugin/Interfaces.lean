import GzPlugin.Discovery
import GzPlugin.Instances
import GzPlugin.Wrappers

/-!
# HasInterface

The four ways to ask a wrapper for an interface look at different data. They agree on a
wrapper exactly if its map has no entry that its `Info` does not account for.
-/

namespace GzPlugin

open FiniteMaps Runs

set_option autoImplicit false

namespace Plugin

variable {env : Env} {U : Set String} {p other : Plugin}

/-- `Plugin::HasInterface` -/
def hasInterface (p : Plugin) (interfaceName : String) (demangled : Bool) : Bool :=
  match p.info with
  | none => false
  | some info =>
    if demangled then interfaceName ∈ info.info.demangledInterfaces
    else interfaceName ∈ p.interfaces

/-- `SpecializedPlugin::PrivateHasInterface` of the specialized type: whether the entry that
the iterator points to is not null. -/
def privateHasInterface (p : Plugin) (specInterface : String) : Bool :=
  (p.interfaces.lookup specInterface).any (· ≠ 0)

/-- All ways to ask for an interface whose name is in `U` give the same answer. -/
def Truthful (env : Env) (U : Set String) (p : Plugin) : Prop :=
  ∀ interface ∈ U,
    (p.hasInterface interface false = true ↔ p.queryInterface interface ≠ 0) ∧
    (p.privateHasInterface interface = true ↔ p.queryInterface interface ≠ 0) ∧
    (p.hasInterface (env.demangle interface) true = true ↔ p.queryInterface interface ≠ 0)

/-- Entries for these names are accounted for by the `Info`, if there is one. -/
def Fits (U : Set String) (names : Finset String) (info : Option (ConstInfoPtr CodePtr)) : Prop :=
  ∀ ptr ∈ info, ∀ interface ∈ names, interface ∈ U → interface ∈ ptr.info.interfaces

instance (U : Set String) [DecidablePred (· ∈ U)] (names : Finset String)
    (info : Option (ConstInfoPtr CodePtr)) : Decidable (Fits U names info) := by
  unfold Fits; infer_instance

/-- The map has no entry beyond the interfaces of the `Info`, and there are none without an
instance. -/
structure Exact (U : Set String) (p : Plugin) : Prop where
  entries : Fits U p.interfaces.keys p.info
  noInstance : p.loadedInstancePtr = none → ∀ info, p.info = some info →
    ∀ interface ∈ info.info.interfaces.keys, interface ∉ U

/-- What the Loader guarantees of an `Info`. -/
structure Offered (env : Env) (info : Info CodePtr) : Prop where
  demangled : info.demangledInterfaces = info.demangledKeys env.demangle
  names : ∀ {interface}, interface ∈ info.interfaces → interface ∈ env.interfaceNames

theorem privateHasInterface_iff (interface : String) :
    p.privateHasInterface interface = true ↔ p.queryInterface interface ≠ 0 := by
  unfold privateHasInterface queryInterface
  cases p.interfaces.lookup interface <;> simp

theorem Offered.mem_demangled {info : Info CodePtr} (h : Offered env info)
    (hU : Set.InjOn env.demangle U) (huse : env.interfaceNames ⊆ U) {interface : String}
    (hI : interface ∈ U) :
    env.demangle interface ∈ info.demangledInterfaces ↔ interface ∈ info.interfaces := by
  rw [h.demangled, Info.demangledKeys, Finset.mem_image]
  constructor
  · rintro ⟨k, hk, he⟩
    rw [Finmap.mem_keys] at hk
    rw [← hU (huse (h.names hk)) hI he]
    exact hk
  · exact fun hi => ⟨interface, Finmap.mem_keys.mpr hi, rfl⟩

/-- An interface can be queried if and only if the wrapper has an instance and its `Info`
lists the interface. -/
theorem Faithful.queryInterface_ne (h : Faithful env.cast p)
    (hcast : ∀ f x, x ≠ 0 → env.cast f x ≠ 0) (interface : String) :
    p.queryInterface interface ≠ 0 ↔ p.loadedInstancePtr ≠ none ∧
      ∃ info, p.info = some info ∧ interface ∈ info.info.interfaces := by
  constructor
  · intro hq
    rw [← privateHasInterface_iff, privateHasInterface, Option.any_eq_true] at hq
    obtain ⟨x, hx, hne⟩ := hq
    obtain ⟨ptr, info, f, hptr, hinfo, hf, _⟩ := h.located hx (of_decide_eq_true hne)
    refine ⟨?_, info, hinfo, Finmap.mem_of_lookup_eq_some hf⟩
    rw [hptr]
    exact Option.some_ne_none ptr
  · rintro ⟨hne, info, hinfo, hi⟩
    obtain ⟨ptr, hptr⟩ := Option.ne_none_iff_exists'.mp hne
    obtain ⟨f, hf⟩ := Finmap.mem_iff.mp hi
    rw [queryInterface, h.complete hptr hinfo hf]
    exact hcast f ptr.get (h.notNull hptr)

theorem Faithful.truthful_iff (h : Faithful env.cast p)
    (hoffered : ∀ info, p.info = some info → Offered env info.info)
    (hcast : ∀ f x, x ≠ 0 → env.cast f x ≠ 0) (hU : Set.InjOn env.demangle U)
    (huse : env.interfaceNames ⊆ U) : Truthful env U p ↔ Exact U p := by
  cases hinfo : p.info with
  | none =>
    have hquery : ∀ interface, p.queryInterface interface = 0 := by
      intro interface
      by_contra hq
      obtain ⟨_, info, hi, _⟩ := (h.queryInterface_ne hcast interface).mp hq
      rw [hinfo] at hi
      cases hi
    refine iff_of_true ?_ ⟨?_, ?_⟩
    · intro interface _
      simp [hasInterface, hinfo, privateHasInterface_iff, hquery]
    · intro ptr hptr
      rw [hinfo] at hptr
      cases hptr
    · intro _ info hi
      rw [hinfo] at hi
      cases hi
  | some info =>
    have hdemangled : ∀ {interface}, interface ∈ U →
        (p.hasInterface (env.demangle interface) true = true ↔
          interface ∈ info.info.interfaces) := by
      intro interface hI
      simp only [hasInterface, hinfo, if_true, decide_eq_true_eq]
      exact (hoffered info hinfo).mem_demangled hU huse hI
    have hmangled : ∀ interface, p.hasInterface interface false = true ↔
        interface ∈ p.interfaces := by
      intro interface
      simp [hasInterface, hinfo]
    have hquery : ∀ interface, p.queryInterface interface ≠ 0 ↔
        p.loadedInstancePtr ≠ none ∧ interface ∈ info.info.interfaces := by
      intro interface
      rw [h.queryInterface_ne hcast, hinfo]
      simp
    constructor
    · intro ht
      constructor
      · intro ptr hptr interface hk hI
        rw [hinfo, Option.mem_some_iff] at hptr
        subst hptr
        exact ((hquery interface).mp ((ht interface hI).1.mp
          ((hmangled interface).mpr (Finmap.mem_keys.mp hk)))).2
      · intro hnone info' hinfo' interface hk hI
        rw [hinfo] at hinfo'
        cases hinfo'
        exact ((hquery interface).mp ((ht interface hI).2.2.mp
          ((hdemangled hI).mpr (Finmap.mem_keys.mp hk)))).1 hnone
    · intro he interface hI
      have hsome : interface ∈ info.info.interfaces → p.loadedInstancePtr ≠ none :=
        fun hi hnone => he.noInstance hnone info hinfo interface (Finmap.mem_keys.mpr hi) hI
      refine ⟨?_, privateHasInterface_iff interface, ?_⟩
      · rw [hmangled, hquery]
        constructor
        · intro hm
          have hi := he.entries info (by rw [hinfo]; rfl) interface (Finmap.mem_keys.mpr hm) hI
          exact ⟨hsome hi, hi⟩
        · rintro ⟨hne, hi⟩
          obtain ⟨ptr, hptr⟩ := Option.ne_none_iff_exists'.mp hne
          obtain ⟨f, hf⟩ := Finmap.mem_iff.mp hi
          exact Finmap.mem_of_lookup_eq_some (h.complete hptr hinfo hf)
      · rw [hdemangled hI, hquery]
        exact ⟨fun hi => ⟨hsome hi, hi⟩, fun hi => hi.2⟩

/-! ### What the operations on a wrapper keep -/

theorem mem_specialized {specInterfaces : List String} {interface : String} :
    interface ∈ (specialized specInterfaces).interfaces ↔ interface ∈ specInterfaces := by
  have hgo : ∀ (l : List String) (p : Plugin),
      interface ∈ (l.foldl getOrCreateIterator p).interfaces ↔
        interface ∈ l ∨ interface ∈ p.interfaces := by
    intro l
    induction l with
    | nil => simp
    | cons i l ih =>
      intro p
      rw [List.foldl_cons, ih, getOrCreateIterator, mem_insertNew, List.mem_cons, or_assoc]
      exact or_left_comm
  rw [specialized, hgo, or_iff_left]
  exact Finmap.notMem_empty

theorem keys_clear (p : Plugin) : p.clear.interfaces.keys = p.interfaces.keys :=
  keys_mapValues _ _

theorem keys_specialized (specInterfaces : List String) :
    (specialized specInterfaces).clear.interfaces.keys = specInterfaces.toFinset := by
  ext interface
  rw [keys_clear, Finmap.mem_keys, mem_specialized, List.mem_toFinset]

theorem exact_none {p : Plugin} (h : p.info = none) : Exact U p where
  entries := by simp [Fits, h]
  noInstance _ info hinfo := by simp [h] at hinfo

theorem exact_made (cast : CodePtr → Ptr → Ptr) (block : Nat) (instance_ : Ptr)
    (info : ConstInfoPtr CodePtr) : Exact U (made cast block instance_ info) where
  entries ptr hptr interface hk _ := by
    cases hptr
    rw [made, castAll, keys_mapValues, Finmap.mem_keys] at hk
    exact hk
  noInstance hnone := by cases hnone

/-- Besides what the source has, a copy has the entries of its target. -/
theorem exact_copy (ho : Exact U other) :
    Exact U (p.copy other) ↔ Fits U p.interfaces.keys other.info := by
  have hkeys : ∀ interface, interface ∈ (p.copy other).interfaces.keys →
      interface ∈ p.interfaces.keys ∨ interface ∈ other.interfaces.keys := by
    intro interface hk
    simp only [copy] at hk
    split at hk
    · rw [Finmap.keys_union, Finset.mem_union] at hk
      exact hk.symm
    · exact Or.inl hk
  have hsub : ∀ interface, interface ∈ p.interfaces.keys →
      interface ∈ (p.copy other).interfaces.keys := by
    intro interface hk
    simp only [copy]
    split
    · rw [Finmap.keys_union]
      exact Finset.mem_union_right _ hk
    · exact hk
  constructor
  · intro h ptr hptr interface hk hI
    exact h.entries ptr hptr interface (hsub interface hk) hI
  · intro h
    refine ⟨?_, ho.noInstance⟩
    intro ptr hptr interface hk hI
    rcases hkeys interface hk with hk | hk
    · exact h ptr hptr interface hk hI
    · exact ho.entries ptr hptr interface hk hI

/-- The wrapper that a lock gives has the entries of the `Info`, or none at all. -/
theorem exact_copyFrom (cast : CodePtr → Ptr → Ptr) (info : Option (ConstInfoPtr CodePtr))
    (instance_ : Option InstancePtr) : Exact U (empty.copyFrom cast info instance_) ↔
      (instance_ = none → ∀ ptr ∈ info, ∀ interface ∈ ptr.info.interfaces.keys,
        interface ∉ U) := by
  constructor
  · exact fun h hnone ptr hptr => h.noInstance hnone ptr hptr
  · intro h
    refine ⟨?_, h⟩
    intro ptr hptr interface hk _
    change ptr ∈ info at hptr
    rw [Option.mem_def] at hptr
    subst hptr
    rw [Finmap.mem_keys] at hk
    simp only [copyFrom] at hk
    split at hk
    · rename_i hinfo
      cases hinfo
      split at hk
      · rw [Finmap.mem_union, castAll, mem_mapValues] at hk
        exact hk.resolve_right Finmap.notMem_empty
      · exact absurd hk Finmap.notMem_empty
    · exact absurd hk Finmap.notMem_empty

end Plugin

namespace Process

variable {env : Env} {U : Set String} {p p' : Process} {v u : Var} {pl other : Plugin}
  {weak : WeakPluginPtr}

/-! ### The wrappers of a process -/

/-- The variable that an operation binds anew, and the wrapper it is then. -/
def rewraps (env : Env) (p : Process) : Op → Option (Var × Option Plugin)
  | .construct v specInterfaces => some (v, some (Plugin.specialized specInterfaces))
  | .copyConstruct v specInterfaces u =>
    some (v, (p.plugins.lookup u).map fun other =>
      (Plugin.specialized specInterfaces).clear.copy other)
  | .instantiate v specInterfaces s instance_ =>
    let pl := (p.world.instantiate env s instance_).1
    some (v, some (if specInterfaces = [] then pl
      else (Plugin.specialized specInterfaces).clear.copy pl))
  | .assign v u =>
    some (v, (p.plugins.lookup v).bind fun pl =>
      if u = v then some (pl.clear.copy pl.clear)
      else (p.plugins.lookup u).map fun other => pl.clear.copy other)
  | .clear v => some (v, (p.plugins.lookup v).map Plugin.clear)
  | .destroy v => some (v, none)
  | .lock v x => some (v, (p.weaks.lookup x).map fun weak => p.lockedPlugin env weak)
  | .pluginFromThis v block =>
    some (v, (p.fromThis.lookup block).map fun weak => p.lockedPlugin env weak)
  | _ => none

theorem assign_wrapper (hl : p.plugins.lookup v = some pl) (hu : p.plugins.lookup u = some other) :
    (p.assign v u).plugins =
      p.plugins.insert v (pl.clear.copy (if u = v then pl.clear else other)) := by
  have hv : (p.clear v).plugins.lookup v = some pl.clear := by
    rw [clear_plugins hl, Finmap.lookup_insert]
  have hu' : (p.clear v).plugins.lookup u = some (if u = v then pl.clear else other) := by
    rw [clear_plugins hl, lookup_insert_eq, hu]
    split <;> rfl
  simp only [assign, hv, hu', setPlugin]
  rw [clear_plugins hl, Finmap.insert_insert]

theorem lock_plugins (env : Env) (p : Process) (v : Var) (weak : WeakPluginPtr) :
    (p.lock env v weak).plugins = p.plugins.insert v (p.lockedPlugin env weak) := by
  rw [lock_eq]
  rfl

theorem instantiate_plugins (env : Env) (p : Process) (v : Var) (specInterfaces : List String)
    (s : String) (instance_ : Ptr) :
    (p.instantiate env v specInterfaces s instance_).plugins = p.plugins.insert v
      (if specInterfaces = [] then (p.world.instantiate env s instance_).1
        else (Plugin.specialized specInterfaces).clear.copy
          (p.world.instantiate env s instance_).1) := by
  obtain ⟨fromThis, he, _⟩ := setFromThis_eq
    { p with world := (p.world.instantiate env s instance_).2 }
    (p.world.instantiate env s instance_).1
  simp only [instantiate, he, setPlugin]

/-- Every operation binds the wrapper that `rewraps` names, and no other. -/
theorem step_rewraps {op : Op} (hs : step env p op = some p') :
    (fun v => p'.plugins.lookup v) = rebind (fun v => p.plugins.lookup v) (p.rewraps env op) := by
  have hset : ∀ {v q}, p'.plugins = p.plugins.insert v q →
      p.rewraps env op = some (v, some q) →
      (fun v => p'.plugins.lookup v) =
        rebind (fun v => p.plugins.lookup v) (p.rewraps env op) := by
    intro v q h hop
    rw [hop, h]
    exact lookup_insert_update _ _ _
  have hkept : p'.plugins = p.plugins → p.rewraps env op = none →
      (fun v => p'.plugins.lookup v) =
        rebind (fun v => p.plugins.lookup v) (p.rewraps env op) := by
    intro h hop
    rw [hop, h]
    rfl
  obtain ⟨hen, rfl⟩ := step_eq_some.mp hs
  cases op with
  | loader op => exact hkept (loader_frame env p op).plugins rfl
  | construct v specInterfaces => exact hset rfl rfl
  | copyConstruct v specInterfaces u =>
    obtain ⟨other, ho⟩ := Finmap.mem_iff.mp hen.2
    refine hset (v := v) (q := (Plugin.specialized specInterfaces).clear.copy other) ?_ ?_
    · simp only [after, copyConstruct, ho]
      rfl
    · simp [rewraps, ho]
  | instantiate v specInterfaces s instance_ =>
    exact hset (instantiate_plugins env p v specInterfaces s instance_) rfl
  | assign v u =>
    obtain ⟨pl, hl⟩ := Finmap.mem_iff.mp hen.1
    obtain ⟨other, ho⟩ := Finmap.mem_iff.mp hen.2
    refine hset (assign_wrapper hl ho) ?_
    simp only [rewraps, hl, ho, Option.bind_some]
    split <;> rfl
  | clear v =>
    obtain ⟨pl, hl⟩ := Finmap.mem_iff.mp hen
    exact hset (clear_plugins hl) (by simp [rewraps, hl])
  | destroy v =>
    obtain ⟨pl, hl⟩ := Finmap.mem_iff.mp hen
    rw [after, destroy_plugins hl]
    exact lookup_erase_update _ _
  | queryInterfaceSharedPtr i v interface =>
    refine hkept ?_ rfl
    rw [after, queryInterfaceSharedPtr_eq]
    cases p.queried v interface <;> rfl
  | shareInstance i v =>
    refine hkept ?_ rfl
    rw [after, shareInstance_eq]
    cases (p.plugins.lookup v).bind (·.loadedInstancePtr) <;> rfl
  | dropShared i => exact hkept (releaseInstance_plugins _ _) rfl
  | assignWeak x v =>
    obtain ⟨pl, hl⟩ := Finmap.mem_iff.mp hen
    exact hkept (by rw [after, assignWeak_eq p x hl]) rfl
  | dropWeak x => exact hkept rfl rfl
  | lock v x =>
    obtain ⟨weak, hw⟩ := Finmap.mem_iff.mp hen.2
    refine hset (v := v) (q := p.lockedPlugin env weak) ?_ (by simp [rewraps, hw])
    simp only [after, hw]
    exact lock_plugins env p v weak
  | pluginFromThis v block =>
    obtain ⟨weak, hw⟩ := Finmap.mem_iff.mp hen.2
    refine hset (v := v) (q := p.lockedPlugin env weak) ?_ (by simp [rewraps, hw])
    simp only [after, hw]
    exact lock_plugins env p v weak

theorem Made.instantiated {op : Op} {block : Nat} (hm : Made p v block weak p')
    (h : Consistent env p) (hs : step env p op = some p') :
    ∃ s instance_, weak = (p.world.instantiate env s instance_).1.weak := by
  cases step_effect h hs with
  | released _ hrel _ =>
    have hmem : block ∈ p'.world.instances := (hm.mem_instances block).mpr (Or.inl rfl)
    obtain ⟨i, hi⟩ := Finmap.mem_iff.mp hmem
    rw [hrel.instances] at hi
    split at hi
    · exact absurd (Finmap.mem_of_lookup_eq_some hi) (hm.not_mem h)
    · cases hi
  | made v' block' weak' hmade hbound hv' _ hm' =>
    have hweak : weak = weak' := by
      obtain ⟨pl, rfl, hplugins⟩ := hm.bound
      obtain ⟨pl', rfl, hplugins'⟩ := hm'.bound
      have hl : p'.plugins.lookup v' = some pl' := by rw [hplugins', Finmap.lookup_insert]
      rw [hplugins, lookup_insert_eq] at hl
      split at hl
      · cases hl
        rfl
      · exact absurd (Finmap.mem_of_lookup_eq_some hl) hv'
    cases op with
    | instantiate v s specInterfaces instance_ =>
      simp only [rebinds, Option.some.injEq, Prod.mk.injEq] at hbound
      exact ⟨_, _, hweak.trans hbound.2.symm⟩
    | _ => cases hmade

end Process

/-! ### The invariant -/

/-- An instance is not null, and an `Info` is one that the Loader has stored. -/
structure WeakPluginPtr.Genuine (env : Env) (weak : WeakPluginPtr) : Prop where
  notNull : ∀ {ptr}, weak.instance_ = some ptr → ptr.get ≠ 0
  offered : ∀ {info}, weak.info = some info → Plugin.Offered env info.info

theorem World.instantiate_offered {env : Env} {w : World} (h : Sound env w)
    (hfrom : FromLibraries env w) (s : String) (instance_ : Ptr) {info : ConstInfoPtr CodePtr}
    (hinfo : (w.instantiate env s instance_).1.info = some info) :
    Plugin.Offered env info.info := by
  cases h.resolution s with
  | file ptr hp _ hptr _ hmade =>
    rw [hmade] at hinfo
    cases hinfo
    exact ⟨h.tables.demangled hptr, hfrom.interfaces hptr⟩
  | stale _ _ hmade =>
    rw [hmade] at hinfo
    cases hinfo
  | static stored _ _ hstored hmade =>
    rw [hmade] at hinfo
    cases hinfo
    exact ⟨env.statics_wellFormed.demangled hstored, env.statics_interfaces hstored⟩
  | missing _ _ hmade =>
    rw [hmade] at hinfo
    cases hinfo

theorem World.instantiate_faithful {env : Env} {w : World} (h : Sound env w) (s : String)
    {instance_ : Ptr} (hne : instance_ ≠ 0) :
    (w.instantiate env s instance_).1.Faithful env.cast := by
  rcases instantiate_cases h s instance_ with ⟨he, _⟩ | ⟨block, info, _, _, _, hmade, _⟩
  · rw [he]
    exact Plugin.empty_faithful
  · have hunion := Plugin.castAll_union_cleared env.cast instance_ info
    have hf : Plugin.Faithful env.cast _ :=
      Plugin.castAll_faithful (Plugin.clear_cleared Plugin.empty) ⟨block, instance_⟩ info hne
    rw [hunion] at hf
    rw [hmade]
    exact hf

namespace Process

variable {env : Env} {U : Set String} {p p' : Process} {v u : Var} {pl other : Plugin}
  {weak : WeakPluginPtr}

structure Genuine (env : Env) (p : Process) : Prop where
  consistent : Consistent env p
  fromLibraries : World.FromLibraries env p.world
  refs : AllRefs (WeakPluginPtr.Genuine env) p
  plugins : ∀ {v pl}, p.plugins.lookup v = some pl → pl.Faithful env.cast

theorem init_genuine (env : Env) : Genuine env init where
  consistent := init_consistent env
  fromLibraries name ptr hptr := by
    simp [init, World.init, Implementation.empty, Registry.empty] at hptr
  refs := init_allRefs _
  plugins h := by simp [init] at h

theorem lockedPlugin_faithful (h : weak.Genuine env) : (p.lockedPlugin env weak).Faithful env.cast :=
  Plugin.copyFrom_faithful Plugin.empty_cleared _ fun _ hptr =>
    h.notNull (Option.filter_eq_some_iff.mp hptr).1

theorem Genuine.rewrapped {op : Op} (h : Genuine env p) (hen : p.Enabled env op)
    (hr : p.rewraps env op = some (v, some pl)) : pl.Faithful env.cast := by
  cases op with
  | construct v specInterfaces =>
    cases hr
    exact Plugin.specialized_faithful specInterfaces
  | copyConstruct v specInterfaces u =>
    simp only [rewraps, Option.some.injEq, Prod.mk.injEq, Option.map_eq_some_iff] at hr
    obtain ⟨_, other, ho, rfl⟩ := hr
    exact Plugin.copy_faithful (Plugin.clear_cleared _) (h.plugins ho)
  | instantiate v specInterfaces s instance_ =>
    have hf := World.instantiate_faithful h.consistent.sound s hen.2.2
    simp only [rewraps, Option.some.injEq, Prod.mk.injEq] at hr
    obtain ⟨_, rfl⟩ := hr
    split
    · exact hf
    · exact Plugin.copy_faithful (Plugin.clear_cleared _) hf
  | assign v u =>
    simp only [rewraps, Option.some.injEq, Prod.mk.injEq, Option.bind_eq_some_iff] at hr
    obtain ⟨_, old, hl, hr⟩ := hr
    split at hr
    · cases hr
      exact Plugin.copy_faithful (Plugin.clear_cleared old) (Plugin.clear_faithful old)
    · obtain ⟨other, ho, rfl⟩ := Option.map_eq_some_iff.mp hr
      exact Plugin.copy_faithful (Plugin.clear_cleared old) (h.plugins ho)
  | clear v =>
    simp only [rewraps, Option.some.injEq, Prod.mk.injEq, Option.map_eq_some_iff] at hr
    obtain ⟨_, old, _, rfl⟩ := hr
    exact Plugin.clear_faithful old
  | lock v x =>
    simp only [rewraps, Option.some.injEq, Prod.mk.injEq, Option.map_eq_some_iff] at hr
    obtain ⟨_, weak, hw, rfl⟩ := hr
    exact lockedPlugin_faithful (h.refs.recorded (Or.inl ⟨x, hw⟩))
  | pluginFromThis v block =>
    simp only [rewraps, Option.some.injEq, Prod.mk.injEq, Option.map_eq_some_iff] at hr
    obtain ⟨_, weak, hw, rfl⟩ := hr
    exact lockedPlugin_faithful (h.refs.recorded (Or.inr ⟨block, hw⟩))
  | _ => cases hr

theorem step_genuine {op : Op} (h : Genuine env p) (hs : step env p op = some p') :
    Genuine env p' where
  consistent := step_consistent h.consistent hs
  fromLibraries := by
    rcases step_world hs with he | ⟨o, hstep, _⟩
    · rw [he]
      exact h.fromLibraries
    · exact h.fromLibraries.step h.consistent.sound hstep
  refs := by
    refine h.refs.next h.consistent hs ⟨nofun, nofun⟩ (fun _ hq => hq) ?_ ?_
    · intro weak _ hq
      constructor
      · exact fun hptr => hq.notNull (Option.filter_eq_some_iff.mp hptr).1
      · exact fun hinfo => hq.offered (Option.filter_eq_some_iff.mp hinfo).1
    · intro v block weak hm
      obtain ⟨ptr, info, i, hweak, _, hne, _⟩ := hm.instances
      obtain ⟨s, instance_, hinst⟩ := hm.instantiated h.consistent hs
      constructor
      · intro ptr' hptr
        rw [hweak] at hptr
        cases hptr
        exact hne
      · intro info' hinfo
        rw [hinst] at hinfo
        exact World.instantiate_offered h.consistent.sound h.fromLibraries s instance_ hinfo
  plugins {v pl} hl := by
    have hl' : rebind (fun v => p.plugins.lookup v) (p.rewraps env op) v = some pl := by
      rw [← step_rewraps hs]
      exact hl
    rcases rebind_eq_some hl' with hold | hnew
    · exact h.plugins hold
    · exact h.rewrapped (step_eq_some.mp hs).1 hnew

/-! ### Truthful answers along a run -/

/-- Every wrapper answers truthfully about the interfaces whose names are in `U`. -/
def Truthful (env : Env) (U : Set String) (p : Process) : Prop :=
  ∀ v pl, p.plugins.lookup v = some pl → pl.Truthful env U

/-- A lock that finds the `Info` alive finds the instance alive, unless the `Info` lists
none of the interfaces. -/
def LockFits (U : Set String) (p : Process) (weak : WeakPluginPtr) : Prop :=
  p.lockInstance weak = none → ∀ ptr ∈ p.lockInfo weak,
    ∀ interface ∈ ptr.info.interfaces.keys, interface ∉ U

/-- Whoever is given an `Info` has no entries for interfaces that this `Info` does not list,
neither of a specialization nor of a plugin that it held before. -/
def Covers (env : Env) (U : Set String) (p : Process) : Op → Prop
  | .copyConstruct _ specInterfaces u =>
    ∀ other ∈ p.plugins.lookup u, Plugin.Fits U specInterfaces.toFinset other.info
  | .instantiate _ specInterfaces s instance_ =>
    Plugin.Fits U specInterfaces.toFinset (p.world.instantiate env s instance_).1.info
  | .assign v u => u ≠ v → ∀ pl ∈ p.plugins.lookup v, ∀ other ∈ p.plugins.lookup u,
      Plugin.Fits U pl.interfaces.keys other.info
  | .lock _ x => ∀ weak ∈ p.weaks.lookup x, p.LockFits U weak
  | .pluginFromThis _ block => ∀ weak ∈ p.fromThis.lookup block, p.LockFits U weak
  | _ => True

instance (U : Set String) [DecidablePred (· ∈ U)] (p : Process) (weak : WeakPluginPtr) :
    Decidable (p.LockFits U weak) := by
  unfold LockFits; infer_instance

instance (env : Env) (U : Set String) [DecidablePred (· ∈ U)] (p : Process) (op : Op) :
    Decidable (p.Covers env U op) := by
  induction op using Op.casesOn <;> unfold Covers <;> infer_instance

theorem Genuine.truthful_iff (h : Genuine env p) (hcast : ∀ f x, x ≠ 0 → env.cast f x ≠ 0)
    (hU : Set.InjOn env.demangle U) (huse : env.interfaceNames ⊆ U) :
    p.Truthful env U ↔ ∀ v pl, p.plugins.lookup v = some pl → pl.Exact U := by
  refine forall_congr' fun v => forall_congr' fun pl => forall_congr' fun hl => ?_
  refine (h.plugins hl).truthful_iff ?_ hcast hU huse
  intro info hinfo
  exact (h.refs.plugins (ref_eq hl)).offered hinfo

/-- What an operation binds anew is exact if and only if the operation covers it. -/
theorem Genuine.covers_iff {op : Op} (h : Genuine env p) (hen : p.Enabled env op)
    (hexact : ∀ v pl, p.plugins.lookup v = some pl → pl.Exact U) :
    (∀ v pl, p.rewraps env op = some (v, some pl) → pl.Exact U) ↔ p.Covers env U op := by
  have hnone : (∀ v pl, p.rewraps env op ≠ some (v, some pl)) → p.Covers env U op →
      ((∀ v pl, p.rewraps env op = some (v, some pl) → pl.Exact U) ↔ p.Covers env U op) :=
    fun hop hc => iff_of_true (fun v pl hr => absurd hr (hop v pl)) hc
  have hone : ∀ {v q}, p.rewraps env op = some (v, some q) →
      ((∀ v pl, p.rewraps env op = some (v, some pl) → pl.Exact U) ↔ q.Exact U) := by
    intro v q hr
    constructor
    · exact fun hall => hall v q hr
    · intro hnew v' pl hr'
      rw [hr] at hr'
      cases hr'
      exact hnew
  cases op with
  | construct v specInterfaces =>
    refine (hone (v := v) rfl).trans (iff_of_true ?_ trivial)
    exact Plugin.exact_none (Plugin.specialized_info specInterfaces)
  | copyConstruct v specInterfaces u =>
    obtain ⟨other, ho⟩ := Finmap.mem_iff.mp hen.2
    refine (hone (v := v) (by rw [rewraps, ho]; rfl)).trans ?_
    rw [Plugin.exact_copy (hexact u other ho), Plugin.keys_specialized]
    simp [Covers, ho]
  | instantiate v specInterfaces s instance_ =>
    have hinst : (p.world.instantiate env s instance_).1.Exact U := by
      rcases World.instantiate_cases h.consistent.sound s instance_ with
        ⟨he, _⟩ | ⟨block, info, _, _, _, hmade, _⟩
      · rw [he]
        exact Plugin.exact_none rfl
      · rw [hmade]
        exact Plugin.exact_made _ _ _ _
    refine (hone (v := v) rfl).trans ?_
    by_cases hspec : specInterfaces = []
    · rw [if_pos hspec]
      refine iff_of_true hinst ?_
      intro ptr _ interface hi
      rw [hspec] at hi
      exact absurd hi (Finset.notMem_empty interface)
    · rw [if_neg hspec, Plugin.exact_copy hinst, Plugin.keys_specialized]
      rfl
  | assign v u =>
    obtain ⟨old, hl⟩ := Finmap.mem_iff.mp hen.1
    obtain ⟨other, ho⟩ := Finmap.mem_iff.mp hen.2
    by_cases hu : u = v
    · refine (hone (v := v) (q := old.clear.copy old.clear) ?_).trans ?_
      · simp [rewraps, hl, hu]
      · exact iff_of_true (Plugin.exact_none rfl) fun hne => absurd hu hne
    · refine (hone (v := v) (q := old.clear.copy other) ?_).trans ?_
      · simp [rewraps, hl, ho, hu]
      · rw [Plugin.exact_copy (hexact u other ho), Plugin.keys_clear]
        simp [Covers, hl, ho, hu]
  | clear v =>
    obtain ⟨old, hl⟩ := Finmap.mem_iff.mp hen
    refine (hone (v := v) (by rw [rewraps, hl]; rfl)).trans ?_
    exact iff_of_true (Plugin.exact_none rfl) trivial
  | destroy v => exact hnone (fun _ _ hr => by cases hr) trivial
  | lock v x =>
    obtain ⟨weak, hw⟩ := Finmap.mem_iff.mp hen.2
    refine (hone (v := v) (by rw [rewraps, hw]; rfl)).trans ((Plugin.exact_copyFrom _ _ _).trans ?_)
    simp only [Covers, hw, Option.mem_some_iff, forall_eq']
    rfl
  | pluginFromThis v block =>
    obtain ⟨weak, hw⟩ := Finmap.mem_iff.mp hen.2
    refine (hone (v := v) (by rw [rewraps, hw]; rfl)).trans ((Plugin.exact_copyFrom _ _ _).trans ?_)
    simp only [Covers, hw, Option.mem_some_iff, forall_eq']
    rfl
  | _ => exact hnone (fun _ _ hr => by cases hr) trivial

/-- In a run all wrappers answer truthfully in all states if and only if no step puts an
`Info` into a wrapper that has an entry for an interface which this `Info` does not list. -/
theorem truthful_iff_covers (env : Env) (hcast : ∀ f x, x ≠ 0 → env.cast f x ≠ 0)
    {U : Set String} (hU : Set.InjOn env.demangle U) (huse : env.interfaceNames ⊆ U)
    {l : List (Op × Process)} (hrun : Run (step env) init l) :
    States (Truthful env U) init l ↔ Steps (Covers env U) init l := by
  refine hrun.states_iff (I := Genuine env) (init_genuine env) ?_
    (fun h hs => step_genuine h hs) ?_
  · intro v pl hl
    simp [init] at hl
  · intro p op p' h hP hs
    have hbinds := step_rewraps hs
    have hexact := (h.truthful_iff hcast hU huse).mp hP
    rw [(step_genuine h hs).truthful_iff hcast hU huse,
      ← h.covers_iff (step_eq_some.mp hs).1 hexact]
    constructor
    · intro hnew v pl hr
      refine hnew v pl ((congrFun hbinds v).trans ?_)
      rw [hr, rebind, Function.update_self]
    · intro hnew v pl hl
      rcases rebind_eq_some ((congrFun hbinds v).symm.trans hl) with hold | hr
      · exact hexact v pl hold
      · exact hnew v pl hr

/-- A specialized copy, a plain one, and a re-assignment. -/
def recast : List Op :=
  oneInstance ++ [.copyConstruct 1 ["I"] 0, .copyConstruct 2 [] 1, .clear 0, .assign 0 2]

theorem truthful_recast :
    States (Truthful sharedName Set.univ) init (history (step sharedName) init recast) :=
  (truthful_iff_covers sharedName (fun _ _ hx => hx) (fun _ _ _ _ h => h) (Set.subset_univ _)
    (history_run (step sharedName) init recast)).mpr (by decide)

/-- The plugin has no interface "K", but a copy that is specialized for it says so. -/
theorem not_truthful_specialized :
    ¬ ∀ l, Run (step sharedName) init l → States (Truthful sharedName Set.univ) init l := by
  intro h
  have hlast := (h _ (history_run (step sharedName) init
    (oneInstance ++ [.copyConstruct 1 ["K"] 0]))).last
  have hentry : ((last init (history (step sharedName) init
      (oneInstance ++ [.copyConstruct 1 ["K"] 0]))).plugins.lookup 1).any
        (fun pl => pl.hasInterface "K" false && pl.queryInterface "K" = 0) = true := by decide
  obtain ⟨pl, hl, hpl⟩ := Option.any_eq_true _ _ |>.mp hentry
  rw [Bool.and_eq_true, decide_eq_true_eq] at hpl
  exact ((hlast 1 pl hl) "K" (Set.mem_univ _)).1.mp hpl.1 hpl.2

end Process

end GzPlugin
