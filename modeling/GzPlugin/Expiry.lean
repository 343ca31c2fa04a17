import GzPlugin.Interfaces
import GzPlugin.Mapped

/-!
# Weak pointers to a plugin

A `WeakPluginPtr` counts references to the instance and to the `Info` apart. It is followed
through a run together with its copies, and with the copies of the `PluginPtr` that it was
assigned from.
-/

namespace GzPlugin

open FiniteMaps Runs

set_option autoImplicit false

namespace Plugin

variable {cast : CodePtr → Ptr → Ptr} {p other : Plugin}

/-- Equal as a `PluginPtr`, with the same name and the same interfaces. -/
structure Same (p other : Plugin) : Prop where
  equal : p.loadedInstancePtr.map (·.get) = other.loadedInstancePtr.map (·.get)
  name : p.name = other.name
  queries : ∀ interface, p.queryInterface interface = other.queryInterface interface

/-- What can be asked of a `PluginPtr` has the answers of a default constructed one. -/
structure LooksEmpty (p : Plugin) : Prop where
  isEmpty : p.isEmpty = true
  name : p.name = none
  queries : ∀ interface, p.queryInterface interface = 0
  interfaces : ∀ interface demangled, p.hasInterface interface demangled = false

/-- The pointers determine what a faithful wrapper answers. -/
theorem Faithful.same (h : Faithful cast p) (ho : Faithful cast other)
    (he : p.weak = other.weak) : Same p other := by
  have hinst : p.loadedInstancePtr = other.loadedInstancePtr :=
    congrArg WeakPluginPtr.instance_ he
  have hinfo : p.info = other.info := congrArg WeakPluginPtr.info he
  have hle : ∀ {a b : Plugin}, a.Faithful cast → b.Faithful cast → a.weak = b.weak →
      ∀ interface, a.queryInterface interface ≠ 0 →
        b.queryInterface interface = a.queryInterface interface := by
    intro a b ha hb hab interface hq
    rw [← privateHasInterface_iff, privateHasInterface, Option.any_eq_true] at hq
    obtain ⟨x, hx, hne⟩ := hq
    obtain ⟨ptr, info, f, hptr, hinfo, hf, rfl⟩ := ha.located hx (of_decide_eq_true hne)
    have hptr' : b.loadedInstancePtr = some ptr :=
      (congrArg WeakPluginPtr.instance_ hab).symm.trans hptr
    have hinfo' : b.info = some info := (congrArg WeakPluginPtr.info hab).symm.trans hinfo
    have hb' := hb.complete hptr' hinfo' hf
    rw [queryInterface, queryInterface, hb', hx]
  refine ⟨by rw [hinst], by rw [name, name, hinfo], ?_⟩
  intro interface
  by_cases hp : p.queryInterface interface = 0
  · by_contra hne
    have hother : other.queryInterface interface ≠ 0 := fun hzero => hne (hp.trans hzero.symm)
    exact hne (hle ho h he.symm interface hother)
  · exact (hle h ho he interface hp).symm

end Plugin

namespace Process

variable {env : Env} {p p' : Process} {v u : Var} {pl other : Plugin} {weak : WeakPluginPtr}

/-- `WeakPluginPtr::IsExpired` -/
def isExpired (p : Process) (weak : WeakPluginPtr) : Bool :=
  !(Plugin.isSet (p.lockInstance weak) && (p.lockInfo weak).isSome)

/-- The operations of a process, and the assignment of one weak pointer to another. -/
inductive WeakOp where
  | plain (op : Op)
  | copyWeak (x y : Nat)

/-- It goes on after a call into code that is not mapped, as `Process.step` does. -/
def weakStep (env : Env) (p : Process) : WeakOp → Option Process
  | .plain op => step env p op
  | .copyWeak x y => (p.weaks.lookup y).map fun weak => { p with weaks := p.weaks.insert x weak }

/-- The variables that hold a copy of a `PluginPtr`, and the weak pointers assigned from them. -/
structure Copies where
  plugins : Finset Var
  weaks : Finset Nat

namespace Copies

def setPlugin (c : Copies) (v : Var) (isCopy : Bool) : Copies :=
  { c with plugins := if isCopy then insert v c.plugins else c.plugins.erase v }

def setWeak (c : Copies) (x : Nat) (isCopy : Bool) : Copies :=
  { c with weaks := if isCopy then insert x c.weaks else c.weaks.erase x }

/-- How copying, casting and assigning hand a `PluginPtr` on. -/
def next (_ : Process) (c : Copies) : WeakOp → Copies
  | .plain (.copyConstruct v _ u) => c.setPlugin v (u ∈ c.plugins)
  | .plain (.assign v u) => c.setPlugin v (u ≠ v ∧ u ∈ c.plugins)
  | .plain (.clear v) => c.setPlugin v false
  | .plain (.destroy v) => c.setPlugin v false
  | .plain (.assignWeak x v) => c.setWeak x (v ∈ c.plugins)
  | .plain (.dropWeak x) => c.setWeak x false
  | .copyWeak x y => c.setWeak x (y ∈ c.weaks)
  | _ => c

/-- The copies refer to what the original referred to. -/
structure Follow (weak : WeakPluginPtr) (p : Process) (c : Copies) : Prop where
  plugins : ∀ v ∈ c.plugins, p.ref v = some weak
  weaks : ∀ x ∈ c.weaks, p.weaks.lookup x = some weak

variable {c : Copies}

theorem setPlugin_follow {r : Option WeakPluginPtr} {isCopy : Bool}
    (h : ∀ v ∈ c.plugins, p.ref v = some weak)
    (href : p'.ref = Function.update p.ref v r) (hcopy : isCopy = true → r = some weak) :
    ∀ u ∈ (c.setPlugin v isCopy).plugins, p'.ref u = some weak := by
  intro u hu
  rw [href, Function.update_apply]
  simp only [setPlugin] at hu
  split
  · rename_i huv
    split at hu
    · exact hcopy ‹_›
    · exact absurd huv (Finset.ne_of_mem_erase hu)
  · rename_i huv
    split at hu
    · exact h u (Finset.mem_of_mem_insert_of_ne hu huv)
    · exact h u (Finset.mem_of_mem_erase hu)

theorem setWeak_follow {x : Nat} {r : Option WeakPluginPtr} {isCopy : Bool}
    (h : ∀ x ∈ c.weaks, p.weaks.lookup x = some weak)
    (hweaks : (fun x => p'.weaks.lookup x) = Function.update (fun x => p.weaks.lookup x) x r)
    (hcopy : isCopy = true → r = some weak) :
    ∀ y ∈ (c.setWeak x isCopy).weaks, p'.weaks.lookup y = some weak := by
  intro y hy
  have hlookup := congrFun hweaks y
  rw [Function.update_apply] at hlookup
  rw [hlookup]
  simp only [setWeak] at hy
  split
  · rename_i hyx
    split at hy
    · exact hcopy ‹_›
    · exact absurd hyx (Finset.ne_of_mem_erase hy)
  · rename_i hyx
    split at hy
    · exact h y (Finset.mem_of_mem_insert_of_ne hy hyx)
    · exact h y (Finset.mem_of_mem_erase hy)

theorem Follow.fresh (h : Follow weak p c) {r : Option WeakPluginPtr} (hv : v ∉ p.plugins)
    (href : p'.ref = Function.update p.ref v r) : ∀ u ∈ c.plugins, p'.ref u = some weak := by
  intro u hu
  have hold := h.plugins u hu
  rw [href, Function.update_of_ne]
  · exact hold
  · rintro rfl
    rw [ref, Finmap.lookup_eq_none.mpr hv] at hold
    cases hold

theorem Follow.next {op : WeakOp} (h : Follow weak p c) (hs : weakStep env p op = some p') :
    Follow weak p' (c.next p op) := by
  cases op with
  | copyWeak x y =>
    obtain ⟨w, hw, rfl⟩ := Option.map_eq_some_iff.mp hs
    refine ⟨h.plugins, setWeak_follow h.weaks (lookup_insert_update p.weaks x w) ?_⟩
    intro hy
    rw [← hw, h.weaks y (of_decide_eq_true hy)]
  | plain op =>
    have hb := step_binds hs
    have hen := (step_eq_some.mp hs).1
    have hplugins : p.rebinds env op = none → ∀ u ∈ c.plugins, p'.ref u = some weak := by
      intro hop u hu
      rw [hb.ref, hop]
      exact h.plugins u hu
    have hweaks : p.reweaks op = none → ∀ x ∈ c.weaks, p'.weaks.lookup x = some weak := by
      intro hop x hx
      have hsame := congrFun hb.weaks x
      rw [hop] at hsame
      exact hsame.trans (h.weaks x hx)
    cases op with
    | construct v specInterfaces => exact ⟨h.fresh hen hb.ref, hweaks rfl⟩
    | copyConstruct v specInterfaces u =>
      refine ⟨setPlugin_follow h.plugins hb.ref ?_, hweaks rfl⟩
      exact fun hu => h.plugins u (of_decide_eq_true hu)
    | instantiate v specInterfaces s instance_ => exact ⟨h.fresh hen.1 hb.ref, hweaks rfl⟩
    | assign v u =>
      refine ⟨setPlugin_follow h.plugins hb.ref ?_, hweaks rfl⟩
      intro hu
      obtain ⟨hne, hu⟩ := of_decide_eq_true hu
      rw [if_neg hne]
      exact h.plugins u hu
    | clear v => exact ⟨setPlugin_follow h.plugins hb.ref nofun, hweaks rfl⟩
    | destroy v => exact ⟨setPlugin_follow h.plugins hb.ref nofun, hweaks rfl⟩
    | assignWeak x v =>
      refine ⟨hplugins rfl, setWeak_follow h.weaks hb.weaks ?_⟩
      exact fun hv => h.plugins v (of_decide_eq_true hv)
    | dropWeak x => exact ⟨hplugins rfl, setWeak_follow h.weaks hb.weaks nofun⟩
    | lock v x => exact ⟨h.fresh hen.1 hb.ref, hweaks rfl⟩
    | pluginFromThis v block => exact ⟨h.fresh hen.1 hb.ref, hweaks rfl⟩
    | loader op => exact ⟨hplugins rfl, hweaks rfl⟩
    | queryInterfaceSharedPtr i v interface => exact ⟨hplugins rfl, hweaks rfl⟩
    | shareInstance i v => exact ⟨hplugins rfl, hweaks rfl⟩
    | dropShared i => exact ⟨hplugins rfl, hweaks rfl⟩

end Copies

theorem weakStep_genuine {op : WeakOp} (h : Genuine env p) (hs : weakStep env p op = some p') :
    Genuine env p' := by
  cases op with
  | plain op => exact step_genuine h hs
  | copyWeak x y =>
    obtain ⟨w, hw, rfl⟩ := Option.map_eq_some_iff.mp hs
    refine ⟨⟨h.consistent.sound, h.consistent.alive, h.consistent.fromThis, h.consistent.fresh⟩,
      h.fromLibraries, ⟨h.refs.plugins, ?_⟩, h.plugins⟩
    rintro weak (⟨x', hx⟩ | hthis)
    · rw [lookup_insert_eq] at hx
      split at hx
      · cases hx
        exact h.refs.recorded (Or.inl ⟨y, hw⟩)
      · exact h.refs.recorded (Or.inl ⟨x', hx⟩)
    · exact h.refs.recorded (Or.inr hthis)

/-- A weak pointer to the instance `ptr` is faithful to the wrapper `pl`: it can be locked with
casts that are mapped as long as a copy of `pl` exists, and is like an empty one after the
instance has ended. -/
structure TrueTo (env : Env) (pl : Plugin) (ptr : InstancePtr) (weak : WeakPluginPtr)
    (st : Process × Copies) : Prop where
  held : ∀ v ∈ st.2.plugins, ∀ other ∈ st.1.plugins.lookup v, st.1.isExpired weak = false ∧
    (st.1.lockedPlugin env weak).Same other ∧ (st.1.lockedPlugin env weak).Same pl ∧
    ∀ info ∈ st.1.lockInfo weak, st.1.world.dl.MapsCode info.info
  gone : ptr.block ∉ st.1.world.instances →
    st.1.isExpired weak = true ∧ (st.1.lockedPlugin env weak).LooksEmpty

/-- The wrapper had an `Info`, whose library is open as long as a copy exists, and when the
instance is gone so is the `Info`: neither the file registry nor any other wrapper refers to it. -/
structure InfoEnds (pl : Plugin) (ptr : InstancePtr) (st : Process × Copies) : Prop where
  info : st.2.plugins.Nonempty → ∃ info ∈ pl.info, st.1.world.dl.MapsCode info.info
  gone : ptr.block ∉ st.1.world.instances → ∀ info ∈ pl.info, ¬ st.1.InfoHeld info.addr

theorem lockInstance_gone {ptr : InstancePtr} (hptr : weak.instance_ = some ptr)
    (hgone : ptr.block ∉ p.world.instances) : p.lockInstance weak = none := by
  simp [lockInstance, hptr, Option.filter, hgone]

/-- After the end of the instance, a lock gives what is left of the `Info`. -/
theorem looksEmpty_iff {ptr : InstancePtr} (hptr : weak.instance_ = some ptr)
    (hgone : ptr.block ∉ p.world.instances) :
    (p.isExpired weak = true ∧ (p.lockedPlugin env weak).LooksEmpty) ↔
      ∀ info ∈ weak.info, ¬ p.InfoHeld info.addr := by
  have hnone := lockInstance_gone hptr hgone
  have hlocked : p.lockedPlugin env weak = ⟨∅, none, p.lockInfo weak⟩ := by
    rw [lockedPlugin, hnone]
    rfl
  have hinfo : p.lockInfo weak = none ↔ ∀ info ∈ weak.info, ¬ p.InfoHeld info.addr := by
    simp [lockInfo, Option.filter_eq_none_iff]
  rw [hlocked, ← hinfo]
  constructor
  · intro h
    exact Option.map_eq_none_iff.mp h.2.name
  · intro h
    rw [h]
    exact ⟨by simp [isExpired, hnone, Plugin.isSet], rfl, rfl, fun _ => rfl, fun _ _ => rfl⟩

/-- As long as a copy exists, a lock gives the same plugin, if there was an `Info` and its library
is open. -/
theorem locks_iff {ptr : InstancePtr} (h : Genuine env p) (hptr : pl.loadedInstancePtr = some ptr)
    (hpl : pl.Faithful env.cast) (hl : p.plugins.lookup v = some other)
    (hcopy : other.weak = pl.weak) :
    (p.isExpired pl.weak = false ∧ (p.lockedPlugin env pl.weak).Same other ∧
      (p.lockedPlugin env pl.weak).Same pl ∧
      ∀ info ∈ p.lockInfo pl.weak, p.world.dl.MapsCode info.info) ↔
      ∃ info ∈ pl.info, p.world.dl.MapsCode info.info := by
  have hother : other.loadedInstancePtr = some ptr :=
    (congrArg WeakPluginPtr.instance_ hcopy).trans hptr
  have halive : ptr.block ∈ p.world.instances :=
    (h.consistent.alive ptr.block).mpr (Or.inl ⟨v, other, hl, ptr, hother, rfl⟩)
  have hinst : p.lockInstance pl.weak = some ptr :=
    Option.filter_eq_some_iff.mpr ⟨hptr, decide_eq_true halive⟩
  constructor
  · rintro ⟨hexpired, _, _, hmaps⟩
    cases hinfo : p.lockInfo pl.weak with
    | none => simp [isExpired, hinfo] at hexpired
    | some info => exact ⟨info, (Option.filter_eq_some_iff.mp hinfo).1, hmaps info hinfo⟩
  · rintro ⟨info, hinfo, hmaps⟩
    rw [Option.mem_def] at hinfo
    have hheld : p.InfoHeld info.addr :=
      Or.inl ⟨v, other, hl, info, (congrArg WeakPluginPtr.info hcopy).trans hinfo, rfl⟩
    have hlock : p.lockInfo pl.weak = some info :=
      Option.filter_eq_some_iff.mpr ⟨hinfo, decide_eq_true hheld⟩
    have hweak : (p.lockedPlugin env pl.weak).weak = pl.weak := by
      change WeakPluginPtr.mk (p.lockInstance pl.weak) (p.lockInfo pl.weak) = pl.weak
      rw [hinst, hlock, Plugin.weak, hptr, hinfo]
    have hgenuine : pl.weak.Genuine env := by
      rw [← hcopy]
      exact h.refs.plugins (ref_eq hl)
    have hfaithful := lockedPlugin_faithful (p := p) hgenuine
    refine ⟨?_, hfaithful.same (h.plugins hl) (hweak.trans hcopy.symm),
      hfaithful.same hpl hweak, ?_⟩
    · simp [isExpired, hinst, hlock, Plugin.isSet, hpl.notNull hptr]
    · intro info' hinfo'
      rw [Option.mem_def, hlock] at hinfo'
      cases hinfo'
      exact hmaps

/-- Follow the copies of a wrapper that holds an instance through any run. A weak pointer
that was assigned from one of them, or from such a weak pointer, is true to the wrapper if and
only if the wrapper had an `Info`, whose library is open while a copy exists, and no reference to
the `Info` is left when the instance is gone. -/
theorem trueTo_iff_infoEnds (env : Env) {p : Process} (hp : Reachable (weakStep env) init p)
    {v : Var} {pl : Plugin} {ptr : InstancePtr} (hl : p.plugins.lookup v = some pl)
    (hptr : pl.loadedInstancePtr = some ptr) {l : List (WeakOp × Process × Copies)}
    (hrun : Run (lockstep (weakStep env) Copies.next) (p, ⟨{v}, ∅⟩) l) {x : Nat}
    (hx : x ∈ (last (p, ⟨{v}, ∅⟩) l).2.weaks) :
    ∃ weak, (last (p, ⟨{v}, ∅⟩) l).1.weaks.lookup x = some weak ∧
      (TrueTo env pl ptr weak (last (p, ⟨{v}, ∅⟩) l) ↔
        InfoEnds pl ptr (last (p, ⟨{v}, ∅⟩) l)) := by
  have hgenuine : Genuine env p :=
    hp.invariant (init_genuine env) fun h hs => weakStep_genuine h hs
  have hstates := hrun.states_of_step
    (P := fun st => Genuine env st.1 ∧ Copies.Follow pl.weak st.1 st.2) ?_ ?_
  · obtain ⟨h, hfollow⟩ := hstates.last
    refine ⟨pl.weak, hfollow.weaks x hx, ?_⟩
    have hpl := hgenuine.plugins hl
    have hcopy : ∀ u ∈ (last (p, ⟨{v}, ∅⟩) l).2.plugins, ∃ other,
        (last (p, ⟨{v}, ∅⟩) l).1.plugins.lookup u = some other ∧ other.weak = pl.weak :=
      fun u hu => Option.map_eq_some_iff.mp (hfollow.plugins u hu)
    constructor
    · intro ht
      constructor
      · rintro ⟨u, hu⟩
        obtain ⟨other, ho, hweak⟩ := hcopy u hu
        exact (locks_iff h hptr hpl ho hweak).mp (ht.held u hu other ho)
      · intro hgone
        exact (looksEmpty_iff hptr hgone).mp (ht.gone hgone)
    · intro he
      constructor
      · intro u hu other ho
        obtain ⟨other', ho', hweak⟩ := hcopy u hu
        rw [Option.mem_def, ho'] at ho
        cases ho
        exact (locks_iff h hptr hpl ho' hweak).mpr (he.info ⟨u, hu⟩)
      · intro hgone
        exact (looksEmpty_iff hptr hgone).mpr (he.gone hgone)
  · refine ⟨hgenuine, ?_, fun _ hn => absurd hn (Finset.notMem_empty _)⟩
    intro u hu
    rw [Finset.mem_singleton.mp hu]
    exact ref_eq hl
  · rintro st op st' ⟨h, hfollow⟩ hs
    obtain ⟨hs, he⟩ := lockstep_eq_some.mp hs
    rw [he]
    exact ⟨weakStep_genuine h hs, hfollow.next hs⟩

/-- The process after `oneInstance`, and what its variable holds. -/
def afterInstantiate : Process :=
  last init (history (weakStep sharedName) init (oneInstance.map .plain))

def onePlugin : Plugin :=
  .made sharedName.cast 3 7
    ⟨2, sharedName.stored (.mapped 0 0) (pluginOf "p" p_ne ["I"] ["x"])⟩

/-- A weak pointer is assigned from it and copied, and the instance ends. -/
def watchIt (forget : List Op) : List (WeakOp × Process × Copies) :=
  history (lockstep (weakStep sharedName) Copies.next) (afterInstantiate, ⟨{0}, ∅⟩)
    ([.plain (.assignWeak 0 0), .copyWeak 1 0] ++ (forget ++ [Op.destroy 0]).map .plain)

theorem afterInstantiate_lookup : afterInstantiate.plugins.lookup 0 = some onePlugin := by decide

theorem trueTo_forgotten : ∃ weak,
    (last (afterInstantiate, ⟨{0}, ∅⟩) (watchIt [forgetIt])).1.weaks.lookup 1 = some weak ∧
      TrueTo sharedName onePlugin ⟨3, 7⟩ weak
        (last (afterInstantiate, ⟨{0}, ∅⟩) (watchIt [forgetIt])) := by
  obtain ⟨weak, hw, hiff⟩ := trueTo_iff_infoEnds sharedName
    ⟨_, history_run (weakStep sharedName) init (oneInstance.map .plain), rfl⟩
    afterInstantiate_lookup rfl (l := watchIt [forgetIt])
    (history_run (lockstep (weakStep sharedName) Copies.next) (afterInstantiate, ⟨{0}, ∅⟩) _)
    (x := 1) (by decide)
  exact ⟨weak, hw, hiff.mpr ⟨by decide, fun _ => by decide⟩⟩

/-- The Loader keeps the library: after the end of the instance a lock still gives a
`PluginPtr` with a name. -/
theorem not_trueTo_registered : ¬ ∀ p, Reachable (weakStep sharedName) init p →
    ∀ v pl ptr, p.plugins.lookup v = some pl → pl.loadedInstancePtr = some ptr →
    ∀ l, Run (lockstep (weakStep sharedName) Copies.next) (p, ⟨{v}, ∅⟩) l →
    ∀ x ∈ (last (p, ⟨{v}, ∅⟩) l).2.weaks, ∀ weak,
      (last (p, ⟨{v}, ∅⟩) l).1.weaks.lookup x = some weak →
        TrueTo sharedName pl ptr weak (last (p, ⟨{v}, ∅⟩) l) := by
  intro h
  have ht := h afterInstantiate
    ⟨_, history_run (weakStep sharedName) init (oneInstance.map .plain), rfl⟩ 0 onePlugin ⟨3, 7⟩
    afterInstantiate_lookup rfl (watchIt [])
    (history_run (lockstep (weakStep sharedName) Copies.next) (afterInstantiate, ⟨{0}, ∅⟩) _)
    1 (by decide) onePlugin.weak (by decide)
  exact absurd (ht.gone (by decide)).2.name (by decide)

end Process

end GzPlugin
