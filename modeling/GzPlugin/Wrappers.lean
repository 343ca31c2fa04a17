import GzPlugin.Process
import GzPlugin.Runs

/-!
# The interface map of a wrapper

Entries of the map are overwritten but never removed. Every member function of
`Plugin::Implementation` leaves a map in which an entry is null or was computed from the
`Info` and the instance that the wrapper holds now.
-/

namespace GzPlugin

open FiniteMaps Runs

set_option autoImplicit false

namespace Plugin

variable {cast : CodePtr → Ptr → Ptr} {p other : Plugin}

/-- The entry is what the `Info` of the wrapper gives for the instance that it holds. -/
def Located (cast : CodePtr → Ptr → Ptr) (p : Plugin) (interface : String) (x : Ptr) : Prop :=
  ∃ ptr info f, p.loadedInstancePtr = some ptr ∧ p.info = some info ∧
    info.info.interfaces.lookup interface = some f ∧ x = cast f ptr.get

structure Faithful (cast : CodePtr → Ptr → Ptr) (p : Plugin) : Prop where
  notNull : ∀ {ptr}, p.loadedInstancePtr = some ptr → ptr.get ≠ 0
  located : ∀ {interface x}, p.interfaces.lookup interface = some x → x ≠ 0 →
    Located cast p interface x
  complete : ∀ {ptr info interface f}, p.loadedInstancePtr = some ptr → p.info = some info →
    info.info.interfaces.lookup interface = some f →
    p.interfaces.lookup interface = some (cast f ptr.get)

def Cleared (p : Plugin) : Prop :=
  ∀ interface x, p.interfaces.lookup interface = some x → x = 0

theorem empty_cleared : Cleared empty := by
  intro interface x hx
  simp [empty] at hx

theorem getOrCreateIterator_cleared (h : Cleared p) (interfaceName : String) :
    Cleared (p.getOrCreateIterator interfaceName) := by
  intro interface x hx
  rw [getOrCreateIterator, lookup_insertNew] at hx
  split at hx
  · cases hx
    rfl
  · exact h interface x hx

theorem specialized_cleared (specInterfaces : List String) : Cleared (specialized specInterfaces) := by
  have hgo : ∀ (l : List String) (p : Plugin), Cleared p → Cleared (l.foldl getOrCreateIterator p) := by
    intro l
    induction l with
    | nil => exact fun _ hp => hp
    | cons i l ih => exact fun p hp => ih _ (getOrCreateIterator_cleared hp i)
  exact hgo specInterfaces empty empty_cleared

theorem clear_cleared (p : Plugin) : Cleared p.clear := by
  intro interface x hx
  rw [clear, nullEntries, lookup_mapValues] at hx
  obtain ⟨_, _, rfl⟩ := Option.map_eq_some_iff.mp hx
  rfl

theorem Cleared.faithful (h : Cleared p) (hnone : p.loadedInstancePtr = none) :
    Faithful cast p where
  notNull hptr := by simp [hnone] at hptr
  located hx hne := absurd (h _ _ hx) hne
  complete hptr := by simp [hnone] at hptr

theorem empty_faithful : Faithful cast empty := empty_cleared.faithful rfl

theorem clear_faithful (p : Plugin) : Faithful cast p.clear := (clear_cleared p).faithful rfl

theorem specialized_faithful (specInterfaces : List String) :
    Faithful cast (specialized specInterfaces) :=
  (specialized_cleared specInterfaces).faithful (specialized_loadedInstancePtr specInterfaces)

theorem getOrCreateIterator_faithful (h : Faithful cast p) (interfaceName : String) :
    Faithful cast (p.getOrCreateIterator interfaceName) where
  notNull := h.notNull
  located {interface x} hx hne := by
    rw [getOrCreateIterator, lookup_insertNew] at hx
    split at hx
    · cases hx
      exact absurd rfl hne
    · exact h.located hx hne
  complete {ptr info interface f} hptr hinfo hf := by
    have hold := h.complete hptr hinfo hf
    rw [getOrCreateIterator, lookup_insertNew, if_neg]
    · exact hold
    · rintro ⟨rfl, hn⟩
      exact hn (Finmap.mem_of_lookup_eq_some hold)

/-- A map that was null everywhere, after the entries of an `Info` were written. -/
theorem castAll_faithful (h : Cleared p) (ptr : InstancePtr) (info : ConstInfoPtr CodePtr)
    (hne : ptr.get ≠ 0) :
    Faithful cast ⟨castAll cast info.info ptr.get ∪ p.interfaces, some ptr, some info⟩ where
  notNull hptr := by
    cases hptr
    exact hne
  located {interface x} hx hnull := by
    rw [lookup_union, castAll, lookup_mapValues] at hx
    cases hf : info.info.interfaces.lookup interface with
    | none =>
      rw [hf, Option.map_none, Option.none_or] at hx
      exact absurd (h _ _ hx) hnull
    | some f =>
      rw [hf, Option.map_some, Option.some_or] at hx
      cases hx
      exact ⟨ptr, info, f, rfl, rfl, hf, rfl⟩
  complete {ptr' info' interface f} hptr hinfo hf := by
    cases hptr
    cases hinfo
    rw [lookup_union, castAll, lookup_mapValues, hf, Option.map_some, Option.some_or]

theorem create_faithful (p : Plugin) (info : Option (ConstInfoPtr CodePtr))
    (dlHandlePtr : Option DlHandlePtr) (allowNull : Bool) (block : Nat) {instance_ : Ptr}
    (hne : instance_ ≠ 0) :
    Faithful cast (p.create cast info dlHandlePtr allowNull block instance_).1 := by
  unfold create
  cases info with
  | none => exact clear_faithful p
  | some info =>
    simp only
    split
    · exact Cleared.faithful (clear_cleared p) rfl
    · exact castAll_faithful (clear_cleared p) ⟨block, instance_⟩ info hne

theorem copy_faithful (hp : Cleared p) (ho : Faithful cast other) :
    Faithful cast (p.copy other) := by
  cases hptr : other.loadedInstancePtr with
  | none =>
    refine Cleared.faithful (p := p.copy other) ?_ hptr
    intro interface x hx
    simp only [copy, hptr, isSet, Bool.false_eq_true, if_false] at hx
    exact hp interface x hx
  | some ptr =>
    have hset : isSet other.loadedInstancePtr = true := by simp [isSet, hptr, ho.notNull hptr]
    constructor
    · exact fun h => ho.notNull h
    · intro interface x hx hne
      simp only [copy, hset, if_true, lookup_union] at hx
      cases hold : other.interfaces.lookup interface with
      | none =>
        rw [hold, Option.none_or] at hx
        exact absurd (hp _ _ hx) hne
      | some y =>
        rw [hold, Option.some_or] at hx
        cases hx
        exact ho.located hold hne
    · intro ptr' info interface f hptr' hinfo hf
      simp only [copy, hset, if_true, lookup_union]
      rw [ho.complete hptr' hinfo hf, Option.some_or]

theorem copyFrom_faithful (hp : Cleared p) (info : Option (ConstInfoPtr CodePtr))
    {instance_ : Option InstancePtr} (hne : ∀ ptr, instance_ = some ptr → ptr.get ≠ 0) :
    Faithful cast (p.copyFrom cast info instance_) := by
  cases instance_ with
  | none => exact Cleared.faithful (p := p.copyFrom cast info none) hp rfl
  | some ptr =>
    cases info with
    | none =>
      refine ⟨fun h => hne _ h, ?_, ?_⟩
      · intro interface x hx hnull
        exact absurd (hp _ _ hx) hnull
      · intro ptr' info interface f _ hinfo _
        cases hinfo
    | some info =>
      have heq : p.copyFrom cast (some info) (some ptr) =
          ⟨castAll cast info.info ptr.get ∪ p.interfaces, some ptr, some info⟩ := by
        simp only [copyFrom, if_pos (hne ptr rfl)]
      rw [heq]
      exact castAll_faithful hp ptr info (hne ptr rfl)

end Plugin

/-! ### Runs over any number of wrappers -/

/-- Wrappers and weak pointers, without their Loader. -/
structure Wrappers where
  plugins : Finmap fun _ : Var => Plugin
  weaks : Finmap fun _ : Nat => WeakPluginPtr

namespace Wrappers

def init : Wrappers := ⟨∅, ∅⟩

/-- The operations on wrappers. `create` is given what the factory returns, and `lock` whether
the instance and the `Info` of the weak pointer are still alive. -/
inductive Op where
  | construct (v : Var)
  | getOrCreateIterator (v : Var) (interfaceName : String)
  | create (v : Var) (info : Option (ConstInfoPtr CodePtr)) (dlHandlePtr : Option DlHandlePtr)
      (allowNullDlHandlePtr : Bool) (block : Nat) (instance_ : Ptr)
  | copy (v u : Var)
  | clear (v : Var)
  | destroy (v : Var)
  | assignWeak (x : Nat) (v : Var)
  | lock (v : Var) (x : Nat) (instanceAlive infoAlive : Bool)

/-- A factory does not return null. -/
def Enabled (w : Wrappers) : Op → Prop
  | .construct v => v ∉ w.plugins
  | .getOrCreateIterator v _ => v ∈ w.plugins
  | .create v _ _ _ _ instance_ => v ∈ w.plugins ∧ instance_ ≠ 0
  | .copy v u => v ∈ w.plugins ∧ u ∈ w.plugins
  | .clear v => v ∈ w.plugins
  | .destroy v => v ∈ w.plugins
  | .assignWeak _ v => v ∈ w.plugins
  | .lock v x _ _ => v ∉ w.plugins ∧ x ∈ w.weaks

instance (w : Wrappers) (op : Op) : Decidable (w.Enabled op) := by
  cases op <;> unfold Enabled <;> infer_instance

def setPlugin (w : Wrappers) (v : Var) (pl : Plugin) : Wrappers :=
  { w with plugins := w.plugins.insert v pl }

def call (w : Wrappers) (v : Var) (f : Plugin → Plugin) : Wrappers :=
  match w.plugins.lookup v with
  | none => w
  | some pl => w.setPlugin v (f pl)

/-- `Copy(_other)`: the target is cleared before the source is read. -/
def copy (w : Wrappers) (v u : Var) : Wrappers :=
  let w := w.call v Plugin.clear
  match w.plugins.lookup u with
  | none => w
  | some other => w.call v fun pl => pl.copy other

def after (cast : CodePtr → Ptr → Ptr) (w : Wrappers) : Op → Wrappers
  | .construct v => w.setPlugin v .empty
  | .getOrCreateIterator v interfaceName => w.call v fun pl => pl.getOrCreateIterator interfaceName
  | .create v info dlHandlePtr allowNull block instance_ =>
    w.call v fun pl => (pl.create cast info dlHandlePtr allowNull block instance_).1
  | .copy v u => w.copy v u
  | .clear v => w.call v Plugin.clear
  | .destroy v => { w with plugins := w.plugins.erase v }
  | .assignWeak x v =>
    match w.plugins.lookup v with
    | none => w
    | some pl => { w with weaks := w.weaks.insert x pl.weak }
  | .lock v x instanceAlive infoAlive =>
    match w.weaks.lookup x with
    | none => w
    | some weak => w.setPlugin v (Plugin.empty.copyFrom cast
        (if infoAlive then weak.info else none) (if instanceAlive then weak.instance_ else none))

def step (cast : CodePtr → Ptr → Ptr) (w : Wrappers) (op : Op) : Option Wrappers :=
  if w.Enabled op then some (w.after cast op) else none

variable {cast : CodePtr → Ptr → Ptr} {w w' : Wrappers} {v u : Var} {pl : Plugin} {op : Op}

theorem step_eq_some : step cast w op = some w' ↔ w.Enabled op ∧ w.after cast op = w' := by
  unfold step
  split <;> simp [*]

/-- Every wrapper is faithful, and no weak pointer refers to a null instance. -/
structure Faithful (cast : CodePtr → Ptr → Ptr) (w : Wrappers) : Prop where
  plugins : ∀ {v pl}, w.plugins.lookup v = some pl → pl.Faithful cast
  weaks : ∀ {x weak ptr}, w.weaks.lookup x = some weak → weak.instance_ = some ptr → ptr.get ≠ 0

theorem init_faithful : Faithful cast init where
  plugins h := by simp [init] at h
  weaks h := by simp [init] at h

theorem setPlugin_faithful (h : Faithful cast w) (hpl : pl.Faithful cast) :
    Faithful cast (w.setPlugin v pl) where
  plugins {v' pl'} hl := by
    rw [setPlugin, lookup_insert_eq] at hl
    split at hl
    · cases hl
      exact hpl
    · exact h.plugins hl
  weaks := h.weaks

theorem call_faithful (h : Faithful cast w) {f : Plugin → Plugin}
    (hf : ∀ pl, w.plugins.lookup v = some pl → (f pl).Faithful cast) :
    Faithful cast (w.call v f) := by
  unfold call
  split
  · exact h
  · rename_i pl hl
    exact setPlugin_faithful h (hf pl hl)

/-- After the call of `Clear` the target is null everywhere, also if it is the source. -/
theorem copy_faithful (h : Faithful cast w) : Faithful cast (w.copy v u) := by
  have hclear : Faithful cast (w.call v Plugin.clear) :=
    call_faithful h fun pl _ => Plugin.clear_faithful pl
  unfold copy
  simp only
  split
  · exact hclear
  · rename_i other ho
    refine call_faithful hclear ?_
    intro pl hl
    refine Plugin.copy_faithful ?_ (hclear.plugins ho)
    unfold call at hl
    split at hl
    · rename_i hnone
      rw [hnone] at hl
      cases hl
    · rename_i old _
      rw [setPlugin, lookup_insert_eq, if_pos rfl] at hl
      cases hl
      exact Plugin.clear_cleared old

theorem step_faithful (h : Faithful cast w) (hs : step cast w op = some w') :
    Faithful cast w' := by
  obtain ⟨hen, rfl⟩ := step_eq_some.mp hs
  cases op with
  | construct v => exact setPlugin_faithful h Plugin.empty_faithful
  | getOrCreateIterator v interfaceName =>
    exact call_faithful h fun pl hl => Plugin.getOrCreateIterator_faithful (h.plugins hl) _
  | create v info dlHandlePtr allowNull block instance_ =>
    exact call_faithful h fun pl _ => Plugin.create_faithful pl _ _ _ _ hen.2
  | copy v u => exact copy_faithful h
  | clear v => exact call_faithful h fun pl _ => Plugin.clear_faithful pl
  | destroy v =>
    refine ⟨?_, h.weaks⟩
    intro v' pl hl
    rw [after, lookup_erase_eq] at hl
    split at hl
    · cases hl
    · exact h.plugins hl
  | assignWeak x v =>
    simp only [after]
    split
    · exact h
    · rename_i pl hl
      refine ⟨h.plugins, ?_⟩
      intro x' weak ptr hw hptr
      rw [lookup_insert_eq] at hw
      split at hw
      · cases hw
        exact (h.plugins hl).notNull hptr
      · exact h.weaks hw hptr
  | lock v x instanceAlive infoAlive =>
    simp only [after]
    split
    · exact h
    · rename_i weak hw
      refine setPlugin_faithful h (Plugin.copyFrom_faithful Plugin.empty_cleared _ ?_)
      intro ptr hptr
      split at hptr
      · exact h.weaks hw hptr
      · cases hptr

/-- In every run, a non-null entry belongs to the instance and the `Info` that the wrapper
holds, and a wrapper that holds both has an entry for every interface. -/
theorem interfaces_faithful (h : Reachable (step cast) init w)
    (hl : w.plugins.lookup v = some pl) (interface : String) :
    (∀ x, pl.interfaces.lookup interface = some x → x ≠ 0 →
      pl.isEmpty = false ∧ pl.Located cast interface x) ∧
    (∀ ptr info, pl.loadedInstancePtr = some ptr → pl.info = some info →
      ∀ f, info.info.interfaces.lookup interface = some f →
        pl.interfaces.lookup interface = some (cast f ptr.get)) := by
  have hfaithful : pl.Faithful cast := (h.invariant init_faithful step_faithful).plugins hl
  constructor
  · intro x hx hne
    obtain ⟨ptr, info, f, hptr, hrest⟩ := hfaithful.located hx hne
    refine ⟨?_, ptr, info, f, hptr, hrest⟩
    simp [Plugin.isEmpty, Plugin.isSet, hptr, hfaithful.notNull hptr]
  · intro ptr info hptr hinfo f hf
    exact hfaithful.complete hptr hinfo hf

/-- A wrapper specialized for "J" that is assigned a plugin without that interface. -/
def reassigned : List Op :=
  [.construct 0, .getOrCreateIterator 0 "J",
    .create 0 (some ⟨0, (pluginOf "p" p_ne ["J", "K"] []).mapCode (.mk .executable)⟩)
      none true 0 7,
    .construct 1,
    .create 1 (some ⟨1, (pluginOf "q" q_ne ["I"] []).mapCode (.mk .executable)⟩)
      none true 1 8,
    .copy 0 1, .copy 1 1, .assignWeak 0 0, .lock 2 0 true true]

theorem interfaces_faithful_reassigned :
    ∃ pl, (last init (history (step fun _ x => x) init reassigned)).plugins.lookup 0 = some pl ∧
      pl.interfaces.lookup "I" = some 8 ∧ pl.Located (fun _ x => x) "I" 8 := by
  have hrun := history_run (step fun _ x => x) init reassigned
  have hentry : ((last init (history (step fun _ x => x) init reassigned)).plugins.lookup 0).bind
      (fun pl => pl.interfaces.lookup "I") = some 8 := by decide
  obtain ⟨pl, hl, hx⟩ := Option.bind_eq_some_iff.mp hentry
  exact ⟨pl, hl, hx, ((interfaces_faithful ⟨_, hrun, rfl⟩ hl "I").1 8 hx (by decide)).2⟩

end Wrappers

end GzPlugin
