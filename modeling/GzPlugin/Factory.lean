import GzPlugin.Instances
import GzPlugin.Mapped

/-!
# Loader::Factory

`Factory` instantiates a plugin for the sake of one of its interfaces. The `PluginPtr` is a
temporary: what the caller gets is an interface pointer, which is then the only reference to
the instance, or nothing, in which case the instance is gone as well.
-/

namespace GzPlugin

open FiniteMaps Runs

set_option autoImplicit false

namespace World

variable {env : Env} {w : World} {block next : Nat} {i : PluginWithDlHandle}

/-- An instance that ends before anything else happens, its handle held by the Loader. -/
theorem destroyInstance_insert (hnew : block ∉ w.instances)
    (hheld : ∀ hp ∈ i.dlHandlePtr, w.Held hp) :
    destroyInstance { w with instances := w.instances.insert block i, next := next } block =
      { w with next := next } := by
  have hinst : (w.instances.insert block i).erase block = w.instances := by
    rw [erase_insert, erase_of_not_mem hnew]
  unfold destroyInstance
  simp only [Finmap.lookup_insert, hinst]
  split
  · rfl
  · rename_i hp hhp
    exact if_pos (hheld hp hhp)

/-- What `Instantiate` makes: nothing, or an instance whose handle the Loader holds. -/
theorem instantiate_held (h : Sound env w) (s : String) (instance_ : Ptr) :
    ((w.instantiate env s instance_).1 = Plugin.empty ∧
      ∃ next, (w.instantiate env s instance_).2 = { w with next := next }) ∨
    ∃ block info i, w.next ≤ block ∧ (∀ hp ∈ i.dlHandlePtr, w.Held hp) ∧
      (w.instantiate env s instance_).1 = Plugin.made env.cast block instance_ info ∧
      (w.instantiate env s instance_).2 =
        { w with instances := w.instances.insert block i, next := block + 1 } := by
  cases h.resolution s with
  | file ptr hp _ _ hhandle hmade hworld =>
    refine Or.inr ⟨_, ptr, _, Nat.le_refl _, ?_, hmade _, hworld _⟩
    rintro _ ⟨⟩
    exact held_of_handle hhandle
  | stale _ _ hmade hworld => exact Or.inl ⟨hmade _, _, hworld _⟩
  | static info _ _ _ hmade hworld =>
    refine Or.inr ⟨_, _, _, Nat.le_succ _, fun hp hhp => ?_, hmade _, hworld _⟩
    cases hhp
  | missing _ _ hmade hworld => exact Or.inl ⟨hmade _, w.next, hworld _⟩

end World

namespace Process

variable {env : Env} {p p' : Process} {t : Var} {i : Nat}

/-- `Loader::Factory`, with the temporary `t` and the result in the pointer `i`. -/
def factory (env : Env) (p : Process) (t : Var) (i : Nat) (s interface : String)
    (instance_ : Ptr) : Process :=
  ((p.instantiate env t [] s instance_).queryInterfaceSharedPtr i t interface).destroy t

/-- The interface pointer that the instance offers, null if it does not. -/
def offered (env : Env) (p : Process) (s interface : String) (instance_ : Ptr) : Ptr :=
  (p.world.instantiate env s instance_).1.queryInterface interface

/-- From `p` to `p'` only numbers were used up and destructions logged. -/
def NoTrace (p p' : Process) : Prop :=
  p' = { p with world := { p.world with next := p'.world.next }, log := p'.log }

/-- A temporary that is shared and then destroyed leaves its instance to the new pointer. -/
theorem share_destroy (ht : t ∉ p.plugins) (pl : Plugin) (i : Nat) (x : Option InstancePtr) :
    ∃ log, ((p.setPlugin t pl).share i x).destroy t =
      ({ p with log := log }.share i x).releaseInstance pl.loadedInstancePtr := by
  have hl : ((p.setPlugin t pl).share i x).plugins.lookup t = some pl := by
    cases x <;> exact Finmap.lookup_insert _
  obtain ⟨log, he⟩ :=
    (((p.setPlugin t pl).share i x).setPlugin t { pl with info := none }).releaseInfo_eq pl.info
  simp only [destroy, hl, he]
  refine ⟨log, ?_⟩
  cases x <;>
    simp only [share, erasePlugin, setPlugin, erase_insert, erase_of_not_mem ht]

/-- The interface pointer that the instance offers, if it offers one. -/
def offeredPtr (env : Env) (p : Process) (s interface : String) (instance_ : Ptr) :
    Option InstancePtr :=
  if p.offered env s interface instance_ ≠ 0 then
    (p.world.instantiate env s instance_).1.loadedInstancePtr.map
      fun ptr => ⟨ptr.block, p.offered env s interface instance_⟩
  else none

/-- What is left when the temporary is gone. -/
theorem factory_eq (env : Env) (ht : t ∉ p.plugins) (i : Nat) (s interface : String)
    (instance_ : Ptr) : ∃ fromThis log,
    (fromThis = p.fromThis ∨
      ∃ ptr, (p.world.instantiate env s instance_).1.loadedInstancePtr = some ptr ∧
        fromThis = p.fromThis.insert ptr.block (p.world.instantiate env s instance_).1.weak) ∧
    p.factory env t i s interface instance_ =
      (share { p with
        world := (p.world.instantiate env s instance_).2
        fromThis := fromThis
        log := log } i (p.offeredPtr env s interface instance_)).releaseInstance
      (p.world.instantiate env s instance_).1.loadedInstancePtr := by
  obtain ⟨fromThis, he, hthis⟩ := setFromThis_eq
    { p with world := (p.world.instantiate env s instance_).2 }
    (p.world.instantiate env s instance_).1
  have hmade : p.instantiate env t [] s instance_ = setPlugin { p with
      world := (p.world.instantiate env s instance_).2
      fromThis := fromThis } t (p.world.instantiate env s instance_).1 := by
    simp only [instantiate, he]
    rfl
  have hqueried : (p.instantiate env t [] s instance_).queried t interface =
      p.offeredPtr env s interface instance_ := by
    rw [hmade]
    simp only [queried, setPlugin, Finmap.lookup_insert, Option.bind_some]
    rfl
  obtain ⟨log, hlog⟩ := share_destroy (p := { p with
      world := (p.world.instantiate env s instance_).2
      fromThis := fromThis }) ht (p.world.instantiate env s instance_).1 i
    (p.offeredPtr env s interface instance_)
  refine ⟨fromThis, log, hthis, ?_⟩
  rw [factory, queryInterfaceSharedPtr_eq, hqueried, hmade, hlog]

theorem releaseInstance_of_not_held {ptr : InstancePtr} (h : ¬ p.InstanceHeld ptr.block) :
    p.releaseInstance (some ptr) = p.destroyInstance ptr.block :=
  if_neg h

/-- A new instance whose last reference goes away is gone as if it had never been made. -/
theorem releaseInstance_new {block next : Nat} {j : PluginWithDlHandle}
    {fromThis : Finmap fun _ : Nat => WeakPluginPtr} (h : Consistent env p)
    (hnew : block ∉ p.world.instances) (hheld : ∀ hp ∈ j.dlHandlePtr, p.world.Held hp)
    (hthis : fromThis.erase block = p.fromThis) (log : List Event) (get : Ptr) :
    NoTrace p (releaseInstance { p with
      world := { p.world with instances := p.world.instances.insert block j, next := next }
      fromThis := fromThis
      log := log } (some ⟨block, get⟩)) := by
  have hnone : ¬ p.InstanceHeld block := fun hh => hnew ((h.alive block).mpr hh)
  rw [releaseInstance_of_not_held hnone]
  simp only [destroyInstance, Finmap.lookup_insert, World.destroyInstance_insert hnew hheld, hthis]
  rfl

/-- From `p` to `p'` only an instance was made, with `i` as the only reference to it. -/
structure SoleOwner (p p' : Process) (i : Nat) (get : Ptr) : Prop where
  plugins : p'.plugins = p.plugins
  weaks : p'.weaks = p.weaks
  made : ∃ block j, block ∉ p.world.instances ∧ ¬ p.InstanceHeld block ∧
    p'.shared = p.shared.insert i ⟨block, get⟩ ∧
    p'.world = { p.world with
      instances := p.world.instances.insert block j, next := p'.world.next }

theorem factory_cases (h : Consistent env p) (ht : t ∉ p.plugins) (hi : i ∉ p.shared)
    (s interface : String) (instance_ : Ptr) :
    (p.offered env s interface instance_ = 0 ∧
      NoTrace p (p.factory env t i s interface instance_)) ∨
    (p.offered env s interface instance_ ≠ 0 ∧
      SoleOwner p (p.factory env t i s interface instance_) i
        (p.offered env s interface instance_) ∧
      NoTrace p ((p.factory env t i s interface instance_).dropShared i)) := by
  obtain ⟨fromThis, log, hthis, he⟩ := factory_eq env ht i s interface instance_
  rcases World.instantiate_held h.sound s instance_ with
    ⟨hmade, next, hworld⟩ | ⟨block, info, j, hle, hheld, hmade, hworld⟩
  · left
    have hoffered : p.offered env s interface instance_ = 0 := by
      rw [offered, hmade]
      rfl
    refine ⟨hoffered, ?_⟩
    have hsame : fromThis = p.fromThis := by
      rcases hthis with hsame | ⟨ptr, hptr, _⟩
      · exact hsame
      · rw [hmade] at hptr
        cases hptr
    rw [he, offeredPtr, hoffered, hmade, hworld, hsame]
    rfl
  · have hnew : block ∉ p.world.instances :=
      fun hm => absurd (h.lt_next hm) (Nat.not_lt.mpr hle)
    have hnone : ¬ p.InstanceHeld block := fun hh => hnew ((h.alive block).mpr hh)
    have hptr : (p.world.instantiate env s instance_).1.loadedInstancePtr =
        some ⟨block, instance_⟩ := by
      rw [hmade]
      rfl
    have herase : fromThis.erase block = p.fromThis := by
      have hthis' : block ∉ p.fromThis := fun hm => hnew (h.this_alive block hm)
      rcases hthis with hsame | ⟨ptr, hptr', hsame⟩
      · rw [hsame, erase_of_not_mem hthis']
      · rw [hptr] at hptr'
        cases hptr'
        exact hsame ▸ (erase_insert _ _ _).trans (erase_of_not_mem hthis')
    by_cases hoffered : p.offered env s interface instance_ = 0
    · left
      refine ⟨hoffered, ?_⟩
      rw [he, offeredPtr, if_neg (not_not.mpr hoffered), hptr, hworld]
      exact releaseInstance_new h hnew hheld herase log instance_
    · right
      -- The interface pointer outlives the temporary, and keeps the instance.
      have hfactory : p.factory env t i s interface instance_ = { p with
          world := { p.world with
            instances := p.world.instances.insert block j, next := block + 1 }
          shared := p.shared.insert i ⟨block, p.offered env s interface instance_⟩
          fromThis := fromThis
          log := log } := by
        rw [he, offeredPtr, if_pos hoffered, hptr, hworld]
        exact if_pos (Or.inr ⟨i, _, Finmap.lookup_insert _, rfl⟩)
      rw [hfactory]
      refine ⟨hoffered, ⟨rfl, rfl, block, j, hnew, hnone, rfl, rfl⟩, ?_⟩
      simp only [dropShared, Finmap.lookup_insert, erase_insert, erase_of_not_mem hi]
      exact releaseInstance_new h hnew hheld herase log _

/-- What `Factory` returns, and what is left of it when that is dropped, if the name is not
resolved to an `Info` whose library was closed. -/
theorem factory_of_reachable (hp : Reachable (step env) init p) (ht : t ∉ p.plugins)
    (hi : i ∉ p.shared) {s : String} (hmaps : p.world.ResolvesMapped s) (interface : String)
    (instance_ : Ptr) :
    p.world.InstantiatesMapped env s ∧
    (p.offered env s interface instance_ = 0 →
      NoTrace p (p.factory env t i s interface instance_)) ∧
    (p.offered env s interface instance_ ≠ 0 →
      SoleOwner p (p.factory env t i s interface instance_) i
        (p.offered env s interface instance_) ∧
      NoTrace p ((p.factory env t i s interface instance_).dropShared i)) := by
  have h : Consistent env p := hp.invariant (init_consistent env) step_consistent
  refine ⟨h.sound.instantiatesMapped_iff.mpr hmaps, ?_⟩
  rcases factory_cases h ht hi s interface instance_ with ⟨hnull, htrace⟩ | ⟨hne, hproduct⟩
  · exact ⟨fun _ => htrace, fun hne => absurd hnull hne⟩
  · exact ⟨fun hnull => absurd hnull hne, fun _ => hproduct⟩

/-- The first library of `sharedName` is loaded. -/
def oneLibrary : Process := last init (history (step sharedName) init (oneInstance.take 1))

theorem factory_oneLibrary :
    SoleOwner oneLibrary (oneLibrary.factory sharedName 0 0 "p" "I" 7) 0
      (oneLibrary.offered sharedName "p" "I" 7) ∧
    NoTrace oneLibrary (oneLibrary.factory sharedName 0 0 "p" "J" 7) := by
  have hp : Reachable (step sharedName) init oneLibrary :=
    ⟨_, history_run (step sharedName) init (oneInstance.take 1), rfl⟩
  have ht : 0 ∉ oneLibrary.plugins := by decide
  have hi : 0 ∉ oneLibrary.shared := by decide
  have hmaps : oneLibrary.world.ResolvesMapped "p" := by decide
  constructor
  · exact ((factory_of_reachable hp ht hi hmaps "I" 7).2.2 (by decide)).1
  · exact (factory_of_reachable hp ht hi hmaps "J" 7).2.1 (by decide)

end Process

end GzPlugin
