import GzPlugin.Process

/-!
# What the operations of the process write

Equations for the functions of the process: which tables a function writes, and what the
others keep.
-/

namespace GzPlugin

open FiniteMaps

set_option autoImplicit false

namespace World

variable {w : World}

@[simp] theorem destroyInstance_impl (w : World) (block : Nat) :
    (w.destroyInstance block).impl = w.impl := by
  unfold destroyInstance
  split
  · rfl
  split
  · rfl
  · exact release_impl _ _

@[simp] theorem destroyInstance_next (w : World) (block : Nat) :
    (w.destroyInstance block).next = w.next := by
  unfold destroyInstance
  split
  · rfl
  split
  · rfl
  · exact release_next _ _

theorem destroyInstance_lookup (w : World) (block b : Nat) :
    (w.destroyInstance block).instances.lookup b =
      if b = block then none else w.instances.lookup b := by
  unfold destroyInstance
  split
  · rename_i hnone
    split
    · rename_i hb
      rw [hb, hnone]
    · rfl
  split
  · exact lookup_erase_eq _ _ _
  · rw [release_instances]
    exact lookup_erase_eq _ _ _

theorem mem_destroyInstance {block b : Nat} :
    b ∈ (w.destroyInstance block).instances ↔ b ≠ block ∧ b ∈ w.instances := by
  rw [← Finmap.lookup_isSome, destroyInstance_lookup, ← Finmap.lookup_isSome]
  by_cases hb : b = block <;> simp [hb]

end World

namespace Process

variable {env : Env} {p : Process} {v u : Var} {pl other : Plugin}

/-! ### Letting go -/

theorem releaseInfo_eq (p : Process) (info : Option (ConstInfoPtr CodePtr)) :
    ∃ log, p.releaseInfo info = { p with log := log } := by
  unfold releaseInfo
  split
  · exact ⟨p.log, rfl⟩
  split
  · exact ⟨p.log, rfl⟩
  · exact ⟨_, rfl⟩

@[simp] theorem releaseInfo_world (p : Process) (info : Option (ConstInfoPtr CodePtr)) :
    (p.releaseInfo info).world = p.world := by
  obtain ⟨log, he⟩ := releaseInfo_eq p info
  rw [he]

@[simp] theorem releaseInfo_plugins (p : Process) (info : Option (ConstInfoPtr CodePtr)) :
    (p.releaseInfo info).plugins = p.plugins := by
  obtain ⟨log, he⟩ := releaseInfo_eq p info
  rw [he]

@[simp] theorem releaseInfo_shared (p : Process) (info : Option (ConstInfoPtr CodePtr)) :
    (p.releaseInfo info).shared = p.shared := by
  obtain ⟨log, he⟩ := releaseInfo_eq p info
  rw [he]

@[simp] theorem releaseInfo_weaks (p : Process) (info : Option (ConstInfoPtr CodePtr)) :
    (p.releaseInfo info).weaks = p.weaks := by
  obtain ⟨log, he⟩ := releaseInfo_eq p info
  rw [he]

@[simp] theorem releaseInfo_fromThis (p : Process) (info : Option (ConstInfoPtr CodePtr)) :
    (p.releaseInfo info).fromThis = p.fromThis := by
  obtain ⟨log, he⟩ := releaseInfo_eq p info
  rw [he]

theorem releaseInstance_cases (p : Process) (instance_ : Option InstancePtr) :
    p.releaseInstance instance_ = p ∧
      (∀ ptr ∈ instance_, ptr.block ∈ p.world.instances → p.InstanceHeld ptr.block) ∨
    ∃ ptr i, instance_ = some ptr ∧ ¬ p.InstanceHeld ptr.block ∧
      p.world.instances.lookup ptr.block = some i ∧
      p.releaseInstance instance_ = { p with
        world := p.world.destroyInstance ptr.block
        fromThis := p.fromThis.erase ptr.block
        log := p.log ++
          [.deleterRun ptr.block (decide (p.world.ImageHeld i.deleter.image))] } := by
  cases instance_ with
  | none => exact Or.inl ⟨rfl, fun ptr h => by cases h⟩
  | some ptr =>
    by_cases hheld : p.InstanceHeld ptr.block
    · refine Or.inl ⟨if_pos hheld, ?_⟩
      rintro _ ⟨⟩ _
      exact hheld
    · have hrel : p.releaseInstance (some ptr) = p.destroyInstance ptr.block := if_neg hheld
      rw [hrel, destroyInstance]
      cases hi : p.world.instances.lookup ptr.block with
      | none =>
        refine Or.inl ⟨rfl, ?_⟩
        rintro _ ⟨⟩ hm
        exact absurd hm (Finmap.lookup_eq_none.mp hi)
      | some i => exact Or.inr ⟨ptr, i, rfl, hheld, hi, rfl⟩

@[simp] theorem releaseInstance_plugins (p : Process) (instance_ : Option InstancePtr) :
    (p.releaseInstance instance_).plugins = p.plugins := by
  rcases releaseInstance_cases p instance_ with ⟨he, _⟩ | ⟨_, _, _, _, _, he⟩ <;> rw [he]

@[simp] theorem releaseInstance_shared (p : Process) (instance_ : Option InstancePtr) :
    (p.releaseInstance instance_).shared = p.shared := by
  rcases releaseInstance_cases p instance_ with ⟨he, _⟩ | ⟨_, _, _, _, _, he⟩ <;> rw [he]

@[simp] theorem releaseInstance_weaks (p : Process) (instance_ : Option InstancePtr) :
    (p.releaseInstance instance_).weaks = p.weaks := by
  rcases releaseInstance_cases p instance_ with ⟨he, _⟩ | ⟨_, _, _, _, _, he⟩ <;> rw [he]

@[simp] theorem releaseInstance_impl (p : Process) (instance_ : Option InstancePtr) :
    (p.releaseInstance instance_).world.impl = p.world.impl := by
  rcases releaseInstance_cases p instance_ with ⟨he, _⟩ | ⟨_, _, _, _, _, he⟩ <;> rw [he]
  exact World.destroyInstance_impl _ _

@[simp] theorem releaseInstance_next (p : Process) (instance_ : Option InstancePtr) :
    (p.releaseInstance instance_).world.next = p.world.next := by
  rcases releaseInstance_cases p instance_ with ⟨he, _⟩ | ⟨_, _, _, _, _, he⟩ <;> rw [he]
  exact World.destroyInstance_next _ _

/-! ### The wrapper -/

theorem clear_plugins (hl : p.plugins.lookup v = some pl) :
    (p.clear v).plugins = p.plugins.insert v pl.clear := by
  simp [clear, hl, setPlugin]

@[simp] theorem clear_shared (p : Process) (v : Var) : (p.clear v).shared = p.shared := by
  unfold clear
  split
  · rfl
  · simp [setPlugin]

@[simp] theorem clear_weaks (p : Process) (v : Var) : (p.clear v).weaks = p.weaks := by
  unfold clear
  split
  · rfl
  · simp [setPlugin]

@[simp] theorem clear_impl (p : Process) (v : Var) : (p.clear v).world.impl = p.world.impl := by
  unfold clear
  split
  · rfl
  · simp [setPlugin]

theorem destroy_plugins (hl : p.plugins.lookup v = some pl) :
    (p.destroy v).plugins = p.plugins.erase v := by
  simp only [destroy, hl, releaseInstance_plugins, erasePlugin, releaseInfo_plugins, setPlugin,
    erase_insert]

@[simp] theorem destroy_shared (p : Process) (v : Var) : (p.destroy v).shared = p.shared := by
  unfold destroy
  split
  · rfl
  · simp [setPlugin, erasePlugin]

@[simp] theorem destroy_weaks (p : Process) (v : Var) : (p.destroy v).weaks = p.weaks := by
  unfold destroy
  split
  · rfl
  · simp [setPlugin, erasePlugin]

@[simp] theorem destroy_impl (p : Process) (v : Var) :
    (p.destroy v).world.impl = p.world.impl := by
  unfold destroy
  split
  · rfl
  · simp [setPlugin, erasePlugin]

theorem copyConstruct_eq (p : Process) (v : Var) (specInterfaces : List String)
    (h : p.plugins.lookup u = some other) : ∃ new,
    p.copyConstruct v specInterfaces u = p.setPlugin v new ∧ new.weak = other.weak := by
  simp only [copyConstruct, h]
  exact ⟨_, rfl, rfl⟩

theorem setFromThis_eq (p : Process) (pl : Plugin) :
    ∃ fromThis, p.setFromThis pl = { p with fromThis := fromThis } ∧
      (fromThis = p.fromThis ∨ ∃ ptr, pl.loadedInstancePtr = some ptr ∧
        fromThis = p.fromThis.insert ptr.block pl.weak) := by
  unfold setFromThis
  split
  · exact ⟨p.fromThis, rfl, Or.inl rfl⟩
  · rename_i ptr hptr
    split
    · exact ⟨_, rfl, Or.inr ⟨ptr, hptr, rfl⟩⟩
    · exact ⟨p.fromThis, rfl, Or.inl rfl⟩

/-- The variable refers to what the Loader returned, also after a cast. -/
theorem instantiate_eq (env : Env) (p : Process) (v : Var) (specInterfaces : List String)
    (s : String) (instance_ : Ptr) : ∃ new fromThis,
    p.instantiate env v specInterfaces s instance_ = { p with
      world := (p.world.instantiate env s instance_).2
      plugins := p.plugins.insert v new
      fromThis := fromThis } ∧
    new.weak = (p.world.instantiate env s instance_).1.weak ∧
    (fromThis = p.fromThis ∨
      ∃ ptr, (p.world.instantiate env s instance_).1.loadedInstancePtr = some ptr ∧
        fromThis = p.fromThis.insert ptr.block (p.world.instantiate env s instance_).1.weak) := by
  obtain ⟨fromThis, he, hthis⟩ := setFromThis_eq
    { p with world := (p.world.instantiate env s instance_).2 }
    (p.world.instantiate env s instance_).1
  simp only [instantiate, he]
  refine ⟨_, fromThis, rfl, ?_, hthis⟩
  split <;> rfl

/-! ### Interface pointers and weak pointers -/

/-- A new interface pointer, if there is an instance that it can refer to. -/
def share (p : Process) (i : Nat) : Option InstancePtr → Process
  | none => p
  | some ptr => { p with shared := p.shared.insert i ptr }

/-- What `QueryInterfaceSharedPtr` returns. -/
def queried (p : Process) (v : Var) (interface : String) : Option InstancePtr :=
  (p.plugins.lookup v).bind fun pl =>
    if pl.queryInterface interface ≠ 0 then
      pl.loadedInstancePtr.map fun ptr => ⟨ptr.block, pl.queryInterface interface⟩
    else none

theorem queryInterfaceSharedPtr_eq (p : Process) (i : Nat) (v : Var) (interface : String) :
    p.queryInterfaceSharedPtr i v interface = p.share i (p.queried v interface) := by
  unfold queryInterfaceSharedPtr queried
  cases p.plugins.lookup v with
  | none => rfl
  | some pl =>
    simp only [Option.bind_some]
    by_cases hq : pl.queryInterface interface ≠ 0
    · rw [if_pos hq, if_pos hq]
      cases pl.loadedInstancePtr <;> rfl
    · rw [if_neg hq, if_neg hq]
      rfl

theorem shareInstance_eq (p : Process) (i : Nat) (v : Var) :
    p.shareInstance i v = p.share i ((p.plugins.lookup v).bind (·.loadedInstancePtr)) := by
  unfold shareInstance share
  split <;> simp [*]

theorem assignWeak_eq (p : Process) (x : Nat) (h : p.plugins.lookup v = some pl) :
    p.assignWeak x v = { p with weaks := p.weaks.insert x pl.weak } := by
  simp only [assignWeak, h]

theorem lock_eq (env : Env) (p : Process) (v : Var) (weak : WeakPluginPtr) :
    p.lock env v weak = { p.setPlugin v (p.lockedPlugin env weak) with
      log := p.log ++ if p.lockFails weak then [.infoNull] else [] } := by
  unfold lock
  simp only
  split
  · rfl
  · rw [List.append_nil]
    rfl

end Process

end GzPlugin
