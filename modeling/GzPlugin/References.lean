import GzPlugin.Simulation

/-!
# Operations as changes of references

For every operation: which variable, interface pointer or weak pointer it binds anew, and
to what.
-/

namespace GzPlugin

open FiniteMaps

set_option autoImplicit false

namespace Process

variable {env : Env} {p p' : Process} {v u : Var} {pl other : Plugin}

/-! ### Tables -/

/-- A table in which one entry is set or removed. -/
def rebind {κ β : Type} [DecidableEq κ] (f : κ → Option β) :
    Option (κ × Option β) → κ → Option β
  | none => f
  | some (k, x) => Function.update f k x

theorem lookup_insert_update {κ β : Type} [DecidableEq κ] (m : Finmap fun _ : κ => β) (k : κ)
    (x : β) : (fun k' => (m.insert k x).lookup k') =
      Function.update (fun k' => m.lookup k') k (some x) := by
  funext k'
  rw [lookup_insert_eq, Function.update_apply]

theorem lookup_erase_update {κ β : Type} [DecidableEq κ] (m : Finmap fun _ : κ => β) (k : κ) :
    (fun k' => (m.erase k).lookup k') = Function.update (fun k' => m.lookup k') k none := by
  funext k'
  rw [lookup_erase_eq, Function.update_apply]

theorem update_of_not_mem {κ β : Type} [DecidableEq κ] {m : Finmap fun _ : κ => β} {k : κ}
    (h : k ∉ m) : Function.update (fun k' => m.lookup k') k none = fun k' => m.lookup k' := by
  rw [← Finmap.lookup_eq_none.mpr h]
  exact Function.update_eq_self k fun k' => m.lookup k'

theorem rebind_eq_some {κ β : Type} [DecidableEq κ] {f : κ → Option β}
    {e : Option (κ × Option β)} {k : κ} {x : β} (h : rebind f e k = some x) :
    f k = some x ∨ e = some (k, some x) := by
  cases e with
  | none => exact Or.inl h
  | some e =>
    rw [rebind, Function.update_apply] at h
    split at h
    · rename_i hk
      exact Or.inr (by rw [hk, ← h])
    · exact Or.inl h

/-! ### What is bound anew -/

/-- What the variables refer to. -/
def ref (p : Process) (v : Var) : Option WeakPluginPtr := (p.plugins.lookup v).map Plugin.weak

/-- What a weak pointer is locked to. -/
def locked (p : Process) (weak : WeakPluginPtr) : WeakPluginPtr :=
  ⟨p.lockInstance weak, p.lockInfo weak⟩

/-- The variable that an operation binds anew, and to what. -/
def rebinds (env : Env) (p : Process) : Op → Option (Var × Option WeakPluginPtr)
  | .construct v _ => some (v, some ⟨none, none⟩)
  | .copyConstruct v _ u => some (v, p.ref u)
  | .instantiate v _ s instance_ => some (v, some (p.world.instantiate env s instance_).1.weak)
  | .assign v u => some (v, if u = v then some ⟨none, none⟩ else p.ref u)
  | .clear v => some (v, some ⟨none, none⟩)
  | .destroy v => some (v, none)
  | .lock v x => some (v, (p.weaks.lookup x).map p.locked)
  | .pluginFromThis v block => some (v, (p.fromThis.lookup block).map p.locked)
  | _ => none

/-- The interface pointer that an operation binds anew, and to what. -/
def reshares (p : Process) : Op → Option (Nat × Option InstancePtr)
  | .queryInterfaceSharedPtr i v interface =>
    some (i, (p.plugins.lookup v).bind fun pl =>
      if pl.queryInterface interface ≠ 0 then
        pl.loadedInstancePtr.map fun ptr => ⟨ptr.block, pl.queryInterface interface⟩
      else none)
  | .shareInstance i v => some (i, (p.ref v).bind (·.instance_))
  | .dropShared i => some (i, none)
  | _ => none

/-- The weak pointer that an operation binds anew, and to what. -/
def reweaks (p : Process) : Op → Option (Nat × Option WeakPluginPtr)
  | .assignWeak x v => some (x, p.ref v)
  | .dropWeak x => some (x, none)
  | _ => none

theorem ref_of_insert (h : p'.plugins = p.plugins.insert v pl) :
    p'.ref = Function.update p.ref v (some pl.weak) := by
  funext u
  unfold ref
  rw [h, lookup_insert_eq, Function.update_apply]
  split <;> rfl

theorem ref_of_erase (h : p'.plugins = p.plugins.erase v) :
    p'.ref = Function.update p.ref v none := by
  funext u
  unfold ref
  rw [h, lookup_erase_eq, Function.update_apply]
  split <;> rfl

theorem ref_of_eq (h : p'.plugins = p.plugins) : p'.ref = p.ref := by
  funext u
  unfold ref
  rw [h]

theorem ref_eq (h : p.plugins.lookup v = some pl) : p.ref v = some pl.weak := by
  rw [ref, h]
  rfl

theorem mem_plugins_iff_ref : v ∈ p.plugins ↔ p.ref v ≠ none := by
  rw [ref, Option.ne_none_iff_isSome, Option.isSome_map, Finmap.lookup_isSome]

@[simp] theorem weak_specialized (specInterfaces : List String) :
    (Plugin.specialized specInterfaces).weak = ⟨none, none⟩ := by
  simp [Plugin.weak]

theorem assign_eq (hl : p.plugins.lookup v = some pl) (hu : u ∈ p.plugins) :
    ∃ new, p.assign v u = (p.clear v).setPlugin v new ∧
      some new.weak = if u = v then some ⟨none, none⟩ else p.ref u := by
  have hv : (p.clear v).plugins.lookup v = some pl.clear := by
    rw [clear_plugins hl, Finmap.lookup_insert]
  simp only [assign, hv]
  by_cases he : u = v
  · rw [he, hv]
    exact ⟨_, rfl, by rw [if_pos rfl]; rfl⟩
  · obtain ⟨other, ho⟩ := Finmap.mem_iff.mp hu
    have hu' : (p.clear v).plugins.lookup u = some other := by
      rw [clear_plugins hl, Finmap.lookup_insert_of_ne _ he, ho]
    rw [hu']
    exact ⟨_, rfl, by rw [if_neg he, ref_eq ho]; rfl⟩

theorem assign_plugins (hl : p.plugins.lookup v = some pl) (hu : u ∈ p.plugins) :
    ∃ new, (p.assign v u).plugins = p.plugins.insert v new ∧
      some new.weak = if u = v then some ⟨none, none⟩ else p.ref u := by
  obtain ⟨new, he, hnew⟩ := assign_eq hl hu
  refine ⟨new, ?_, hnew⟩
  rw [he, setPlugin, clear_plugins hl, Finmap.insert_insert]

@[simp] theorem assign_shared (p : Process) (v u : Var) : (p.assign v u).shared = p.shared := by
  simp only [assign]
  split
  · exact clear_shared p v
  · exact clear_shared p v

@[simp] theorem assign_weaks (p : Process) (v u : Var) : (p.assign v u).weaks = p.weaks := by
  simp only [assign]
  split
  · exact clear_weaks p v
  · exact clear_weaks p v

/-- What an operation binds anew, table by table. -/
structure Binds (env : Env) (p : Process) (op : Op) (p' : Process) : Prop where
  ref : p'.ref = rebind p.ref (p.rebinds env op)
  shared : (fun i => p'.shared.lookup i) = rebind (fun i => p.shared.lookup i) (p.reshares op)
  weaks : (fun x => p'.weaks.lookup x) = rebind (fun x => p.weaks.lookup x) (p.reweaks op)

theorem Binds.variable {op : Op} (href : p'.ref = rebind p.ref (p.rebinds env op))
    (hshared : p'.shared = p.shared) (hweaks : p'.weaks = p.weaks) (hop : p.reshares op = none)
    (hop' : p.reweaks op = none) : Binds env p op p' where
  ref := href
  shared := by rw [hshared, hop, rebind]
  weaks := by rw [hweaks, hop', rebind]

theorem lock_binds {op : Op} {weak : WeakPluginPtr}
    (hop : p.rebinds env op = some (v, some (p.locked weak))) (hop' : p.reshares op = none)
    (hop'' : p.reweaks op = none) : Binds env p op (p.lock env v weak) := by
  have hplugins : (p.lock env v weak).plugins = p.plugins.insert v (p.lockedPlugin env weak) := by
    rw [lock_eq]
    rfl
  rw [lock_eq] at hplugins ⊢
  refine .variable ?_ rfl rfl hop' hop''
  rw [ref_of_insert hplugins, hop]
  rfl

theorem share_shared {i : Nat} (hi : i ∉ p.shared) (instance_ : Option InstancePtr) :
    (fun k => (p.share i instance_).shared.lookup k) =
      Function.update (fun k => p.shared.lookup k) i instance_ := by
  cases instance_ with
  | none => exact (update_of_not_mem hi).symm
  | some ptr => exact lookup_insert_update _ _ _

theorem share_binds {op : Op} {i : Nat} {instance_ : Option InstancePtr} (hi : i ∉ p.shared)
    (hop : p.rebinds env op = none) (hop' : p.reshares op = some (i, instance_))
    (hop'' : p.reweaks op = none) : Binds env p op (p.share i instance_) where
  ref := by
    rw [hop, rebind]
    cases instance_ <;> rfl
  shared := by
    rw [hop', rebind]
    exact share_shared hi instance_
  weaks := by
    rw [hop'', rebind]
    cases instance_ <;> rfl

theorem ref_bind_instance (p : Process) (v : Var) :
    (p.ref v).bind (·.instance_) = (p.plugins.lookup v).bind (·.loadedInstancePtr) := by
  unfold ref
  cases p.plugins.lookup v <;> rfl

/-- Every operation binds what `rebinds`, `reshares` and `reweaks` name, and nothing else. -/
theorem step_binds {op : Op} (hs : step env p op = some p') : Binds env p op p' := by
  obtain ⟨hen, rfl⟩ := step_eq_some.mp hs
  cases op with
  | loader op =>
    have hframe := loader_frame env p op
    exact .variable (ref_of_eq hframe.plugins) hframe.shared hframe.weaks rfl rfl
  | construct v specInterfaces =>
    refine .variable ?_ rfl rfl rfl rfl
    refine (ref_of_insert rfl).trans ?_
    rw [weak_specialized]
    rfl
  | copyConstruct v specInterfaces u =>
    obtain ⟨other, ho⟩ := Finmap.mem_iff.mp hen.2
    obtain ⟨new, he, hnew⟩ := copyConstruct_eq p v specInterfaces ho
    rw [after, he]
    refine .variable ?_ rfl rfl rfl rfl
    refine (ref_of_insert rfl).trans ?_
    rw [rebinds, ref_eq ho, hnew]
    rfl
  | instantiate v specInterfaces s instance_ =>
    obtain ⟨new, fromThis, he, hnew, _⟩ := instantiate_eq env p v specInterfaces s instance_
    rw [after, he]
    refine .variable ?_ rfl rfl rfl rfl
    refine (ref_of_insert rfl).trans ?_
    rw [hnew]
    rfl
  | assign v u =>
    obtain ⟨pl, hl⟩ := Finmap.mem_iff.mp hen.1
    obtain ⟨new, hp, hnew⟩ := assign_plugins hl hen.2
    refine .variable ((ref_of_insert hp).trans ?_) (assign_shared p v u) (assign_weaks p v u)
      rfl rfl
    rw [hnew]
    rfl
  | clear v =>
    obtain ⟨pl, hl⟩ := Finmap.mem_iff.mp hen
    exact .variable (ref_of_insert (clear_plugins hl)) (clear_shared p v) (clear_weaks p v) rfl rfl
  | destroy v =>
    obtain ⟨pl, hl⟩ := Finmap.mem_iff.mp hen
    exact .variable (ref_of_erase (destroy_plugins hl)) (destroy_shared p v) (destroy_weaks p v)
      rfl rfl
  | queryInterfaceSharedPtr i v interface =>
    rw [after, queryInterfaceSharedPtr_eq]
    exact share_binds hen.1 rfl rfl rfl
  | shareInstance i v =>
    rw [after, shareInstance_eq, ← ref_bind_instance]
    exact share_binds hen.1 rfl rfl rfl
  | dropShared i =>
    refine ⟨ref_of_eq (releaseInstance_plugins _ _), ?_, ?_⟩
    · rw [after, dropShared, releaseInstance_shared]
      exact lookup_erase_update _ _
    · rw [after, dropShared, releaseInstance_weaks]
      rfl
  | assignWeak x v =>
    obtain ⟨pl, hl⟩ := Finmap.mem_iff.mp hen
    rw [after, assignWeak_eq p x hl]
    refine ⟨rfl, rfl, ?_⟩
    rw [reweaks, ref_eq hl]
    exact lookup_insert_update _ _ _
  | dropWeak x => exact ⟨rfl, rfl, lookup_erase_update _ _⟩
  | lock v x =>
    obtain ⟨weak, hw⟩ := Finmap.mem_iff.mp hen.2
    simp only [after, hw]
    exact lock_binds (by rw [rebinds, hw]; rfl) rfl rfl
  | pluginFromThis v block =>
    obtain ⟨weak, hw⟩ := Finmap.mem_iff.mp hen.2
    simp only [after, hw]
    exact lock_binds (by rw [rebinds, hw]; rfl) rfl rfl

end Process

end GzPlugin
