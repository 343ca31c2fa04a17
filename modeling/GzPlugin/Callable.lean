import GzPlugin.Keepers
import GzPlugin.Provenance

/-!
# Code that can be called is mapped

Whoever has a plugin has pointers to code of the library it came from: the factory and the casts
of an `Info`, the deleter of an instance. As long as a load brings no plugin name of another
library, none of these calls leads into a library that was closed. The end of an `Info`, which
runs code of the library too, is not one of them.
-/

namespace GzPlugin

open FiniteMaps Runs

set_option autoImplicit false

namespace Process

variable {env : Env} {p : Process}

theorem CodeKept.share (h : CodeKept env p) {k : Nat} (hk : k ∉ p.shared) (i : Nat) :
    CodeKept env (p.share k (p.shared.lookup i)) := by
  cases hi : p.shared.lookup i with
  | none => exact h
  | some ptr =>
    have hheld : ∀ ptr' ∈ some ptr, p.InstanceHeld ptr'.block := by
      intro ptr' hptr'
      cases hptr'
      exact Or.inr ⟨i, ptr, hi, rfl⟩
    obtain ⟨hrel, hback⟩ := share_released h.consistent hk hheld
    constructor
    · exact hrel.consistent h.consistent h.consistent.sound hback
    · exact h.matched
    · exact ⟨h.paired.plugins, h.paired.recorded⟩
    · exact ⟨h.uniform.plugins, h.uniform.recorded⟩

end Process

namespace Products

variable {env : Env} {s s' : Products} {op : Op} {c : CodePtr}

/-- What the Loader, a `PluginPtr`, `Lock` or the last keeper of an instance may call. -/
inductive Callable (env : Env) (s : Products) : CodePtr → Prop where
  | static {name : String} {info : Info CodePtr} {c : CodePtr}
      (h : env.statics.infos.lookup name = some info) (hc : info.HasCode c) : Callable env s c
  /-- The Loader calls the factory to make an instance, and the casts for its wrapper. -/
  | registered {name : String} {ptr : ConstInfoPtr CodePtr} {c : CodePtr}
      (h : s.process.world.impl.filePlugins.plugins.lookup name = some ptr)
      (hc : ptr.info.HasCode c) : Callable env s c
  /-- A `PluginPtr` has an instance and an `Info`. -/
  | wrapped {v : Var} {weak : WeakPluginPtr} {ptr : InstancePtr} {info : ConstInfoPtr CodePtr}
      {c : CodePtr} (h : s.process.ref v = some weak) (hinst : weak.instance_ = some ptr)
      (hinfo : weak.info = some info) (hc : info.info.HasCode c) : Callable env s c
  /-- `Lock` finds both alive and calls the casts. -/
  | locked {weak : WeakPluginPtr} {ptr : InstancePtr} {info : ConstInfoPtr CodePtr}
      {c : CodePtr} (h : s.process.Recorded weak)
      (hinst : (s.process.locked weak).instance_ = some ptr)
      (hinfo : (s.process.locked weak).info = some info) (hc : info.info.HasCode c) :
      Callable env s c
  /-- The last keeper of an instance calls it. -/
  | deleter {k : Keeper} {block : Nat} {i : PluginWithDlHandle} (hk : s.keeps k = some block)
      (hi : s.process.world.instances.lookup block = some i) : Callable env s i.deleter

theorem maps_of_callable (h : s.process.CodeKept env) (hc : Callable env s c) :
    s.process.world.dl.Maps c.image := by
  cases hc with
  | static hinfo hc => exact Or.inl ((env.statics_livesIn hinfo).code hc)
  | registered hptr hc => exact h.matched.registered_maps h.consistent.sound _ _ hptr c hc
  | wrapped href hinst hinfo hc =>
    obtain ⟨pl, hl, rfl⟩ := Option.map_eq_some_iff.mp href
    refine h.maps_pair hinst hinfo (h.paired.plugins href) (h.uniform.plugins href) ?_ c hc
    exact (h.consistent.alive _).mpr (Or.inl ⟨_, pl, hl, _, hinst, rfl⟩)
  | locked hr hinst hinfo hc =>
    obtain ⟨hinst, halive⟩ := Option.filter_eq_some_iff.mp hinst
    obtain ⟨hinfo, _⟩ := Option.filter_eq_some_iff.mp hinfo
    refine h.maps_pair hinst hinfo (h.paired.recorded hr) (h.uniform.recorded hr) ?_ c hc
    exact of_decide_eq_true halive
  | deleter _ hi => exact h.matched.maps_deleter h.consistent.sound hi

/-- The operation on the Loader that the operation is. -/
def loaderOp : Op → Option World.Op
  | .process (.loader o) => some o
  | _ => none

/-- The library that is loaded owns the registered plugins of the same names. -/
def LoadsOwnNames (env : Env) (s : Products) (op : Op) : Prop :=
  ∀ o ∈ loaderOp op, World.LoadsOwnNames env s.process.world o

instance (env : Env) (s : Products) (op : Op) : Decidable (LoadsOwnNames env s op) := by
  unfold LoadsOwnNames
  infer_instance

theorem codeKept_next (h : s.process.CodeKept env) (hload : LoadsOwnNames env s op)
    (hs : step env s op = some s') : s'.process.CodeKept env := by
  apply step_process (P := fun p => p.CodeKept env) hs h
  · intro p o p' hp ho hown
    apply hp.next ho
    cases o with
    | loader o' =>
      obtain ⟨rfl, rfl⟩ := hown o' rfl
      exact hload
    | _ =>
      intro o' he
      cases he
  · exact fun hk => h.share hk _

/-- In every run in which each library that is loaded owns the plugin names it brings, no factory,
cast or deleter that may be called is in a library that was closed. -/
theorem maps_of_loadsOwnNames (env : Env) {l : List (Op × Products)}
    (hrun : Run (step env) init l) (hload : Steps (LoadsOwnNames env) init l) :
    States (fun s => ∀ c, Callable env s c → s.process.world.dl.Maps c.image) init l := by
  have hstates : States (fun s => s.process.CodeKept env) init l := by
    apply hrun.states hload (Process.init_codeKept env)
    intro s op s' hC hI hs
    exact codeKept_next hI hC hs
  exact hstates.imp fun s hI c hc => maps_of_callable hI hc

theorem maps_twoProducts :
    States (fun s => ∀ c, Callable Process.fromThisPlugins s c → s.process.world.dl.Maps c.image)
      init (history (step Process.fromThisPlugins) init twoProducts) :=
  maps_of_loadsOwnNames Process.fromThisPlugins (history_run _ init twoProducts) (by decide)

end Products

end GzPlugin
