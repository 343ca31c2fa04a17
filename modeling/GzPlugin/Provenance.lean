import GzPlugin.Lifetime
import GzPlugin.Mapped

/-!
# Where an instance and its Info come from

An instance and an `Info` that somebody refers to together are of one library, and the instance
keeps that library open, as long as a load brings no plugin name of another library.
-/

namespace GzPlugin

open FiniteMaps Runs

set_option autoImplicit false

/-- All functions of the `Info` that the wrapper refers to come from one image. -/
def WeakPluginPtr.Uniform (weak : WeakPluginPtr) : Prop :=
  ∀ ptr ∈ weak.info, ptr.info.LivesIn ptr.info.deleter.image

namespace World

variable {env : Env} {w : World}

theorem Matched.instantiate_uniform (hm : w.Matched) (hS : Sound env w) (s : String)
    (instance_ : Ptr) : (w.instantiate env s instance_).1.weak.Uniform := by
  cases hS.resolution s with
  | file ptr hp _ hptr hhp hmade _ =>
    rw [hmade]
    intro info hinfo
    cases hinfo
    exact (hm.registered hptr hhp).uniform
  | stale _ _ hmade _ =>
    rw [hmade]
    intro info hinfo
    cases hinfo
  | static info _ _ hstored hmade _ =>
    rw [hmade]
    intro info hinfo
    cases hinfo
    exact (env.statics_livesIn hstored).uniform
  | missing _ _ hmade _ =>
    rw [hmade]
    intro info hinfo
    cases hinfo

end World

namespace Process

variable {env : Env} {p p' : Process} {op : Op}

theorem uniform_locked {weak : WeakPluginPtr} (h : weak.Uniform) : (p.locked weak).Uniform := by
  intro ptr hptr
  apply h
  exact (Option.filter_eq_some_iff.mp hptr).1

theorem uniform_next (hall : AllRefs WeakPluginPtr.Uniform p) (h : Consistent env p)
    (hm : p.world.Matched) (hs : step env p op = some p') :
    AllRefs WeakPluginPtr.Uniform p' := by
  apply hall.next_of_instantiate h hs
  · intro ptr hptr
    cases hptr
  · exact fun _ => id
  · exact fun weak _ => uniform_locked
  · intro _ _ s instance_ _
    exact hm.instantiate_uniform h.sound s instance_

/-- The operation on the Loader that the operation is. -/
def loaderOp : Op → Option World.Op
  | .loader o => some o
  | _ => none

/-- The library that is loaded owns the registered plugins of the same names. -/
def LoadsOwnNames (env : Env) (p : Process) (op : Op) : Prop :=
  ∀ o ∈ loaderOp op, World.LoadsOwnNames env p.world o

instance (env : Env) (p : Process) (op : Op) : Decidable (LoadsOwnNames env p op) := by
  unfold LoadsOwnNames
  infer_instance

/-- Every reference comes with what keeps its code mapped. -/
structure CodeKept (env : Env) (p : Process) : Prop where
  consistent : Consistent env p
  matched : p.world.Matched
  paired : AllRefs p.Paired p
  uniform : AllRefs WeakPluginPtr.Uniform p

theorem init_codeKept (env : Env) : CodeKept env init where
  consistent := init_consistent env
  matched := World.init_matched
  paired := init_allRefs _
  uniform := init_allRefs _

theorem CodeKept.next (h : CodeKept env p) (hs : step env p op = some p')
    (hload : LoadsOwnNames env p op) : CodeKept env p' where
  consistent := step_consistent h.consistent hs
  matched := by
    rcases step_world hs with he | ⟨o, hstep, hop⟩
    · rw [he]
      exact h.matched
    · apply (h.matched.step_iff h.consistent.sound hstep).mpr
      rcases hop with he | hon
      · exact hload o (by rw [he]; rfl)
      · exact World.loadsOwnNames_of_loads_none (loads_of_not_onLoader hon)
  paired := paired_next h.paired h.consistent hs
  uniform := uniform_next h.uniform h.consistent h.matched hs

/-- An instance and an `Info` that somebody has together are from one library, and the instance
keeps it mapped. -/
theorem CodeKept.maps_pair (h : CodeKept env p) {weak : WeakPluginPtr} {ptr : InstancePtr}
    {info : ConstInfoPtr CodePtr} (hinst : weak.instance_ = some ptr)
    (hinfo : weak.info = some info) (hpaired : p.Paired weak) (huniform : weak.Uniform)
    (halive : ptr.block ∈ p.world.instances) : p.world.dl.MapsCode info.info := by
  obtain ⟨i, hi⟩ := Finmap.mem_iff.mp halive
  have hsame : i.deleter = info.info.deleter := (hpaired ptr hinst).2 i hi info hinfo
  rw [(huniform info hinfo).mapsCode_iff, ← hsame]
  exact h.matched.maps_deleter h.consistent.sound hi

end Process

end GzPlugin
