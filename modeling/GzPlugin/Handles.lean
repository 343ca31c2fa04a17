import GzPlugin.Instantiation

/-!
# The handle stored for a plugin

Loading a second library with a known plugin name keeps the old `Info` but stores the new
handle. Without such a load every `Info` lives in the image behind the stored handle.
-/

namespace GzPlugin

open FiniteMaps Runs Implementation

set_option autoImplicit false

def Info.LivesIn (info : Info CodePtr) (image : Image) : Prop :=
  info.factory.image = image ∧ info.deleter.image = image ∧
    ∀ name f, info.interfaces.lookup name = some f → f.image = image

theorem mapCode_livesIn (image : Image) (info : Info Symbol) :
    (info.mapCode (CodePtr.mk image)).LivesIn image := by
  refine ⟨rfl, rfl, fun name f hf => ?_⟩
  simp only [Info.mapCode, lookup_mapValues, Option.map_eq_some_iff] at hf
  obtain ⟨symbol, _, rfl⟩ := hf
  rfl

theorem Env.stored_livesIn (env : Env) (image : Image) (info : Info Symbol) :
    (env.stored image info).LivesIn image :=
  mapCode_livesIn image info

theorem StaticRegistry.addEntry_livesIn {demangle : String → String} {image : Image}
    {entry : Option (Info CodePtr)} {info : Info CodePtr} (he : ∀ e ∈ entry, e.LivesIn image)
    (hi : info.LivesIn image) : (addEntry demangle entry info).LivesIn image := by
  cases entry with
  | none => exact hi
  | some e =>
    obtain ⟨hfactory, hdeleter, hcast⟩ := he e rfl
    refine ⟨hfactory, hdeleter, fun name f hf => ?_⟩
    simp only [addEntry, lookup_union, Option.or_eq_some_iff] at hf
    rcases hf with hf | ⟨_, hf⟩
    · exact hcast name f hf
    · exact hi.2.2 name f hf

theorem Env.statics_livesIn (env : Env) {name : String} {info : Info CodePtr}
    (h : env.statics.infos.lookup name = some info) : info.LivesIn .executable := by
  refine StaticRegistry.registrations_forall (Q := fun _ i => i.LivesIn .executable) ?_ h
  intro i hi entry he
  obtain ⟨j, _, rfl⟩ := List.mem_map.mp hi
  exact StaticRegistry.addEntry_livesIn he (mapCode_livesIn _ j)

namespace World

variable {env : Env} {w w' : World}

/-- The image that an instance keeps mapped. -/
def keptImage : Option DlHandlePtr → Image
  | none => .executable
  | some hp => hp.image

/-- The handle is open and still stands for the image it was made for. -/
def OpenAt (w : World) (hp : DlHandlePtr) : Prop :=
  ∃ m, w.dl.lookup hp.handle = some m ∧ m.image = hp.image

/-- Every `Info` of the file registry and every instance is tied to the library whose code
it uses, and that library is open. -/
structure Tied (w : World) : Prop where
  registered : ∀ {name ptr}, w.impl.filePlugins.plugins.lookup name = some ptr →
    ∃ hp, w.impl.pluginToDlHandlePtrs.lookup name = some hp ∧
      ptr.info.LivesIn hp.image ∧ w.OpenAt hp
  instances : ∀ {block i}, w.instances.lookup block = some i →
    i.deleter.image = keptImage i.dlHandlePtr ∧ ∀ hp ∈ i.dlHandlePtr, w.OpenAt hp

/-- The part of `Tied` that a load can break. -/
structure Matched (w : World) : Prop where
  registered : ∀ {name ptr hp}, w.impl.filePlugins.plugins.lookup name = some ptr →
    w.impl.pluginToDlHandlePtrs.lookup name = some hp → ptr.info.LivesIn hp.image
  instances : ∀ {block i}, w.instances.lookup block = some i →
    i.deleter.image = keptImage i.dlHandlePtr

/-- The library that the operation loads owns the registered plugins of the same names. -/
def LoadsOwnNames (env : Env) (w : World) (op : Op) : Prop :=
  ∀ lib ∈ op.loads env, ∀ name ∈ env.pluginNames lib,
    ∀ ptr ∈ w.impl.filePlugins.plugins.lookup name,
      match ptr.info.deleter.image with
      | .executable => False
      | .mapped lib' _ => lib' = lib

instance (env : Env) (w : World) (op : Op) : Decidable (LoadsOwnNames env w op) := by
  unfold LoadsOwnNames
  have (image : Image) (lib : LibId) : Decidable (match image with
      | .executable => False
      | .mapped lib' _ => lib' = lib) := by cases image <;> infer_instance
  infer_instance

theorem Linked.openAt (h : w.Linked) {hp : DlHandlePtr} (hheld : w.Held hp) : w.OpenAt hp := by
  obtain ⟨m, hm, hi, _⟩ := h.mapped hheld
  exact ⟨m, hm, hi⟩

theorem Sound.tied_iff (h : Sound env w) : w.Tied ↔ w.Matched := by
  constructor
  · intro ht
    constructor
    · intro name ptr hp hptr hhp
      obtain ⟨hp', hhp', hlive, _⟩ := ht.registered hptr
      rw [hhp] at hhp'
      cases hhp'
      exact hlive
    · exact fun hi => (ht.instances hi).1
  · intro hm
    constructor
    · intro name ptr hptr
      obtain ⟨hp, hhp⟩ :=
        Finmap.mem_iff.mp (h.tables.keys.mp (Finmap.mem_of_lookup_eq_some hptr))
      exact ⟨hp, hhp, hm.registered hptr hhp, h.linked.openAt (held_of_handle hhp)⟩
    · intro block i hi
      exact ⟨hm.instances hi, fun hp hhp => h.linked.openAt (held_of_instance hi hhp)⟩

theorem Tied.deleter_image (h : w.Tied) (name : String) :
    ∀ ptr ∈ w.impl.filePlugins.plugins.lookup name,
      ∀ hp ∈ w.impl.pluginToDlHandlePtrs.lookup name, ptr.info.deleter.image = hp.image := by
  intro ptr hptr hp hhp
  obtain ⟨hp', hhp', hlive, _⟩ := h.registered hptr
  rw [Option.mem_def, hhp'] at hhp
  cases hhp
  exact hlive.2.1

theorem init_matched : init.Matched where
  registered h := by simp [init, Implementation.empty, Registry.empty] at h
  instances h := by simp [init] at h

theorem Matched.created (h : w.Matched) {i : PluginWithDlHandle} (hc : w.Creates env i) :
    i.deleter.image = keptImage i.dlHandlePtr := by
  rcases hc with ⟨name, ptr, hp, hptr, hhp, hdl, hdel⟩ | ⟨name, info, hinfo, hdl, hdel⟩
  · rw [hdl, hdel]
    exact (h.registered hptr hhp).2.1
  · rw [hdl, hdel]
    exact (env.statics_livesIn hinfo).2.1

/-- A load keeps the match exactly if the library owns the names it brings. -/
theorem Matched.loaded_iff {op : Op} {lib : LibId} {hp : DlHandlePtr}
    {infos : List (Info Symbol)} (h : w.Matched) (hS : Sound env w)
    (hop : op.loads env = some lib) (hl : Loaded env w lib hp infos w') :
    w'.Matched ↔ LoadsOwnNames env w op := by
  obtain ⟨serial, himage⟩ := hl.image
  constructor
  · intro hm lib' hlib' name hname ptr hptr
    rw [hop] at hlib'
    cases hlib'
    have hhp : w'.impl.pluginToDlHandlePtrs.lookup name = some hp := by
      rw [hl.added.handles, if_pos ((mem_pluginNames hl.enumerates).mp hname)]
    have hlive := hm.registered (hl.added.kept hptr) hhp
    rw [hlive.2.1, himage]
  · intro hC
    constructor
    · intro name ptr hp' hptr hhp'
      rw [hl.added.handles] at hhp'
      split at hhp'
      · rename_i hname
        cases hhp'
        rcases hl.added.stored hptr with hold | ⟨_, i, _, _, he⟩
        · have hown := hC lib hop name ((mem_pluginNames hl.enumerates).mpr hname) ptr hold
          obtain ⟨hp₀, hhp₀⟩ :=
            Finmap.mem_iff.mp (hS.tables.keys.mp (Finmap.mem_of_lookup_eq_some hold))
          have hlive := h.registered hold hhp₀
          have hsame : hp₀ = hp := by
            rw [hlive.2.1] at hown
            cases hi : hp₀.image with
            | executable => simp [hi] at hown
            | mapped lib' serial' =>
              simp only [hi] at hown
              exact hl.reuses (held_of_handle hhp₀) (hown ▸ hi)
          rw [← hsame]
          exact hlive
        · rw [he]
          exact env.stored_livesIn hp.image i
      · rename_i hname
        rcases hl.added.stored hptr with hold | ⟨_, i, hi, hn, _⟩
        · exact h.registered hold hhp'
        · exact absurd ⟨i, hi, hn⟩ hname
    · intro block i hi
      rw [hl.around.instances] at hi
      exact h.instances hi

theorem loadsOwnNames_of_loads_none {op : Op} (hop : op.loads env = none) :
    LoadsOwnNames env w op := by
  intro lib hlib
  rw [hop] at hlib
  cases hlib

theorem loads_of_forgottenHandle {op : Op} {hd : Handle}
    (hop : w.forgottenHandle env op = some hd) : op.loads env = none := by
  cases op <;> first | rfl | cases hop

theorem Matched.step_iff {op : Op} (h : w.Matched) (hS : Sound env w)
    (hs : step env w op = some w') : w'.Matched ↔ LoadsOwnNames env w op := by
  cases (step_sound hS hs).2 with
  | loaded lib hp infos hop hl => exact h.loaded_iff hS hop hl
  | forgot hd names hop hf =>
    refine iff_of_true ?_ (loadsOwnNames_of_loads_none (loads_of_forgottenHandle hop))
    constructor
    · intro name ptr hp hptr hhp
      rw [hf.removed.plugins] at hptr
      rw [hf.removed.handles] at hhp
      split at hptr
      · cases hptr
      · rename_i hn
        rw [if_neg hn] at hhp
        exact h.registered hptr hhp
    · intro block i hi
      rw [hf.around.instances] at hi
      exact h.instances hi
  | kept hload hforget hq =>
    refine iff_of_true ?_ (loadsOwnNames_of_loads_none hload)
    constructor
    · intro name ptr hp hptr hhp
      rw [hq.impl] at hptr hhp
      exact h.registered hptr hhp
    · intro block i hi
      rcases hq.instances hi with hold | hc
      · exact h.instances hold
      · exact h.created hc
  | destroyed himpl _ hinst =>
    refine iff_of_true ?_ (loadsOwnNames_of_loads_none rfl)
    constructor
    · intro name ptr hp hptr
      simp [himpl, Implementation.empty, Registry.empty] at hptr
    · intro block i hi
      rw [hinst] at hi
      exact h.instances hi

/-- In a run of the Loader every `Info` and every instance is tied to its own library in
every state reached, if and only if no library is loaded while the registry holds an `Info`
of another library under one of its plugin names. -/
theorem tied_iff_loadsOwnNames (env : Env) {l : List (Op × World)}
    (hrun : Run (step env) init l) :
    States Tied init l ↔ Steps (LoadsOwnNames env) init l := by
  have hiff : States (fun w => Sound env w ∧ w.Matched) init l ↔
      Steps (LoadsOwnNames env) init l := by
    refine hrun.states_iff (I := Sound env) (init_sound env) ⟨init_sound env, init_matched⟩
      (fun hS hs => (step_sound hS hs).1) ?_
    intro w op w' hS hP hs
    rw [← hP.2.step_iff hS hs]
    exact and_iff_right (step_sound hS hs).1
  have hsound : States (Sound env) init l :=
    hrun.states_of_step (init_sound env) fun hS hs => (step_sound hS hs).1
  rw [← hiff]
  constructor
  · intro h
    exact (hsound.and h).imp fun w hw => ⟨hw.1, hw.1.tied_iff.mp hw.2⟩
  · exact fun h => h.imp fun w hw => hw.1.tied_iff.mpr hw.2

theorem tied_oneByOne : States Tied init (history (step sharedName) init oneByOne) :=
  (tied_iff_loadsOwnNames sharedName (history_run (step sharedName) init oneByOne)).mpr
    (by decide)

/-- After both libraries are loaded, the `Info` of the first one is stored with the handle of
the second one. -/
theorem not_tied_loadBoth :
    ¬ ∀ w, Reachable (step sharedName) init w → w.Tied := by
  intro h
  have htied := h _ ⟨_, history_run (step sharedName) init loadBoth, rfl⟩
  exact absurd (htied.deleter_image "p") (by decide)

end World

end GzPlugin
