import GzPlugin.Effects

/-!
# The calls to the dynamic linker

The functions of the Loader once more, with a record of their calls of `dlopen` and
`dlclose`. Without the record they are the functions of before, and the record accounts for
everything that they do to the linker.
-/

namespace GzPlugin

open FiniteMaps Runs

set_option autoImplicit false

/-- A call of the Loader: a `dlopen` that returned the handle `h`, or a `dlclose`. -/
inductive DlCall where
  | dlopen (lib : LibId) (h : Handle) (serial : Nat) (noDelete : Bool)
  | dlclose (h : Handle)

namespace DlCall

def opens (h : Handle) : DlCall → Bool
  | .dlopen _ h' _ _ => h' = h
  | .dlclose _ => false

def closes (h : Handle) : DlCall → Bool
  | .dlopen _ _ _ _ => false
  | .dlclose h' => h' = h

/-- What the call does to the linker. -/
def run : DlCall → Dl → Dl
  | .dlopen lib h serial noDelete, dl => dl.dlopen lib h serial noDelete
  | .dlclose h, dl => dl.dlclose h

end DlCall

/-- A Loader with the calls it has made, the latest one first. -/
structure Traced where
  world : World
  calls : List DlCall

namespace Traced

open World (relocate finishInfo DlopenResult Op)

/-- A part of a function that makes no call. -/
def map (t : Traced) (f : World → World) : Traced := { t with world := f t.world }

def dlopen (t : Traced) (lib : LibId) (h : Handle) (noDelete : Bool) : Traced where
  world := { t.world with dl := t.world.dl.dlopen lib h t.world.next noDelete }
  calls := .dlopen lib h t.world.next noDelete :: t.calls

def dlclose (t : Traced) (h : Handle) : Traced where
  world := { t.world with dl := t.world.dl.dlclose h }
  calls := .dlclose h :: t.calls

def release (t : Traced) (hp : DlHandlePtr) : Traced :=
  if t.world.Held hp then t else t.dlclose hp.handle

def setHandle (t : Traced) (name : String) (hp : DlHandlePtr) : Traced :=
  let t' := t.map fun w => { w with impl := { w.impl with
    pluginToDlHandlePtrs := w.impl.pluginToDlHandlePtrs.insert name hp } }
  match t.world.impl.pluginToDlHandlePtrs.lookup name with
  | none => t'
  | some old => t'.release old

def eraseHandle (t : Traced) (name : String) : Traced :=
  match t.world.impl.pluginToDlHandlePtrs.lookup name with
  | none => t
  | some old => (t.map fun w => { w with impl := { w.impl with
      pluginToDlHandlePtrs := w.impl.pluginToDlHandlePtrs.erase name } }).release old

def dropLocal (t : Traced) (hp : DlHandlePtr) : Traced :=
  (t.map fun w => { w with locals := w.locals.erase hp }).release hp

def destroyInstance (t : Traced) (block : Nat) : Traced :=
  match t.world.instances.lookup block with
  | none => t
  | some i =>
    let t := t.map fun w => { w with instances := w.instances.erase block }
    match i.dlHandlePtr with
    | none => t
    | some hp => t.release hp

def openLib (env : Env) (t : Traced) (path : String) (noDelete : Bool) (res : DlopenResult) :
    Option DlHandlePtr × Traced :=
  match res.handle, env.resolve path with
  | some h, some lib =>
    let image := (t.world.dl.opened lib h t.world.next noDelete).image
    let hp : DlHandlePtr := ⟨t.world.next + 1, h, image⟩
    let t := (t.dlopen lib h noDelete).map fun w => { w with next := w.next + 2 }
    if res.error then (none, t)
    else
      match (t.world.impl.dlHandlePtrMap.lookup h).filter fun old => t.world.Held old with
      | some old => (some old, (t.dlclose h).map fun w => { w with locals := old :: w.locals })
      | none => (some hp, t.map fun w => { w with
          impl := { w.impl with dlHandlePtrMap := w.impl.dlHandlePtrMap.insert h hp }
          locals := hp :: w.locals })
  | _, _ => (none, t)

def addPlugin (env : Env) (dlHandle : DlHandlePtr) (st : Traced × Finset String)
    (plugin : Info CodePtr) : Traced × Finset String :=
  let plugin := finishInfo env plugin
  ((st.1.map fun w => w.addInfo plugin).setHandle plugin.name dlHandle,
    insert plugin.name st.2)

def loadLib (env : Env) (t : Traced) (path : String) (noDelete : Bool) (res : DlopenResult)
    (loadedPlugins : List (Info Symbol)) : Finset String × Traced :=
  match t.openLib env path noDelete res with
  | (none, t) => (∅, t)
  | (some dlHandle, t) =>
    let (t, newPlugins) := (relocate dlHandle loadedPlugins).foldl (addPlugin env dlHandle) (t, ∅)
    let t := t.map fun w => { w with impl := { w.impl with
      dlHandleToPluginMap := w.impl.dlHandleToPluginMap.insert dlHandle.handle newPlugins } }
    (newPlugins, t.dropLocal dlHandle)

def forgetPlugin (t : Traced) (forget : String) : Traced :=
  if t.world.thrown then t
  else
    let t := t.map fun w => w.forgetInfo forget
    if t.world.thrown then t else t.eraseHandle forget

def forgetHandle (t : Traced) (dlHandle : Handle) (order : List String) : Bool × Traced :=
  match t.world.impl.dlHandleToPluginMap.lookup dlHandle with
  | none => (false, t)
  | some _ =>
    let t := order.foldl forgetPlugin t
    if t.world.thrown then (false, t)
    else (true, t.map fun w => { w with impl := { w.impl with
      dlHandleToPluginMap := w.impl.dlHandleToPluginMap.erase dlHandle } })

def forgetLibrary (env : Env) (t : Traced) (path : String) (res : Option Handle)
    (order : List String) : Bool × Traced :=
  match res, env.resolve path with
  | some h, some lib => ((t.dlopen lib h false).dlclose h).forgetHandle h order
  | _, _ => (false, t)

def forgetLibraryOfPlugin (env : Env) (t : Traced) (pluginNameOrAlias : String)
    (order : List String) : Bool × Traced :=
  match t.world.impl.pluginToDlHandlePtrs.lookup (t.world.lookupPlugin env pluginNameOrAlias) with
  | none => (false, t)
  | some hp => t.forgetHandle hp.handle order

def destroyLoader (t : Traced) (order : List String) : Traced :=
  order.foldl eraseHandle (t.map World.clearTables)

def after (env : Env) (t : Traced) : Op → Traced
  | .loadLib path noDelete res loadedPlugins =>
    (t.loadLib env path noDelete res loadedPlugins).2
  | .forgetLibrary path res order => (t.forgetLibrary env path res order).2
  | .forgetLibraryOfPlugin s order => (t.forgetLibraryOfPlugin env s order).2
  | .destroyInstance block => t.destroyInstance block
  | .destroyLoader order => t.destroyLoader order
  | op => t.map fun w => w.after env op

def step (env : Env) (t : Traced) (op : Op) : Option Traced :=
  if t.world.Enabled env op then some (t.after env op) else none

def init : Traced := ⟨World.init, []⟩

theorem step_eq_some {env : Env} {t t' : Traced} {op : Op} :
    step env t op = some t' ↔ t.world.Enabled env op ∧ t.after env op = t' := by
  unfold step
  split <;> simp [*]

/-! ### Without the record -/

variable {env : Env} {t t' t'' : Traced}

@[simp] theorem map_world (t : Traced) (f : World → World) : (t.map f).world = f t.world := rfl

@[simp] theorem map_calls (t : Traced) (f : World → World) : (t.map f).calls = t.calls := rfl

@[simp] theorem release_world (t : Traced) (hp : DlHandlePtr) :
    (t.release hp).world = t.world.release hp := by
  unfold release World.release
  split <;> rfl

@[simp] theorem setHandle_world (t : Traced) (name : String) (hp : DlHandlePtr) :
    (t.setHandle name hp).world = t.world.setHandle name hp := by
  simp only [setHandle, World.setHandle]
  cases t.world.impl.pluginToDlHandlePtrs.lookup name with
  | none => rfl
  | some old => exact release_world _ old

@[simp] theorem eraseHandle_world (t : Traced) (name : String) :
    (t.eraseHandle name).world = t.world.eraseHandle name := by
  simp only [eraseHandle, World.eraseHandle]
  cases t.world.impl.pluginToDlHandlePtrs.lookup name with
  | none => rfl
  | some old => exact release_world _ old

@[simp] theorem dropLocal_world (t : Traced) (hp : DlHandlePtr) :
    (t.dropLocal hp).world = t.world.dropLocal hp :=
  release_world _ hp

@[simp] theorem destroyInstance_world (t : Traced) (block : Nat) :
    (t.destroyInstance block).world = t.world.destroyInstance block := by
  simp only [destroyInstance, World.destroyInstance]
  cases t.world.instances.lookup block with
  | none => rfl
  | some i =>
    cases hhp : i.dlHandlePtr with
    | none => simp only [hhp, map_world]
    | some hp => simp only [hhp, release_world, map_world]

theorem openLib_reused {path : String} {noDelete : Bool} {res : DlopenResult} {lib : LibId}
    {h : Handle} {hp : DlHandlePtr} (hlib : env.resolve path = some lib)
    (hres : res.handle = some h) (herr : res.error = false)
    (hold : ((t.world.impl.dlHandlePtrMap.lookup h).filter fun old => t.world.Held old) = some hp) :
    t.openLib env path noDelete res = (some hp,
      (((t.dlopen lib h noDelete).map fun w => { w with next := w.next + 2 }).dlclose h).map
        fun w => { w with locals := hp :: w.locals }) := by
  simp only [openLib, hlib, hres, herr, Bool.false_eq_true, if_false]
  split
  · rename_i old hsome
    cases hold.symm.trans hsome
    rfl
  · rename_i hnone
    cases hold.symm.trans hnone

theorem openLib_created {path : String} {noDelete : Bool} {res : DlopenResult} {lib : LibId}
    {h : Handle} {hp : DlHandlePtr} (hlib : env.resolve path = some lib)
    (hres : res.handle = some h) (herr : res.error = false)
    (hnone : ((t.world.impl.dlHandlePtrMap.lookup h).filter fun old => t.world.Held old) = none)
    (hhp : hp = ⟨t.world.next + 1, h, (t.world.dl.opened lib h t.world.next noDelete).image⟩) :
    t.openLib env path noDelete res = (some hp,
      ((t.dlopen lib h noDelete).map fun w => { w with next := w.next + 2 }).map fun w => { w with
        impl := { w.impl with dlHandlePtrMap := w.impl.dlHandlePtrMap.insert h hp }
        locals := hp :: w.locals }) := by
  simp only [openLib, hlib, hres, herr, Bool.false_eq_true, if_false]
  split
  · rename_i old hsome
    cases hnone.symm.trans hsome
  · rw [hhp]

theorem openLib_world (t : Traced) (path : String) (noDelete : Bool) (res : DlopenResult) :
    t.world.openLib env path noDelete res = ((t.openLib env path noDelete res).1,
      (t.openLib env path noDelete res).2.world) := by
  cases hres : res.handle with
  | none => simp only [openLib, World.openLib, hres]
  | some h =>
    cases hlib : env.resolve path with
    | none => simp only [openLib, World.openLib, hres, hlib]
    | some lib =>
      cases herr : res.error with
      | true =>
        simp only [openLib, World.openLib, hres, hlib, herr, if_true]
        rfl
      | false =>
        cases hold : (t.world.impl.dlHandlePtrMap.lookup h).filter fun old => t.world.Held old with
        | some old =>
          rw [openLib_reused hlib hres herr hold, World.openLib_reused hlib hres herr hold]
          rfl
        | none =>
          rw [openLib_created hlib hres herr hold rfl,
            World.openLib_created hlib hres herr hold rfl]
          rfl

theorem addPlugin_world (hp : DlHandlePtr) (st : Traced × Finset String) (info : Info CodePtr) :
    World.addPlugin env hp (st.1.world, st.2) info =
      ((addPlugin env hp st info).1.world, (addPlugin env hp st info).2) := by
  simp only [addPlugin, World.addPlugin, setHandle_world, map_world]

theorem addPlugins_world (hp : DlHandlePtr) (infos : List (Info CodePtr))
    (st : Traced × Finset String) :
    infos.foldl (World.addPlugin env hp) (st.1.world, st.2) =
      ((infos.foldl (addPlugin env hp) st).1.world, (infos.foldl (addPlugin env hp) st).2) :=
  List.foldl_hom (fun st : Traced × Finset String => (st.1.world, st.2)) (addPlugin_world hp)

theorem loadLib_world (t : Traced) (path : String) (noDelete : Bool) (res : DlopenResult)
    (infos : List (Info Symbol)) :
    t.world.loadLib env path noDelete res infos = ((t.loadLib env path noDelete res infos).1,
      (t.loadLib env path noDelete res infos).2.world) := by
  simp only [loadLib, World.loadLib, openLib_world]
  cases t.openLib env path noDelete res with
  | mk hp t₁ =>
    cases hp with
    | none => rfl
    | some hp => simp only [addPlugins_world hp _ (t₁, ∅), dropLocal_world, map_world]

theorem forgetPlugin_world (t : Traced) (name : String) :
    t.world.forgetPlugin name = (t.forgetPlugin name).world := by
  unfold forgetPlugin World.forgetPlugin
  cases hth : t.world.thrown with
  | true => simp only [if_true]
  | false =>
    cases hth' : (t.world.forgetInfo name).thrown <;>
      simp [hth']

theorem forgetPlugins_world (t : Traced) (order : List String) :
    order.foldl World.forgetPlugin t.world = (order.foldl forgetPlugin t).world :=
  List.foldl_hom world forgetPlugin_world

theorem forgetHandle_world (t : Traced) (h : Handle) (order : List String) :
    t.world.forgetHandle h order =
      ((t.forgetHandle h order).1, (t.forgetHandle h order).2.world) := by
  simp only [forgetHandle, World.forgetHandle, forgetPlugins_world]
  cases t.world.impl.dlHandleToPluginMap.lookup h with
  | none => rfl
  | some names =>
    simp only
    split <;> rfl

theorem forgetLibrary_world (t : Traced) (path : String) (res : Option Handle)
    (order : List String) : t.world.forgetLibrary env path res order =
      ((t.forgetLibrary env path res order).1, (t.forgetLibrary env path res order).2.world) := by
  cases res with
  | none => rfl
  | some h =>
    cases hlib : env.resolve path with
    | none => simp only [forgetLibrary, World.forgetLibrary, hlib]
    | some lib =>
      simp only [forgetLibrary, World.forgetLibrary, hlib]
      exact forgetHandle_world ((t.dlopen lib h false).dlclose h) h order

theorem forgetLibraryOfPlugin_world (t : Traced) (s : String) (order : List String) :
    t.world.forgetLibraryOfPlugin env s order = ((t.forgetLibraryOfPlugin env s order).1,
      (t.forgetLibraryOfPlugin env s order).2.world) := by
  simp only [forgetLibraryOfPlugin, World.forgetLibraryOfPlugin]
  cases t.world.impl.pluginToDlHandlePtrs.lookup (t.world.lookupPlugin env s) with
  | none => rfl
  | some hp => exact forgetHandle_world t hp.handle order

theorem destroyLoader_world (t : Traced) (order : List String) :
    t.world.destroyLoader order = (t.destroyLoader order).world := by
  have hfold : order.foldl World.eraseHandle (t.map World.clearTables).world =
      (order.foldl eraseHandle (t.map World.clearTables)).world :=
    List.foldl_hom world fun t name => (eraseHandle_world t name).symm
  exact hfold

theorem after_world (t : Traced) (op : Op) : (t.after env op).world = t.world.after env op := by
  cases op with
  | loadLib path noDelete res infos =>
    exact (congrArg Prod.snd (loadLib_world t path noDelete res infos)).symm
  | forgetLibrary path res order =>
    exact (congrArg Prod.snd (forgetLibrary_world t path res order)).symm
  | forgetLibraryOfPlugin s order =>
    exact (congrArg Prod.snd (forgetLibraryOfPlugin_world t s order)).symm
  | destroyInstance block => exact destroyInstance_world t block
  | destroyLoader order => exact (destroyLoader_world t order).symm
  | instantiate s instance_ => rfl
  | otherOpen lib h => rfl
  | otherClose h => rfl

/-- The record changes nothing: a traced Loader steps as the Loader does. -/
theorem step_world (t : Traced) (op : Op) :
    (step env t op).map world = World.step env t.world op := by
  unfold step World.step
  split
  · rw [Option.map_some, after_world]
  · rfl

/-! ### The record is complete -/

/-- Between `t` and `t'` the linker was changed by the calls recorded in between only. -/
def Since (t t' : Traced) : Prop :=
  ∃ calls, t'.calls = calls ++ t.calls ∧ t'.world.dl = calls.foldr DlCall.run t.world.dl

theorem Since.refl (t : Traced) : Since t t := ⟨[], rfl, rfl⟩

theorem Since.trans (h : Since t t') (h' : Since t' t'') : Since t t'' := by
  obtain ⟨calls, hcalls, hdl⟩ := h
  obtain ⟨calls', hcalls', hdl'⟩ := h'
  refine ⟨calls' ++ calls, ?_, ?_⟩
  · rw [hcalls', hcalls, List.append_assoc]
  · rw [hdl', hdl, List.foldr_append]

theorem Since.of_map {f : World → World} (hf : (f t.world).dl = t.world.dl) :
    Since t (t.map f) :=
  ⟨[], rfl, hf⟩

theorem Since.invariant {I : Dl → Prop} (h : Since t t')
    (hrun : ∀ c dl, I dl → I (DlCall.run c dl)) (hI : I t.world.dl) : I t'.world.dl := by
  obtain ⟨calls, -, hdl⟩ := h
  rw [hdl]
  clear hdl
  induction calls with
  | nil => exact hI
  | cons c calls ih => exact hrun c _ ih

theorem dlopen_since (t : Traced) (lib : LibId) (h : Handle) (noDelete : Bool) :
    Since t (t.dlopen lib h noDelete) :=
  ⟨[.dlopen lib h t.world.next noDelete], rfl, rfl⟩

theorem dlclose_since (t : Traced) (h : Handle) : Since t (t.dlclose h) :=
  ⟨[.dlclose h], rfl, rfl⟩

theorem release_since (t : Traced) (hp : DlHandlePtr) : Since t (t.release hp) := by
  unfold release
  split
  · exact Since.refl t
  · exact dlclose_since t hp.handle

theorem setHandle_since (t : Traced) (name : String) (hp : DlHandlePtr) :
    Since t (t.setHandle name hp) := by
  unfold setHandle
  split
  · exact .of_map rfl
  · exact .trans (.of_map rfl) (release_since _ _)

theorem eraseHandle_since (t : Traced) (name : String) : Since t (t.eraseHandle name) := by
  unfold eraseHandle
  split
  · exact Since.refl t
  · exact .trans (.of_map rfl) (release_since _ _)

theorem dropLocal_since (t : Traced) (hp : DlHandlePtr) : Since t (t.dropLocal hp) :=
  .trans (.of_map rfl) (release_since _ hp)

theorem destroyInstance_since (t : Traced) (block : Nat) : Since t (t.destroyInstance block) := by
  unfold destroyInstance
  split
  · exact Since.refl t
  simp only
  split
  · exact .of_map rfl
  · exact .trans (.of_map rfl) (release_since _ _)

theorem openLib_since (t : Traced) (path : String) (noDelete : Bool) (res : DlopenResult) :
    Since t (t.openLib env path noDelete res).2 := by
  unfold openLib
  split
  · rename_i h lib _ _
    have hopen : Since t ((t.dlopen lib h noDelete).map fun w => { w with next := w.next + 2 }) :=
      .trans (dlopen_since t lib h noDelete) (.of_map rfl)
    simp only
    split
    · exact hopen
    split
    · exact hopen.trans (.trans (dlclose_since _ h) (.of_map rfl))
    · exact hopen.trans (.of_map rfl)
  · exact Since.refl t

theorem addPlugin_since (hp : DlHandlePtr) (st : Traced × Finset String) (info : Info CodePtr) :
    Since st.1 (addPlugin env hp st info).1 :=
  .trans (.of_map rfl) (setHandle_since _ _ hp)

theorem addPlugins_since (hp : DlHandlePtr) (infos : List (Info CodePtr))
    (st : Traced × Finset String) : Since st.1 (infos.foldl (addPlugin env hp) st).1 := by
  induction infos generalizing st with
  | nil => exact Since.refl st.1
  | cons info infos ih => exact (addPlugin_since hp st info).trans (ih _)

theorem loadLib_since (t : Traced) (path : String) (noDelete : Bool) (res : DlopenResult)
    (infos : List (Info Symbol)) : Since t (t.loadLib env path noDelete res infos).2 := by
  have hopen : Since t (t.openLib env path noDelete res).2 := openLib_since t path noDelete res
  unfold loadLib
  split
  · rename_i t₁ he
    rw [he] at hopen
    exact hopen
  · rename_i hp t₁ he
    rw [he] at hopen
    have hadd : Since t₁ ((relocate hp infos).foldl (addPlugin env hp) (t₁, ∅)).1 :=
      addPlugins_since hp (relocate hp infos) (t₁, ∅)
    exact hopen.trans (hadd.trans (.trans (.of_map rfl) (dropLocal_since _ hp)))

theorem forgetPlugin_since (t : Traced) (name : String) : Since t (t.forgetPlugin name) := by
  have hforget : Since t (t.map fun w => w.forgetInfo name) := by
    apply Since.of_map
    unfold World.forgetInfo
    split <;> rfl
  unfold forgetPlugin
  split
  · exact Since.refl t
  simp only
  split
  · exact hforget
  · exact hforget.trans (eraseHandle_since _ name)

theorem forgetPlugins_since (order : List String) (t : Traced) :
    Since t (order.foldl forgetPlugin t) := by
  induction order generalizing t with
  | nil => exact Since.refl t
  | cons name order ih => exact (forgetPlugin_since t name).trans (ih _)

theorem forgetHandle_since (t : Traced) (h : Handle) (order : List String) :
    Since t (t.forgetHandle h order).2 := by
  have hforget := forgetPlugins_since order t
  unfold forgetHandle
  split
  · exact Since.refl t
  simp only
  split
  · exact hforget
  · exact hforget.trans (.of_map rfl)

theorem forgetLibrary_since (t : Traced) (path : String) (res : Option Handle)
    (order : List String) : Since t (t.forgetLibrary env path res order).2 := by
  unfold forgetLibrary
  split
  · exact (dlopen_since t _ _ false).trans
      ((dlclose_since _ _).trans (forgetHandle_since _ _ order))
  · exact Since.refl t

theorem forgetLibraryOfPlugin_since (t : Traced) (s : String) (order : List String) :
    Since t (t.forgetLibraryOfPlugin env s order).2 := by
  unfold forgetLibraryOfPlugin
  split
  · exact Since.refl t
  · exact forgetHandle_since t _ order

theorem destroyLoader_since (t : Traced) (order : List String) :
    Since t (t.destroyLoader order) := by
  have herase : ∀ t, Since t (order.foldl eraseHandle t) := by
    induction order with
    | nil => exact Since.refl
    | cons name order ih => exact fun t => (eraseHandle_since t name).trans (ih _)
  exact .trans (.of_map rfl) (herase _)

theorem instantiate_since (t : Traced) (s : String) (instance_ : Ptr) :
    Since t (t.map fun w => (w.instantiate env s instance_).2) := by
  have hcreate : ∀ (w : World) info dl allowNull,
      (w.create env info dl allowNull instance_).2.dl = w.dl := by
    intro w info dl allowNull
    unfold World.create
    simp only
    split <;> rfl
  apply Since.of_map
  unfold World.instantiate
  simp only
  split
  · exact hcreate _ _ _ _
  split
  · exact hcreate _ _ _ _
  · rfl

/-- What an operation does to the linker: the recorded calls, or what somebody else did. -/
theorem after_since (t : Traced) (op : Op) : Since t (t.after env op) ∨
    (∃ lib h, (t.after env op).world.dl = t.world.dl.otherOpen lib h t.world.next) ∨
    ∃ h, (t.after env op).world.dl = t.world.dl.otherClose h := by
  cases op with
  | loadLib path noDelete res infos => exact Or.inl (loadLib_since t path noDelete res infos)
  | forgetLibrary path res order => exact Or.inl (forgetLibrary_since t path res order)
  | forgetLibraryOfPlugin s order => exact Or.inl (forgetLibraryOfPlugin_since t s order)
  | instantiate s instance_ => exact Or.inl (instantiate_since t s instance_)
  | destroyInstance block => exact Or.inl (destroyInstance_since t block)
  | destroyLoader order => exact Or.inl (destroyLoader_since t order)
  | otherOpen lib h => exact Or.inr (Or.inl ⟨lib, h, rfl⟩)
  | otherClose h => exact Or.inr (Or.inr ⟨h, rfl⟩)

/-- What every call to the linker preserves holds of the linker after an operation. -/
theorem after_dl (w : World) (op : Op) {I : Dl → Prop} (hI : I w.dl)
    (hrun : ∀ c dl, I dl → I (DlCall.run c dl))
    (hopen : ∀ lib h serial dl, I dl → I (dl.otherOpen lib h serial))
    (hclose : ∀ h dl, I dl → I (dl.otherClose h)) : I (w.after env op).dl := by
  rw [← after_world ⟨w, []⟩ op]
  rcases after_since ⟨w, []⟩ op with hsince | ⟨lib, h, hdl⟩ | ⟨h, hdl⟩
  · exact hsince.invariant hrun hI
  · rw [hdl]
    exact hopen lib h w.next w.dl hI
  · rw [hdl]
    exact hclose h w.dl hI

end Traced

end GzPlugin
