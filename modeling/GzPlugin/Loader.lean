import GzPlugin.Hook
import GzPlugin.StaticRegistry
import GzPlugin.Plugin

/-!
# The Loader

A `World` is one Loader with the linker it talks to and the plugin instances it has
created. The member functions are functions on it. Every place where the source lets go
of a `shared_ptr` to a dl handle calls `release`, which closes the handle if that was the
last one.
-/

namespace GzPlugin

open FiniteMaps

set_option autoImplicit false

/-- A library file: what `dlsym` finds under "GzPluginHook". A hook hands out nothing but
maps keyed by type name. -/
structure Library where
  hook : Option (HookArgs Symbol → HookArgs Symbol)
  keyed : ∀ f ∈ hook, ∀ args allInfo, args.outputAllInfo = some none →
    (f args).outputAllInfo = some (some allInfo) → Keyed allInfo

theorem registered_of_map (regs : List (Registration Symbol)) :
    ∀ info ∈ regs.map (·.info), info.Registered := by
  intro info hi
  obtain ⟨r, _, rfl⟩ := List.mem_map.mp hi
  exact r.registered

/-- The library built from registration macros with a given `Info` layout. -/
def Library.ofRegistrations (abi : Abi) (regs : List (Registration Symbol)) : Library where
  hook := some fun args =>
    (gzPluginHook abi (registrations abi (regs.map (·.info))) none args).2
  keyed := by
    intro f hf args allInfo hnull hout
    cases hf
    simp only [gzPluginHook, hookOutput, hnull] at hout
    split at hout
    · rename_i heq _ _ _
      cases heq
      simp only [Option.some.injEq] at hout
      split at hout
      · cases hout
        exact registrations_keyed abi (registered_of_map regs)
      · cases hout
    · rw [hnull] at hout
      cases hout

/-- What surrounds the Loader: the demangler, the files, the registrations made at program
start, and what a cast function does to a pointer. -/
structure Env where
  demangle : String → String
  demangle_ne : ∀ name, name ≠ "" → demangle name ≠ ""
  /-- The library file found at a path. -/
  resolve : String → Option LibId
  library : LibId → Library
  abi : Abi
  staticRegistrations : List (Registration Symbol)
  cast : CodePtr → Ptr → Ptr

namespace Env

variable (env : Env)

/-- The map that `LoadPlugins` copies from a library. -/
def allInfo (lib : LibId) : InfoMap Symbol := loadPlugins env.abi (env.library lib).hook

/-- The plugin names of a library after demangling. -/
def pluginNames (lib : LibId) : Finset String := (env.allInfo lib).keys.image env.demangle

def staticInfos : List (Info Symbol) := env.staticRegistrations.map (·.info)

/-- The singleton `StaticRegistry`; its functions live in the executable. -/
def statics : StaticRegistry CodePtr :=
  StaticRegistry.registrations env.demangle
    (env.staticInfos.map fun info => info.mapCode (CodePtr.mk .executable))

theorem allInfo_keyed (lib : LibId) : Keyed (env.allInfo lib) :=
  loadPlugins_keyed env.abi _ (env.library lib).keyed

theorem mem_pluginNames {env : Env} {lib : LibId} {name : String} : name ∈ env.pluginNames lib ↔
    ∃ key i, (env.allInfo lib).lookup key = some i ∧ env.demangle i.name = name := by
  simp only [pluginNames, Finset.mem_image, Finmap.mem_keys]
  constructor
  · rintro ⟨key, hk, rfl⟩
    obtain ⟨i, hi⟩ := Finmap.mem_iff.mp hk
    exact ⟨key, i, hi, by rw [(env.allInfo_keyed lib key i hi).1]⟩
  · rintro ⟨key, i, hi, rfl⟩
    exact ⟨key, Finmap.mem_of_lookup_eq_some hi, by rw [(env.allInfo_keyed lib key i hi).1]⟩

theorem statics_wellFormed : env.statics.WellFormed env.demangle := by
  apply StaticRegistry.registrations_wellFormed
  intro info hm
  obtain ⟨i, hi, rfl⟩ := List.mem_map.mp hm
  exact (registered_of_map env.staticRegistrations i hi).demangled

theorem statics_of_nil {env : Env} (h : env.staticInfos = []) :
    env.statics = StaticRegistry.empty := by
  simp [statics, h, StaticRegistry.registrations]

theorem statics_name_ne {name : String} (h : name ∈ env.statics.infos) : name ≠ "" := by
  obtain ⟨info, hinfo⟩ := Finmap.mem_iff.mp h
  refine StaticRegistry.registrations_forall (Q := fun name _ => name ≠ "") ?_ hinfo
  intro i hi entry _
  obtain ⟨j, hj, rfl⟩ := List.mem_map.mp hi
  exact env.demangle_ne j.name (registered_of_map env.staticRegistrations j hj).name_ne

end Env

/-- The data of `Loader::Implementation`, the pointer to the static registry apart. The
values of `dlHandlePtrMap` are `weak_ptr`s. -/
structure Implementation where
  pluginToDlHandlePtrs : StringMap DlHandlePtr
  filePlugins : Registry CodePtr
  dlHandlePtrMap : Finmap fun _ : Handle => DlHandlePtr
  dlHandleToPluginMap : Finmap fun _ : Handle => Finset String

def Implementation.empty : Implementation := ⟨∅, .empty, ∅, ∅⟩

structure World where
  dl : Dl
  impl : Implementation
  /-- Whether the Loader has not been destroyed yet. -/
  alive : Bool
  /-- The living `PluginWithDlHandle` objects, by control block. -/
  instances : Finmap fun _ : Nat => PluginWithDlHandle
  /-- The handle references held by local variables of a running function. -/
  locals : List DlHandlePtr
  /-- The next unused number for control blocks, images and objects. -/
  next : Nat
  /-- Whether `std::map::at` has thrown. -/
  thrown : Bool

namespace World

/-- A newly constructed Loader, before anybody has opened a library. -/
def init : World := ⟨∅, .empty, true, ∅, [], 0, false⟩

/-- Some `shared_ptr` to the handle exists. -/
def Held (w : World) (hp : DlHandlePtr) : Prop :=
  Has (fun _ p => p = hp) w.impl.pluginToDlHandlePtrs ∨
  Has (fun _ i => i.dlHandlePtr = some hp) w.instances ∨ hp ∈ w.locals

instance (w : World) (hp : DlHandlePtr) : Decidable (w.Held hp) := by
  unfold Held; infer_instance

/-- A `shared_ptr` to the handle has just gone away. -/
def release (w : World) (hp : DlHandlePtr) : World :=
  if w.Held hp then w else { w with dl := w.dl.dlclose hp.handle }

/-- `pluginToDlHandlePtrs[name] = hp` -/
def setHandle (w : World) (name : String) (hp : DlHandlePtr) : World :=
  let w' := { w with impl := { w.impl with
    pluginToDlHandlePtrs := w.impl.pluginToDlHandlePtrs.insert name hp } }
  match w.impl.pluginToDlHandlePtrs.lookup name with
  | none => w'
  | some old => w'.release old

/-- `pluginToDlHandlePtrs.erase(name)` -/
def eraseHandle (w : World) (name : String) : World :=
  match w.impl.pluginToDlHandlePtrs.lookup name with
  | none => w
  | some old =>
    { w with impl := { w.impl with
      pluginToDlHandlePtrs := w.impl.pluginToDlHandlePtrs.erase name } }.release old

/-- The end of the scope of a local `shared_ptr`. -/
def dropLocal (w : World) (hp : DlHandlePtr) : World :=
  { w with locals := w.locals.erase hp }.release hp

/-- The end of the lifetime of a `PluginWithDlHandle`. -/
def destroyInstance (w : World) (block : Nat) : World :=
  match w.instances.lookup block with
  | none => w
  | some i =>
    let w := { w with instances := w.instances.erase block }
    match i.dlHandlePtr with
    | none => w
    | some hp => w.release hp

/-! ### Loading -/

/-- What the system answers to one call of `dlopen`. -/
structure DlopenResult where
  handle : Option Handle
  /-- Whether `dlerror` reports something afterwards. -/
  error : Bool

/-- `Loader::Implementation::LoadLib`. The result is held by a local variable of the caller. -/
def openLib (env : Env) (w : World) (path : String) (noDelete : Bool) (res : DlopenResult) :
    Option DlHandlePtr × World :=
  match res.handle, env.resolve path with
  | some h, some lib =>
    let image := (w.dl.opened lib h w.next noDelete).image
    let hp : DlHandlePtr := ⟨w.next + 1, h, image⟩
    let w := { w with dl := w.dl.dlopen lib h w.next noDelete, next := w.next + 2 }
    if res.error then (none, w)
    else
      match (w.impl.dlHandlePtrMap.lookup h).filter fun old => w.Held old with
      | some old => (some old, { w with dl := w.dl.dlclose h, locals := old :: w.locals })
      | none => (some hp, { w with
          impl := { w.impl with dlHandlePtrMap := w.impl.dlHandlePtrMap.insert h hp }
          locals := hp :: w.locals })
  | _, _ => (none, w)

/-- `filePlugins.AddInfo(info)`, with the object that `make_shared` creates. -/
def addInfo (w : World) (info : Info CodePtr) : World :=
  { w with
    impl := { w.impl with filePlugins := (w.impl.filePlugins.addInfo ⟨w.next, info⟩).1 }
    next := w.next + 1 }

/-- What `Loader::LoadLib` makes of an `Info` before it stores it. -/
def finishInfo (env : Env) (plugin : Info CodePtr) : Info CodePtr :=
  { plugin with
    name := env.demangle plugin.name
    demangledInterfaces := plugin.demangledInterfaces ∪ plugin.demangledKeys env.demangle }

/-- The body of the loop of `Loader::LoadLib`. -/
def addPlugin (env : Env) (dlHandle : DlHandlePtr) (st : World × Finset String)
    (plugin : Info CodePtr) : World × Finset String :=
  let plugin := finishInfo env plugin
  ((st.1.addInfo plugin).setHandle plugin.name dlHandle, insert plugin.name st.2)

/-- The vector `loadedPlugins`, with its functions in the image behind the handle. -/
def relocate (dlHandle : DlHandlePtr) (loadedPlugins : List (Info Symbol)) :
    List (Info CodePtr) :=
  loadedPlugins.map fun info => info.mapCode (CodePtr.mk dlHandle.image)

/-- `Loader::LoadLib`; `loadedPlugins` is the order in which `LoadPlugins` copies the map. -/
def loadLib (env : Env) (w : World) (path : String) (noDelete : Bool) (res : DlopenResult)
    (loadedPlugins : List (Info Symbol)) : Finset String × World :=
  match w.openLib env path noDelete res with
  | (none, w) => (∅, w)
  | (some dlHandle, w) =>
    let (w, newPlugins) := (relocate dlHandle loadedPlugins).foldl (addPlugin env dlHandle) (w, ∅)
    let w := { w with impl := { w.impl with
      dlHandleToPluginMap := w.impl.dlHandleToPluginMap.insert dlHandle.handle newPlugins } }
    (newPlugins, w.dropLocal dlHandle)

/-! ### Forgetting -/

/-- `filePlugins.ForgetInfo(name)`. It goes on also where the `Info` is destroyed in code that is
not mapped; `World.Walks` excludes that. -/
def forgetInfo (w : World) (name : String) : World :=
  match w.impl.filePlugins.forgetInfo name with
  | none => { w with thrown := true }
  | some r => { w with impl := { w.impl with filePlugins := r } }

/-- The body of the loop of `Loader::Implementation::ForgetLibrary`. -/
def forgetPlugin (w : World) (forget : String) : World :=
  if w.thrown then w
  else
    let w := w.forgetInfo forget
    if w.thrown then w else w.eraseHandle forget

/-- `Loader::Implementation::ForgetLibrary`; `order` is the order in which the
`unordered_set` is walked. -/
def forgetHandle (w : World) (dlHandle : Handle) (order : List String) : Bool × World :=
  match w.impl.dlHandleToPluginMap.lookup dlHandle with
  | none => (false, w)
  | some _ =>
    let w := order.foldl forgetPlugin w
    if w.thrown then (false, w)
    else (true, { w with impl := { w.impl with
      dlHandleToPluginMap := w.impl.dlHandleToPluginMap.erase dlHandle } })

/-- `Loader::ForgetLibrary`; `res` is what `dlopen` with `RTLD_NOLOAD` returns. -/
def forgetLibrary (env : Env) (w : World) (path : String) (res : Option Handle)
    (order : List String) : Bool × World :=
  match res, env.resolve path with
  | some h, some lib =>
    let w := { w with dl := (w.dl.dlopen lib h w.next false).dlclose h }
    w.forgetHandle h order
  | _, _ => (false, w)

/-! ### Queries -/

def interfacesImplemented (env : Env) (w : World) : Finset String :=
  w.impl.filePlugins.view.interfacesImplemented ∪ env.statics.view.interfacesImplemented

def pluginsImplementing (env : Env) (w : World) (interface : String) (demangled : Bool) :
    Finset String :=
  w.impl.filePlugins.view.pluginsImplementing interface demangled ∪
    env.statics.view.pluginsImplementing interface demangled

def allPlugins (env : Env) (w : World) : Finset String :=
  w.impl.filePlugins.view.allPlugins ∪ env.statics.view.allPlugins

def pluginsWithAlias (env : Env) (w : World) (a : String) : Finset String :=
  w.impl.filePlugins.view.pluginsWithAlias a ∪ env.statics.view.pluginsWithAlias a

def aliasesOfPlugin (env : Env) (w : World) (pluginName : String) : Finset String :=
  w.impl.filePlugins.view.aliasesOfPlugin pluginName ∪
    env.statics.view.aliasesOfPlugin pluginName

def lookupPlugin (env : Env) (w : World) (nameOrAlias : String) : String :=
  let nameInFilePlugins := w.impl.filePlugins.view.lookupPlugin nameOrAlias
  if nameInFilePlugins ≠ "" then nameInFilePlugins
  else
    let nameInStaticPlugins := env.statics.view.lookupPlugin nameOrAlias
    if nameInStaticPlugins ≠ "" then nameInStaticPlugins else ""

/-- `Loader::ForgetLibraryOfPlugin` -/
def forgetLibraryOfPlugin (env : Env) (w : World) (pluginNameOrAlias : String)
    (order : List String) : Bool × World :=
  match w.impl.pluginToDlHandlePtrs.lookup (w.lookupPlugin env pluginNameOrAlias) with
  | none => (false, w)
  | some hp => w.forgetHandle hp.handle order

/-! ### Instantiating -/

/-- `PrivateLookupFilePlugin` -/
def lookupFilePlugin (w : World) (nameOrAlias : String) : String :=
  w.impl.filePlugins.view.lookupPlugin nameOrAlias

/-- `PrivateLookupStaticPlugin` -/
def lookupStaticPlugin (env : Env) (nameOrAlias : String) : String :=
  env.statics.view.lookupPlugin nameOrAlias

/-- `PrivateGetInfoForFilePlugin` -/
def getInfoForFilePlugin (w : World) (resolvedName : String) : Option (ConstInfoPtr CodePtr) :=
  w.impl.filePlugins.getInfo resolvedName

/-- `PrivateGetInfoForStaticPlugin`: a fresh copy of the `Info`. -/
def getInfoForStaticPlugin (env : Env) (addr : Nat) (resolvedName : String) :
    Option (ConstInfoPtr CodePtr) :=
  (env.statics.view.getInfo resolvedName).map (ConstInfoPtr.mk addr)

/-- `PrivateGetPluginDlHandlePtr` -/
def getPluginDlHandlePtr (w : World) (resolvedName : String) : Option DlHandlePtr :=
  w.impl.pluginToDlHandlePtrs.lookup resolvedName

/-- Construct a wrapper with `Create`; the object it makes joins the living instances. Where the
code of the `Info` is not mapped the program crashes instead (`World.InstantiatesMapped`). -/
def create (env : Env) (w : World) (info : Option (ConstInfoPtr CodePtr))
    (dlHandlePtr : Option DlHandlePtr) (allowNull : Bool) (instance_ : Ptr) : Plugin × World :=
  let (plugin, made) :=
    Plugin.empty.create env.cast info dlHandlePtr allowNull w.next instance_
  match made with
  | none => (plugin, { w with next := w.next + 1 })
  | some i => (plugin, { w with instances := w.instances.insert w.next i, next := w.next + 1 })

/-- `Loader::Instantiate`, apart from the hand-over to `EnablePluginFromThis`; `instance_` is
what the factory returns. -/
def instantiate (env : Env) (w : World) (pluginNameOrAlias : String) (instance_ : Ptr) :
    Plugin × World :=
  let resolvedNameForFilePlugin := w.lookupFilePlugin pluginNameOrAlias
  let resolvedNameForStaticPlugin := lookupStaticPlugin env pluginNameOrAlias
  if resolvedNameForFilePlugin ≠ "" then
    w.create env (w.getInfoForFilePlugin resolvedNameForFilePlugin)
      (w.getPluginDlHandlePtr resolvedNameForFilePlugin) false instance_
  else if resolvedNameForStaticPlugin ≠ "" then
    { w with next := w.next + 1 }.create env
      (getInfoForStaticPlugin env w.next resolvedNameForStaticPlugin) none true instance_
  else (Plugin.empty, w)

/-! ### Destruction -/

/-- The members of the implementation that are destroyed before the handles. -/
def clearTables (w : World) : World :=
  { w with
    alive := false
    impl := { w.impl with
      dlHandleToPluginMap := ∅, dlHandlePtrMap := ∅, filePlugins := .empty } }

/-- `~Loader`; `order` is the order in which the handle map is destroyed. -/
def destroyLoader (w : World) (order : List String) : World :=
  order.foldl eraseHandle w.clearTables

/-! ### Runs -/

/-- The public operations of the Loader, the end of an instance, and what others do to the
linker. The further arguments are the choices of the system and of the hash containers. -/
inductive Op where
  | loadLib (path : String) (noDelete : Bool) (res : DlopenResult)
      (loadedPlugins : List (Info Symbol))
  | forgetLibrary (path : String) (res : Option Handle) (order : List String)
  | forgetLibraryOfPlugin (pluginNameOrAlias : String) (order : List String)
  | instantiate (pluginNameOrAlias : String) (instance_ : Ptr)
  | destroyInstance (block : Nat)
  | destroyLoader (order : List String)
  | otherOpen (lib : LibId) (h : Handle)
  | otherClose (h : Handle)

/-- `dlopen` answers with a handle only for a library file, and then with a possible one. -/
def DlopenMayReturn (env : Env) (w : World) (path : String) (res : DlopenResult) : Prop :=
  ∀ h ∈ res.handle, ∃ lib ∈ env.resolve path, w.dl.MayReturn lib h

/-- The vector lists the map of the library whose handle was returned. -/
def LoadedInOrder (env : Env) (path : String) (loadedPlugins : List (Info Symbol)) : Prop :=
  ∀ lib ∈ env.resolve path, Enumerates loadedPlugins (env.allInfo lib)

/-- `order` walks the names recorded for a handle. -/
def WalkedInOrder (w : World) (h : Handle) (order : List String) : Prop :=
  ∀ names ∈ w.impl.dlHandleToPluginMap.lookup h, (order : Multiset String) = names.val

def NoLoadMayReturn (env : Env) (w : World) (path : String) (res : Option Handle) : Prop :=
  match env.resolve path with
  | none => res = none
  | some lib => w.dl.NoLoadReturns lib res

/-- Whether the operation, with these choices, can take place. -/
def Enabled (env : Env) (w : World) : Op → Prop
  | .loadLib path _ res loadedPlugins =>
    w.alive ∧ w.DlopenMayReturn env path res ∧ LoadedInOrder env path loadedPlugins
  | .forgetLibrary path res order =>
    w.alive ∧ w.NoLoadMayReturn env path res ∧ ∀ h ∈ res, w.WalkedInOrder h order
  | .forgetLibraryOfPlugin s order =>
    w.alive ∧ ∀ hp ∈ w.impl.pluginToDlHandlePtrs.lookup (w.lookupPlugin env s),
      w.WalkedInOrder hp.handle order
  | .instantiate _ instance_ => w.alive ∧ instance_ ≠ 0
  | .destroyInstance block => block ∈ w.instances
  | .destroyLoader order =>
    w.alive ∧ (order : Multiset String) = w.impl.pluginToDlHandlePtrs.keys.val
  | .otherOpen lib h => w.dl.MayReturn lib h
  | .otherClose h => ∃ m ∈ w.dl.lookup h, 0 < m.otherRefs

/-- The state after an operation. -/
def after (env : Env) (w : World) : Op → World
  | .loadLib path noDelete res loadedPlugins =>
    (w.loadLib env path noDelete res loadedPlugins).2
  | .forgetLibrary path res order => (w.forgetLibrary env path res order).2
  | .forgetLibraryOfPlugin s order => (w.forgetLibraryOfPlugin env s order).2
  | .instantiate s instance_ => (w.instantiate env s instance_).2
  | .destroyInstance block => w.destroyInstance block
  | .destroyLoader order => w.destroyLoader order
  | .otherOpen lib h => { w with dl := w.dl.otherOpen lib h w.next, next := w.next + 1 }
  | .otherClose h => { w with dl := w.dl.otherClose h }

instance (w : World) (h : Handle) (order : List String) : Decidable (w.WalkedInOrder h order) := by
  unfold WalkedInOrder; infer_instance

instance (env : Env) (w : World) (path : String) (res : Option Handle) :
    Decidable (w.NoLoadMayReturn env path res) := by
  unfold NoLoadMayReturn; split <;> infer_instance

instance (env : Env) (w : World) (op : Op) : Decidable (w.Enabled env op) := by
  cases op <;> unfold Enabled
  case loadLib => unfold DlopenMayReturn LoadedInOrder Enumerates; infer_instance
  all_goals infer_instance

/-- A call into code that is not mapped is not noticed: the run goes on where the program would
crash. What holds in all states of a run holds of the program up to such a call; statements about
the outcome of a call ask for its code to be mapped. -/
def step (env : Env) (w : World) (op : Op) : Option World :=
  if w.Enabled env op then some (w.after env op) else none

theorem step_eq_some {env : Env} {w w' : World} {op : Op} :
    step env w op = some w' ↔ w.Enabled env op ∧ w.after env op = w' := by
  unfold step
  split <;> simp [*]

end World

/-! ### Small installations -/

/-- A plugin class with standard functions. -/
def plainClass (typeName : String) (h : typeName ≠ "") : PluginClass Symbol :=
  ⟨typeName, h, 0, 1, fun _ => 2, false⟩

/-- The two registrations of a plugin with interfaces and aliases. -/
def registrationsOf (typeName : String) (h : typeName ≠ "") (interfaces aliases : List String) :
    List (Registration Symbol) :=
  [.register (plainClass typeName h) interfaces, .registerAlias (plainClass typeName h) aliases]

/-- What the hook of the library makes of them. -/
def pluginOf (typeName : String) (h : typeName ≠ "") (interfaces aliases : List String) :
    Info Symbol :=
  mergeInfo (registerInfo (plainClass typeName h) interfaces)
    (registerAliasInfo (plainClass typeName h) aliases)

theorem p_ne : "p" ≠ "" := by decide

theorem q_ne : "q" ≠ "" := by decide

/-- Two libraries, found at the paths "a" and "b", and the static registrations. -/
def twoLibraries (a b statics : List (Registration Symbol)) : Env where
  demangle := id
  demangle_ne _ h := h
  resolve path := if path = "a" then some 0 else if path = "b" then some 1 else none
  library lib :=
    match lib with
    | 0 => Library.ofRegistrations ⟨infoApiVersion, 8, 8⟩ a
    | 1 => Library.ofRegistrations ⟨infoApiVersion, 8, 8⟩ b
    | _ => Library.ofRegistrations ⟨infoApiVersion, 8, 8⟩ []
  abi := ⟨infoApiVersion, 8, 8⟩
  staticRegistrations := statics
  cast _ p := p

/-- Two libraries that export a plugin of the same name under different aliases. -/
def sharedName : Env :=
  twoLibraries (registrationsOf "p" p_ne ["I"] ["x"])
    (registrationsOf "p" p_ne ["I"] ["y"]) []

/-- Load and forget one of them, then load the other one. -/
def oneByOne : List World.Op :=
  [.loadLib "a" false ⟨some 1, false⟩ [pluginOf "p" p_ne ["I"] ["x"]],
    .forgetLibrary "a" (some 1) ["p"],
    .loadLib "b" false ⟨some 1, false⟩ [pluginOf "p" p_ne ["I"] ["y"]]]

/-- Load both of them. -/
def loadBoth : List World.Op :=
  [.loadLib "a" false ⟨some 1, false⟩ [pluginOf "p" p_ne ["I"] ["x"]],
    .loadLib "b" false ⟨some 2, false⟩ [pluginOf "p" p_ne ["I"] ["y"]]]

/-- Load both of them and forget the second one. The code of the first one stays mapped, because
somebody else has it open too. -/
def forgetSecond : List World.Op :=
  .otherOpen 0 1 :: loadBoth ++ [.forgetLibrary "b" (some 2) ["p"]]

end GzPlugin
