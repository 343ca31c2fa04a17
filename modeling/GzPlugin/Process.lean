import GzPlugin.Handles

/-!
# The process

A Loader together with everything that refers to its plugins: `PluginPtr` variables,
interface pointers and weak pointers. The functions let go of references one by one, in
the order of the source, and log what is destroyed at that moment.
-/

namespace GzPlugin

open FiniteMaps

set_option autoImplicit false

abbrev Var := Nat

/-- The data of `WeakPluginPtr::Implementation`. -/
structure WeakPluginPtr where
  instance_ : Option InstancePtr
  info : Option (ConstInfoPtr CodePtr)
  deriving DecidableEq

/-- What a `WeakPluginPtr` that is assigned the wrapper refers to. -/
def Plugin.weak (p : Plugin) : WeakPluginPtr := ⟨p.loadedInstancePtr, p.info⟩

/-- What is observed of a run. The flag of a destruction tells whether a `shared_ptr` to the
dl handle of the code involved was held at that moment. -/
inductive Event where
  | deleterRun (block : Nat) (held : Bool)
  | infoDestroyed (code : Image) (held : Bool)
  /-- `Copy(_info, _instance)` took the branch that should never be taken. -/
  | infoNull
  deriving DecidableEq

/-- Some `shared_ptr` to a handle of the image is held; the executable needs none. -/
def World.ImageHeld (w : World) (image : Image) : Prop :=
  image = .executable ∨ Has (fun _ hp => hp.image = image) w.impl.pluginToDlHandlePtrs ∨
    Has (fun _ i => ∃ hp ∈ i.dlHandlePtr, hp.image = image) w.instances ∨
    ∃ hp ∈ w.locals, hp.image = image

instance (w : World) (image : Image) : Decidable (w.ImageHeld image) := by
  unfold World.ImageHeld; infer_instance

structure Process where
  world : World
  plugins : Finmap fun _ : Var => Plugin
  /-- References to an instance alone: interface pointers, and the factory references of
  products, also after these were handed over to the lost products. -/
  shared : Finmap fun _ : Nat => InstancePtr
  weaks : Finmap fun _ : Nat => WeakPluginPtr
  /-- The weak pointer inside an instance that inherits `EnablePluginFromThis`. -/
  fromThis : Finmap fun _ : Nat => WeakPluginPtr
  log : List Event

namespace Process

def init : Process := ⟨.init, ∅, ∅, ∅, ∅, []⟩

def RefersTo (block : Nat) (p : Plugin) : Prop := ∃ ptr ∈ p.loadedInstancePtr, ptr.block = block

instance (block : Nat) (p : Plugin) : Decidable (RefersTo block p) := by
  unfold RefersTo; infer_instance

def RefersToInfo (addr : Nat) (p : Plugin) : Prop := ∃ ptr ∈ p.info, ptr.addr = addr

instance (addr : Nat) (p : Plugin) : Decidable (RefersToInfo addr p) := by
  unfold RefersToInfo; infer_instance

def InstanceHeld (p : Process) (block : Nat) : Prop :=
  Has (fun _ pl => RefersTo block pl) p.plugins ∨ Has (fun _ ptr => ptr.block = block) p.shared

instance (p : Process) (block : Nat) : Decidable (p.InstanceHeld block) := by
  unfold InstanceHeld; infer_instance

def InfoHeld (p : Process) (addr : Nat) : Prop :=
  Has (fun _ pl => RefersToInfo addr pl) p.plugins ∨
    Has (fun _ ptr => ptr.addr = addr) p.world.impl.filePlugins.plugins

instance (p : Process) (addr : Nat) : Decidable (p.InfoHeld addr) := by
  unfold InfoHeld; infer_instance

/-! ### Destruction -/

/-- The destructor of an `Info`. -/
def destroyInfo (p : Process) (info : Info CodePtr) : Process :=
  { p with log := p.log ++
      [.infoDestroyed info.deleter.image (decide (p.world.ImageHeld info.deleter.image))] }

/-- A `shared_ptr` to an `Info` has just gone away. -/
def releaseInfo (p : Process) (info : Option (ConstInfoPtr CodePtr)) : Process :=
  match info with
  | none => p
  | some ptr => if p.InfoHeld ptr.addr then p else p.destroyInfo ptr.info

/-- The destructor of `PluginWithDlHandle`: the deleter runs while the handle is held. -/
def destroyInstance (p : Process) (block : Nat) : Process :=
  match p.world.instances.lookup block with
  | none => p
  | some i => { p with
      world := p.world.destroyInstance block
      fromThis := p.fromThis.erase block
      log := p.log ++ [.deleterRun block (decide (p.world.ImageHeld i.deleter.image))] }

/-- A `shared_ptr` to an instance has just gone away. -/
def releaseInstance (p : Process) (instance_ : Option InstancePtr) : Process :=
  match instance_ with
  | none => p
  | some ptr => if p.InstanceHeld ptr.block then p else p.destroyInstance ptr.block

/-! ### The wrapper -/

def setPlugin (p : Process) (v : Var) (pl : Plugin) : Process :=
  { p with plugins := p.plugins.insert v pl }

def erasePlugin (p : Process) (v : Var) : Process := { p with plugins := p.plugins.erase v }

/-- `Plugin::Implementation::Clear` on a variable: the instance is reset before the `Info`. -/
def clear (p : Process) (v : Var) : Process :=
  match p.plugins.lookup v with
  | none => p
  | some pl =>
    let noInstance : Plugin := { pl with loadedInstancePtr := none }
    let p := (p.setPlugin v noInstance).releaseInstance pl.loadedInstancePtr
    let p := (p.setPlugin v { noInstance with info := none }).releaseInfo pl.info
    p.setPlugin v pl.clear

/-- `Copy(_other)`: the target is cleared before the source is read. -/
def assign (p : Process) (v u : Var) : Process :=
  let p := p.clear v
  match p.plugins.lookup v, p.plugins.lookup u with
  | some pl, some other => p.setPlugin v (pl.copy other)
  | _, _ => p

/-- `~Plugin`: the members of the implementation go in reverse order. -/
def destroy (p : Process) (v : Var) : Process :=
  match p.plugins.lookup v with
  | none => p
  | some pl =>
    let p := (p.setPlugin v { pl with info := none }).releaseInfo pl.info
    (p.erasePlugin v).releaseInstance pl.loadedInstancePtr

/-- Casting or copy construction; `specInterfaces` is empty for a plain `PluginPtr`. -/
def copyConstruct (p : Process) (v : Var) (specInterfaces : List String) (u : Var) : Process :=
  match p.plugins.lookup u with
  | none => p
  | some other => p.setPlugin v ((Plugin.specialized specInterfaces).clear.copy other)

/-- `PrivateSetPluginFromThis`, if the instance has that interface. -/
def setFromThis (p : Process) (pl : Plugin) : Process :=
  match pl.loadedInstancePtr with
  | none => p
  | some ptr =>
    if pl.queryInterface enablePluginFromThisName ≠ 0 then
      { p with fromThis := p.fromThis.insert ptr.block pl.weak }
    else p

/-- `Loader::Instantiate`; a specialized result is cast from the plain one. -/
def instantiate (env : Env) (p : Process) (v : Var) (specInterfaces : List String)
    (pluginNameOrAlias : String) (instance_ : Ptr) : Process :=
  let (pl, world) := p.world.instantiate env pluginNameOrAlias instance_
  let p := { p with world := world }.setFromThis pl
  p.setPlugin v
    (if specInterfaces = [] then pl else (Plugin.specialized specInterfaces).clear.copy pl)

/-! ### Interface pointers and weak pointers -/

/-- `QueryInterfaceSharedPtr` -/
def queryInterfaceSharedPtr (p : Process) (i : Nat) (v : Var) (interface : String) : Process :=
  match p.plugins.lookup v with
  | none => p
  | some pl =>
    if pl.queryInterface interface ≠ 0 then
      match pl.loadedInstancePtr with
      | none => p
      | some ptr => { p with
          shared := p.shared.insert i ⟨ptr.block, pl.queryInterface interface⟩ }
    else p

/-- A copy of the pointer that `PrivateGetInstancePtr` returns. -/
def shareInstance (p : Process) (i : Nat) (v : Var) : Process :=
  match (p.plugins.lookup v).bind (·.loadedInstancePtr) with
  | none => p
  | some ptr => { p with shared := p.shared.insert i ptr }

def dropShared (p : Process) (i : Nat) : Process :=
  { p with shared := p.shared.erase i }.releaseInstance (p.shared.lookup i)

/-- `WeakPluginPtr::operator=(const PluginPtr &)` -/
def assignWeak (p : Process) (x : Nat) (v : Var) : Process :=
  match p.plugins.lookup v with
  | none => p
  | some pl => { p with weaks := p.weaks.insert x pl.weak }

/-- The two locks of `WeakPluginPtr::Lock`. -/
def lockInstance (p : Process) (weak : WeakPluginPtr) : Option InstancePtr :=
  weak.instance_.filter fun ptr => ptr.block ∈ p.world.instances

def lockInfo (p : Process) (weak : WeakPluginPtr) : Option (ConstInfoPtr CodePtr) :=
  weak.info.filter fun ptr => p.InfoHeld ptr.addr

/-- The result of `WeakPluginPtr::Lock`, if the casts that it calls are mapped. -/
def lockedPlugin (env : Env) (p : Process) (weak : WeakPluginPtr) : Plugin :=
  Plugin.empty.copyFrom env.cast (p.lockInfo weak) (p.lockInstance weak)

def lockFails (p : Process) (weak : WeakPluginPtr) : Bool :=
  Plugin.copyFromFails (p.lockInfo weak) (p.lockInstance weak)

/-- `WeakPluginPtr::Lock`, with the result in the variable `v`. -/
def lock (env : Env) (p : Process) (v : Var) (weak : WeakPluginPtr) : Process :=
  let p' := p.setPlugin v (p.lockedPlugin env weak)
  if p.lockFails weak then { p' with log := p'.log ++ [.infoNull] } else p'

/-! ### The Loader -/

/-- The body of the loop of `Loader::LoadLib`; an `Info` that is not stored is destroyed. -/
def addPlugin (env : Env) (dlHandle : DlHandlePtr) (st : Process × Finset String)
    (plugin : Info CodePtr) : Process × Finset String :=
  let plugin := World.finishInfo env plugin
  let stored := (st.1.world.impl.filePlugins.addInfo ⟨st.1.world.next, plugin⟩).2
  let p := { st.1 with world := st.1.world.addInfo plugin }
  let p := if stored then p else p.destroyInfo plugin
  ({ p with world := p.world.setHandle plugin.name dlHandle }, insert plugin.name st.2)

/-- `Loader::LoadLib`; at its end the vector `loadedPlugins` goes before the handle. -/
def loadLib (env : Env) (p : Process) (path : String) (noDelete : Bool)
    (res : World.DlopenResult) (loadedPlugins : List (Info Symbol)) : Process :=
  match p.world.openLib env path noDelete res with
  | (none, world) => { p with world := world }
  | (some dlHandle, world) =>
    let loadedPlugins := World.relocate dlHandle loadedPlugins
    let (p, newPlugins) :=
      loadedPlugins.foldl (addPlugin env dlHandle) ({ p with world := world }, ∅)
    let p := { p with world := { p.world with impl := { p.world.impl with
      dlHandleToPluginMap :=
        p.world.impl.dlHandleToPluginMap.insert dlHandle.handle newPlugins } } }
    let p := loadedPlugins.foldl destroyInfo p
    { p with world := p.world.dropLocal dlHandle }

/-- The body of the loop of `Loader::Implementation::ForgetLibrary`. -/
def forgetPlugin (p : Process) (forget : String) : Process :=
  if p.world.thrown then p
  else
    let dropped := p.world.impl.filePlugins.plugins.lookup forget
    let p := { p with world := p.world.forgetInfo forget }
    if p.world.thrown then p
    else
      let p := p.releaseInfo dropped
      { p with world := p.world.eraseHandle forget }

/-- `Loader::Implementation::ForgetLibrary` -/
def forgetHandle (p : Process) (dlHandle : Handle) (order : List String) : Process :=
  match p.world.impl.dlHandleToPluginMap.lookup dlHandle with
  | none => p
  | some _ =>
    let p := order.foldl forgetPlugin p
    if p.world.thrown then p
    else { p with world := { p.world with impl := { p.world.impl with
      dlHandleToPluginMap := p.world.impl.dlHandleToPluginMap.erase dlHandle } } }

/-- `Loader::ForgetLibrary` -/
def forgetLibrary (env : Env) (p : Process) (path : String) (res : Option Handle)
    (order : List String) : Process :=
  match res, env.resolve path with
  | some h, some lib =>
    let dl := (p.world.dl.dlopen lib h p.world.next false).dlclose h
    { p with world := { p.world with dl := dl } }.forgetHandle h order
  | _, _ => p

/-- `Loader::ForgetLibraryOfPlugin` -/
def forgetLibraryOfPlugin (env : Env) (p : Process) (pluginNameOrAlias : String)
    (order : List String) : Process :=
  match p.world.impl.pluginToDlHandlePtrs.lookup (p.world.lookupPlugin env pluginNameOrAlias) with
  | none => p
  | some hp => p.forgetHandle hp.handle order

/-- `~Loader`: the registry goes before the handles. -/
def destroyLoader (p : Process) (order : List String) : Process :=
  let infos := p.world.impl.filePlugins.plugins
  let p := { p with world := p.world.clearTables }
  let p := order.foldl (fun p name => p.releaseInfo (infos.lookup name)) p
  { p with world := order.foldl World.eraseHandle p.world }

/-- An operation on the Loader or the linker. -/
def loader (env : Env) (p : Process) : World.Op → Process
  | .loadLib path noDelete res loadedPlugins => p.loadLib env path noDelete res loadedPlugins
  | .forgetLibrary path res order => p.forgetLibrary env path res order
  | .forgetLibraryOfPlugin s order => p.forgetLibraryOfPlugin env s order
  | .destroyLoader order => p.destroyLoader order
  | op => { p with world := p.world.after env op }

/-! ### Runs -/

/-- The operations of a process. A new variable or pointer is given an unused number. With a
temporary variable `t`, `Loader::Factory` is `instantiate t`, `queryInterfaceSharedPtr i t`
and `destroy t`; a product that a factory constructs takes its reference to the factory by
`pluginFromThis t`, `shareInstance i t` and `destroy t`. -/
inductive Op where
  | loader (op : World.Op)
  | construct (v : Var) (specInterfaces : List String)
  | copyConstruct (v : Var) (specInterfaces : List String) (u : Var)
  | instantiate (v : Var) (specInterfaces : List String) (pluginNameOrAlias : String)
      (instance_ : Ptr)
  | assign (v u : Var)
  | clear (v : Var)
  | destroy (v : Var)
  | queryInterfaceSharedPtr (i : Nat) (v : Var) (interface : String)
  | shareInstance (i : Nat) (v : Var)
  | dropShared (i : Nat)
  | assignWeak (x : Nat) (v : Var)
  | dropWeak (x : Nat)
  | lock (v : Var) (x : Nat)
  | pluginFromThis (v : Var) (block : Nat)

/-- Instances begin and end through the variables only. -/
def OnLoader : World.Op → Prop
  | .instantiate _ _ | .destroyInstance _ => False
  | _ => True

instance (op : World.Op) : Decidable (OnLoader op) := by
  induction op using World.Op.casesOn <;> unfold OnLoader <;> infer_instance

def Enabled (env : Env) (p : Process) : Op → Prop
  | .loader op => OnLoader op ∧ p.world.Enabled env op
  | .construct v _ => v ∉ p.plugins
  | .copyConstruct v _ u => v ∉ p.plugins ∧ u ∈ p.plugins
  | .instantiate v _ s instance_ => v ∉ p.plugins ∧ p.world.Enabled env (.instantiate s instance_)
  | .assign v u => v ∈ p.plugins ∧ u ∈ p.plugins
  | .clear v => v ∈ p.plugins
  | .destroy v => v ∈ p.plugins
  | .queryInterfaceSharedPtr i v _ => i ∉ p.shared ∧ v ∈ p.plugins
  | .shareInstance i v => i ∉ p.shared ∧ v ∈ p.plugins
  | .dropShared i => i ∈ p.shared
  | .assignWeak _ v => v ∈ p.plugins
  | .dropWeak x => x ∈ p.weaks
  | .lock v x => v ∉ p.plugins ∧ x ∈ p.weaks
  | .pluginFromThis v block => v ∉ p.plugins ∧ block ∈ p.fromThis

instance (env : Env) (p : Process) (op : Op) : Decidable (p.Enabled env op) := by
  cases op <;> unfold Enabled <;> infer_instance

def after (env : Env) (p : Process) : Op → Process
  | .loader op => p.loader env op
  | .construct v specInterfaces => p.setPlugin v (Plugin.specialized specInterfaces)
  | .copyConstruct v specInterfaces u => p.copyConstruct v specInterfaces u
  | .instantiate v specInterfaces s instance_ => p.instantiate env v specInterfaces s instance_
  | .assign v u => p.assign v u
  | .clear v => p.clear v
  | .destroy v => p.destroy v
  | .queryInterfaceSharedPtr i v interface => p.queryInterfaceSharedPtr i v interface
  | .shareInstance i v => p.shareInstance i v
  | .dropShared i => p.dropShared i
  | .assignWeak x v => p.assignWeak x v
  | .dropWeak x => { p with weaks := p.weaks.erase x }
  | .lock v x =>
    match p.weaks.lookup x with
    | none => p
    | some weak => p.lock env v weak
  | .pluginFromThis v block =>
    match p.fromThis.lookup block with
    | none => p
    | some weak => p.lock env v weak

/-- As in `World.step`, a call into code that is not mapped is not noticed. -/
def step (env : Env) (p : Process) (op : Op) : Option Process :=
  if p.Enabled env op then some (p.after env op) else none

theorem step_eq_some {env : Env} {p p' : Process} {op : Op} :
    step env p op = some p' ↔ p.Enabled env op ∧ p.after env op = p' := by
  unfold step
  split <;> simp [*]

/-! ### Small runs -/

/-- Load the first library of `sharedName`, and make an instance of its plugin. -/
def oneInstance : List Op :=
  [.loader (.loadLib "a" false ⟨some 1, false⟩ [pluginOf "p" p_ne ["I"] ["x"]]),
    .instantiate 0 [] "p" 7]

/-- Forget the library of that plugin. -/
def forgetIt : Op := .loader (.forgetLibrary "a" (some 1) ["p"])

end Process

end GzPlugin
