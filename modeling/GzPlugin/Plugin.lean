import GzPlugin.Linker
import GzPlugin.Registry

/-!
# The plugin wrapper

The data of `Plugin::Implementation` and its member functions as functions on that data.
When the objects that the wrapper lets go of are destroyed, and in which order, is the
subject of Process.lean.
-/

namespace GzPlugin

open FiniteMaps

set_option autoImplicit false

/-- A `std::shared_ptr<void>` to a plugin instance: the control block, which belongs to a
`PluginWithDlHandle`, and the stored pointer. -/
structure InstancePtr where
  block : Nat
  get : Ptr
  deriving DecidableEq

structure PluginWithDlHandle where
  dlHandlePtr : Option DlHandlePtr
  loadedInstance : Ptr
  deleter : CodePtr
  deriving DecidableEq

/-- The data of `Plugin::Implementation`. -/
structure Plugin where
  interfaces : StringMap Ptr
  loadedInstancePtr : Option InstancePtr
  info : Option (ConstInfoPtr CodePtr)
  deriving DecidableEq

namespace Plugin

/-- A default constructed `Plugin`. -/
def empty : Plugin := ⟨∅, none, none⟩

/-- `PrivateGetOrCreateIterator`, as far as the map is concerned. -/
def getOrCreateIterator (p : Plugin) (interfaceName : String) : Plugin :=
  { p with interfaces := insertNew interfaceName 0 p.interfaces }

/-- A default constructed `SpecializedPlugin`; every listed interface gets an entry. -/
def specialized (specInterfaces : List String) : Plugin :=
  specInterfaces.foldl getOrCreateIterator empty

/-- The loop at the end of `Clear`. -/
def nullEntries (interfaces : StringMap Ptr) : StringMap Ptr := mapValues (fun _ => 0) interfaces

/-- `Plugin::Implementation::Clear` -/
def clear (p : Plugin) : Plugin := ⟨nullEntries p.interfaces, none, none⟩

/-- The boolean value of a `shared_ptr`: whether its stored pointer is not null. -/
def isSet : Option InstancePtr → Bool
  | none => false
  | some ptr => ptr.get ≠ 0

/-- The entries that the cast functions of an `Info` give for an instance. -/
def castAll (cast : CodePtr → Ptr → Ptr) (info : Info CodePtr) (instance_ : Ptr) :
    StringMap Ptr :=
  mapValues (fun f => cast f instance_) info.interfaces

/-- `Plugin::Implementation::Create`; `block` and `instance_` are what `make_shared` and the
factory return, and the second result is the object made. -/
def create (cast : CodePtr → Ptr → Ptr) (p : Plugin) (info : Option (ConstInfoPtr CodePtr))
    (dlHandlePtr : Option DlHandlePtr) (allowNullDlHandlePtr : Bool) (block : Nat)
    (instance_ : Ptr) : Plugin × Option PluginWithDlHandle :=
  let p := p.clear
  match info with
  | none => (p, none)
  | some info =>
    let p := { p with info := some info }
    if dlHandlePtr.isNone && !allowNullDlHandlePtr then (p, none)
    else
      ({ p with
          loadedInstancePtr := some ⟨block, instance_⟩
          interfaces := castAll cast info.info instance_ ∪ p.interfaces },
        some ⟨dlHandlePtr, instance_, info.info.deleter⟩)

/-- `Copy(_other)` after its call of `Clear`; `other` is the state of the source by then. -/
def copy (p other : Plugin) : Plugin where
  loadedInstancePtr := other.loadedInstancePtr
  info := other.info
  interfaces :=
    if isSet other.loadedInstancePtr then other.interfaces ∪ p.interfaces else p.interfaces

/-- `Copy(_info, _instance)` -/
def copyFrom (cast : CodePtr → Ptr → Ptr) (p : Plugin) (info : Option (ConstInfoPtr CodePtr))
    (instance_ : Option InstancePtr) : Plugin where
  loadedInstancePtr := instance_
  info := info
  interfaces :=
    match instance_, info with
    | some ptr, some info =>
      if ptr.get ≠ 0 then castAll cast info.info ptr.get ∪ p.interfaces else p.interfaces
    | _, _ => p.interfaces

/-- Whether `Copy(_info, _instance)` takes the branch that "should never happen". -/
def copyFromFails (info : Option (ConstInfoPtr CodePtr)) (instance_ : Option InstancePtr) :
    Bool :=
  isSet instance_ && info.isNone

/-- `TemplatePluginPtr::IsEmpty` -/
def isEmpty (p : Plugin) : Bool := !isSet p.loadedInstancePtr

def name (p : Plugin) : Option String := p.info.map (·.info.name)

/-- `QueryInterface` of the type with the given name. -/
def queryInterface (p : Plugin) (interfaceName : String) : Ptr :=
  (p.interfaces.lookup interfaceName).getD 0

@[simp] theorem specialized_loadedInstancePtr (specInterfaces : List String) :
    (specialized specInterfaces).loadedInstancePtr = none := by
  have hgo : ∀ (l : List String) (p : Plugin),
      (l.foldl getOrCreateIterator p).loadedInstancePtr = p.loadedInstancePtr := by
    intro l
    induction l with
    | nil => exact fun _ => rfl
    | cons i l ih => exact fun p => ih _
  exact hgo specInterfaces empty

@[simp] theorem specialized_info (specInterfaces : List String) :
    (specialized specInterfaces).info = none := by
  have hgo : ∀ (l : List String) (p : Plugin),
      (l.foldl getOrCreateIterator p).info = p.info := by
    intro l
    induction l with
    | nil => exact fun _ => rfl
    | cons i l ih => exact fun p => ih _
  exact hgo specInterfaces empty

end Plugin

end GzPlugin
