import Mathlib.Data.Finset.Basic
import GzPlugin.FiniteMaps

/-!
# Plugin information and the registration macros

`Info` and the helpers of Common.hh that fill one in. A `std::function` is modelled by
the code it points to, of an arbitrary type `Code`. `MakeInfo` always supplies a factory
and a deleter, so the empty `std::function` is not represented.
-/

namespace GzPlugin

open FiniteMaps

set_option autoImplicit false

abbrev StringMap (β : Type) := Finmap fun _ : String => β

/-- The value of a `void *`; zero is the null pointer. -/
abbrev Ptr := Nat

/-- The sentinel that tells whether two sides were built with the same `Info` struct. -/
def infoApiVersion : Int := 1

/-- What the two sides of the handshake compare: version, `sizeof(Info)`, `alignof(Info)`. -/
structure Abi where
  version : Int
  size : Nat
  alignment : Nat
  deriving DecidableEq

structure Info (Code : Type) where
  name : String
  aliases : Finset String
  interfaces : StringMap Code
  demangledInterfaces : Finset String
  factory : Code
  deleter : Code
  deriving DecidableEq

abbrev InfoMap (Code : Type) := StringMap (Info Code)

variable {Code : Type}

/-- A plugin class, as far as the registration templates look at it. -/
structure PluginClass (Code : Type) where
  /-- `typeid(PluginClass).name()` -/
  typeName : String
  typeName_ne : typeName ≠ ""
  factory : Code
  deleter : Code
  /-- The cast to the base class with the given type name. -/
  castTo : String → Code
  /-- Whether it inherits `EnablePluginFromThis`. -/
  enablesPluginFromThis : Bool

/-- `typeid(EnablePluginFromThis).name()` -/
def enablePluginFromThisName : String := "N2gz6plugin20EnablePluginFromThisE"

/-- `InterfaceHelper<PluginClass, Interfaces...>::InsertInterfaces` -/
def insertInterfaces (cls : PluginClass Code) : List String → StringMap Code → StringMap Code
  | [], interfaces => interfaces
  | interface :: remaining, interfaces =>
    insertInterfaces cls remaining (insertNew interface (cls.castTo interface) interfaces)

def insertAlias (aliases : Finset String) : List String → Finset String
  | [] => aliases
  | nextAlias :: remaining => insertAlias (insert nextAlias aliases) remaining

/-- `MakeInfo<PluginClass, Interfaces...>` -/
def makeInfo (cls : PluginClass Code) (interfaces : List String) : Info Code where
  name := cls.typeName
  aliases := ∅
  interfaces := insertInterfaces cls interfaces ∅
  demangledInterfaces := ∅
  factory := cls.factory
  deleter := cls.deleter

/-- `IfEnablePluginFromThis<PluginClass>::AddIt` -/
def addEnablePluginFromThis (cls : PluginClass Code) (interfaces : StringMap Code) :
    StringMap Code :=
  if cls.enablesPluginFromThis then
    insertNew enablePluginFromThisName (cls.castTo enablePluginFromThisName) interfaces
  else interfaces

/-- The `Info` that `Registrar::Register` hands over. -/
def registerInfo (cls : PluginClass Code) (interfaces : List String) : Info Code :=
  let info := makeInfo cls interfaces
  { info with interfaces := addEnablePluginFromThis cls info.interfaces }

/-- The `Info` that `Registrar::RegisterAlias` hands over. -/
def registerAliasInfo (cls : PluginClass Code) (aliases : List String) : Info Code :=
  let info := makeInfo cls []
  { info with aliases := insertAlias info.aliases aliases }

/-- What the registration macros guarantee of the `Info` they hand over: a type name, and
no demangled interfaces, which are filled in on the loading side. -/
structure Info.Registered (info : Info Code) : Prop where
  name_ne : info.name ≠ ""
  demangled : info.demangledInterfaces = ∅

/-- A use of a registration macro. -/
inductive Registration (Code : Type) where
  | register (cls : PluginClass Code) (interfaces : List String)
  | registerAlias (cls : PluginClass Code) (aliases : List String)

/-- The `Info` handed over by the `Registrar`. -/
def Registration.info : Registration Code → Info Code
  | .register cls interfaces => registerInfo cls interfaces
  | .registerAlias cls aliases => registerAliasInfo cls aliases

theorem Registration.registered (r : Registration Code) : r.info.Registered := by
  cases r with
  | register cls interfaces => exact ⟨cls.typeName_ne, rfl⟩
  | registerAlias cls aliases => exact ⟨cls.typeName_ne, rfl⟩

/-- The same information with its functions at another place. -/
def Info.mapCode {Code' : Type} (f : Code → Code') (info : Info Code) : Info Code' where
  name := info.name
  aliases := info.aliases
  interfaces := mapValues f info.interfaces
  demangledInterfaces := info.demangledInterfaces
  factory := f info.factory
  deleter := f info.deleter

end GzPlugin
