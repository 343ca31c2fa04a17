import GzPlugin.Expiry
import GzPlugin.UniquePointers

/-!
# PluginPtr and WeakPluginPtr objects

Both classes keep their data behind a unique pointer, which a move leaves null. The wrappers
behind `dataPtr` are the variables of a process, and the data behind `pimpl` its weak
pointers; this file puts the objects on top of them.
-/

namespace GzPlugin

open FiniteMaps Runs UniquePointers

set_option autoImplicit false

/-- The pointer value of `PrivateGetInstancePtr`. -/
def Plugin.get (p : Plugin) : Ptr := (p.loadedInstancePtr.map (·.get)).getD 0

structure Pointers where
  process : Process
  /-- `dataPtr` of the living `PluginPtr` objects. -/
  ptrs : Owners Nat Var
  /-- `pimpl` of the living `WeakPluginPtr` objects. -/
  weakPtrs : Owners Nat Nat
  /-- Whether a null pointer was dereferenced. -/
  crashed : Bool

namespace Pointers

def init : Pointers := ⟨.init, ∅, ∅, false⟩

/-- `*dataPtr`, which has no meaning for a null or dangling pointer. -/
def deref (s : Pointers) (a : Nat) : Option Var :=
  (s.ptrs.get a).filter fun v => v ∈ s.process.plugins

/-- `*pimpl` -/
def derefWeak (s : Pointers) (x : Nat) : Option Nat :=
  (s.weakPtrs.get x).filter fun y => y ∈ s.process.weaks

def wrapper (s : Pointers) (a : Nat) : Option Plugin :=
  (s.deref a).bind fun v => s.process.plugins.lookup v

def data (s : Pointers) (x : Nat) : Option WeakPluginPtr :=
  (s.derefWeak x).bind fun y => s.process.weaks.lookup y

/-! ### PluginPtr

The objects are `a` and `b`; a new wrapper is given the unused number `v`. -/

/-- The end of a `unique_ptr` to a wrapper. -/
def deleteWrapper (s : Pointers) (wrapper : Option Var) : Pointers :=
  match wrapper with
  | none => s
  | some v => { s with process := s.process.destroy v }

def construct (s : Pointers) (a : Nat) (v : Var) (specInterfaces : List String) : Pointers :=
  { s with
    process := s.process.setPlugin v (Plugin.specialized specInterfaces)
    ptrs := s.ptrs.make a v }

/-- The copy constructor, and the casting one. -/
def copyConstruct (s : Pointers) (a : Nat) (v : Var) (specInterfaces : List String) (b : Nat) :
    Option Pointers := do
  let u ← s.deref b
  return { s with
    process := s.process.copyConstruct v specInterfaces u
    ptrs := s.ptrs.make a v }

def moveConstruct (s : Pointers) (a b : Nat) : Pointers := { s with ptrs := s.ptrs.move a b }

def copyAssign (s : Pointers) (a b : Nat) : Option Pointers := do
  let v ← s.deref a
  let u ← s.deref b
  return { s with process := s.process.assign v u }

def moveAssign (s : Pointers) (a b : Nat) : Pointers :=
  { s with ptrs := s.ptrs.move a b }.deleteWrapper (s.ptrs.replaced a b)

def clear (s : Pointers) (a : Nat) : Option Pointers := do
  let v ← s.deref a
  return { s with process := s.process.clear v }

/-- `operator=(std::nullptr_t)` -/
def assignNull (s : Pointers) (a : Nat) : Option Pointers := s.clear a

def destroy (s : Pointers) (a : Nat) : Pointers :=
  { s with ptrs := s.ptrs.drop a }.deleteWrapper (s.ptrs.get a)

def isEmpty (s : Pointers) (a : Nat) : Option Bool := (s.wrapper a).map Plugin.isEmpty

def toBool (s : Pointers) (a : Nat) : Option Bool := (s.isEmpty a).map fun empty => !empty

/-- The pointer whose hash is taken. -/
def hash (s : Pointers) (a : Nat) : Option Ptr := (s.wrapper a).map Plugin.get

inductive Comparison where
  | eq | lt | gt | ne | le | ge

def Comparison.holds : Comparison → Ptr → Ptr → Bool
  | .eq, x, y => x = y
  | .lt, x, y => x < y
  | .gt, x, y => x > y
  | .ne, x, y => x ≠ y
  | .le, x, y => x ≤ y
  | .ge, x, y => x ≥ y

def compare (s : Pointers) (op : Comparison) (a b : Nat) : Option Bool := do
  let p ← s.wrapper a
  let other ← s.wrapper b
  return op.holds p.get other.get

/-- `Loader::Instantiate`, with the result in a new object. -/
def instantiate (env : Env) (s : Pointers) (a : Nat) (v : Var) (specInterfaces : List String)
    (pluginNameOrAlias : String) (instance_ : Ptr) : Pointers :=
  { s with
    process := s.process.instantiate env v specInterfaces pluginNameOrAlias instance_
    ptrs := s.ptrs.make a v }

/-- `EnablePluginFromThis::PluginFromThis` of the instance with the given control block. -/
def pluginFromThis (env : Env) (s : Pointers) (a : Nat) (v : Var) (block : Nat) : Pointers :=
  { s with process := s.process.after env (.pluginFromThis v block), ptrs := s.ptrs.make a v }

/-! ### WeakPluginPtr

The objects are `x` and `z`; a new `Implementation` is given the unused number `y`. -/

/-- The end of a `unique_ptr` to an `Implementation`. -/
def deleteData (s : Pointers) (data : Option Nat) : Pointers :=
  match data with
  | none => s
  | some y => { s with process := { s.process with weaks := s.process.weaks.erase y } }

def setData (s : Pointers) (y : Nat) (weak : WeakPluginPtr) : Pointers :=
  { s with process := { s.process with weaks := s.process.weaks.insert y weak } }

def weakConstruct (s : Pointers) (x y : Nat) : Pointers :=
  { s with weakPtrs := s.weakPtrs.make x y }.setData y ⟨none, none⟩

def weakCopyConstruct (s : Pointers) (x y z : Nat) : Option Pointers := do
  let weak ← s.data z
  return { s with weakPtrs := s.weakPtrs.make x y }.setData y weak

/-- The `Implementation` that the new object is given first is deleted at once. -/
def weakMoveConstruct (s : Pointers) (x z : Nat) : Pointers :=
  { s with weakPtrs := s.weakPtrs.move x z }

/-- The constructor from a `PluginPtr`. -/
def weakFromPlugin (s : Pointers) (x y a : Nat) : Option Pointers := do
  let p ← s.wrapper a
  return { s with weakPtrs := s.weakPtrs.make x y }.setData y p.weak

def weakCopyAssign (s : Pointers) (x z : Nat) : Option Pointers := do
  let y ← s.derefWeak x
  let weak ← s.data z
  return s.setData y weak

def weakMoveAssign (s : Pointers) (x z : Nat) : Pointers :=
  { s with weakPtrs := s.weakPtrs.move x z }.deleteData (s.weakPtrs.replaced x z)

/-- The assignment of a `PluginPtr`. -/
def weakAssign (s : Pointers) (x a : Nat) : Option Pointers := do
  let y ← s.derefWeak x
  let p ← s.wrapper a
  return s.setData y p.weak

def weakDestroy (s : Pointers) (x : Nat) : Pointers :=
  { s with weakPtrs := s.weakPtrs.drop x }.deleteData (s.weakPtrs.get x)

/-- `Lock`, with the result in a new object. -/
def lock (env : Env) (s : Pointers) (a : Nat) (v : Var) (x : Nat) : Option Pointers := do
  let weak ← s.data x
  return { s with process := s.process.lock env v weak, ptrs := s.ptrs.make a v }

def isExpired (s : Pointers) (x : Nat) : Option Bool := (s.data x).map s.process.isExpired

/-! ### Runs -/

/-- The public operations of both classes; an object that is constructed is a new one. By
`through` the Loader is used, and whatever does not touch the objects themselves: a wrapper
that `operator->` gives access to, and interface pointers. -/
inductive Op where
  | through (op : Process.Op)
  | construct (a : Nat) (v : Var) (specInterfaces : List String)
  | copyConstruct (a : Nat) (v : Var) (specInterfaces : List String) (b : Nat)
  | moveConstruct (a b : Nat)
  | instantiate (a : Nat) (v : Var) (specInterfaces : List String) (pluginNameOrAlias : String)
      (instance_ : Ptr)
  | pluginFromThis (a : Nat) (v : Var) (block : Nat)
  | copyAssign (a b : Nat)
  | moveAssign (a b : Nat)
  | assignNull (a : Nat)
  | clear (a : Nat)
  | destroy (a : Nat)
  | isEmpty (a : Nat)
  | toBool (a : Nat)
  | hash (a : Nat)
  | compare (op : Comparison) (a b : Nat)
  | weakConstruct (x y : Nat)
  | weakCopyConstruct (x y z : Nat)
  | weakMoveConstruct (x z : Nat)
  | weakFromPlugin (x y a : Nat)
  | weakCopyAssign (x z : Nat)
  | weakMoveAssign (x z : Nat)
  | weakAssign (x a : Nat)
  | weakDestroy (x : Nat)
  | lock (a : Nat) (v : Var) (x : Nat)
  | isExpired (x : Nat)

/-- Neither a wrapper nor a weak pointer is made, changed or deleted. -/
def Through : Process.Op → Prop
  | .loader _ | .queryInterfaceSharedPtr _ _ _ | .shareInstance _ _ | .dropShared _ => True
  | _ => False

instance (op : Process.Op) : Decidable (Through op) := by
  induction op using Process.Op.casesOn <;> unfold Through <;> infer_instance

def Enabled (env : Env) (s : Pointers) : Op → Prop
  | .through op => Through op ∧ s.process.Enabled env op
  | .construct a v _ => a ∉ s.ptrs ∧ v ∉ s.process.plugins
  | .copyConstruct a v _ b => a ∉ s.ptrs ∧ v ∉ s.process.plugins ∧ b ∈ s.ptrs
  | .moveConstruct a b => a ∉ s.ptrs ∧ b ∈ s.ptrs
  | .instantiate a v specInterfaces name instance_ =>
    a ∉ s.ptrs ∧ s.process.Enabled env (.instantiate v specInterfaces name instance_)
  | .pluginFromThis a v block => a ∉ s.ptrs ∧ s.process.Enabled env (.pluginFromThis v block)
  | .copyAssign a b => a ∈ s.ptrs ∧ b ∈ s.ptrs
  | .moveAssign a b => a ∈ s.ptrs ∧ b ∈ s.ptrs
  | .assignNull a | .clear a | .destroy a => a ∈ s.ptrs
  | .isEmpty a | .toBool a | .hash a => a ∈ s.ptrs
  | .compare _ a b => a ∈ s.ptrs ∧ b ∈ s.ptrs
  | .weakConstruct x y => x ∉ s.weakPtrs ∧ y ∉ s.process.weaks
  | .weakCopyConstruct x y z => x ∉ s.weakPtrs ∧ y ∉ s.process.weaks ∧ z ∈ s.weakPtrs
  | .weakMoveConstruct x z => x ∉ s.weakPtrs ∧ z ∈ s.weakPtrs
  | .weakFromPlugin x y a => x ∉ s.weakPtrs ∧ y ∉ s.process.weaks ∧ a ∈ s.ptrs
  | .weakCopyAssign x z => x ∈ s.weakPtrs ∧ z ∈ s.weakPtrs
  | .weakMoveAssign x z => x ∈ s.weakPtrs ∧ z ∈ s.weakPtrs
  | .weakAssign x a => x ∈ s.weakPtrs ∧ a ∈ s.ptrs
  | .weakDestroy x => x ∈ s.weakPtrs
  | .lock a v x => a ∉ s.ptrs ∧ v ∉ s.process.plugins ∧ x ∈ s.weakPtrs
  | .isExpired x => x ∈ s.weakPtrs

instance (env : Env) (s : Pointers) (op : Op) : Decidable (s.Enabled env op) := by
  cases op <;> unfold Enabled <;> infer_instance

/-- What a caller gets back; `hash` is the pointer that was hashed. -/
inductive Answer where
  | nothing
  | bool (b : Bool)
  | hash (ptr : Ptr)

/-- The answer and the state after an operation, unless it dereferences a null pointer. -/
def exec (env : Env) (s : Pointers) : Op → Option (Answer × Pointers)
  | .through op => some (.nothing, { s with process := s.process.after env op })
  | .construct a v specInterfaces => some (.nothing, s.construct a v specInterfaces)
  | .copyConstruct a v specInterfaces b =>
    (s.copyConstruct a v specInterfaces b).map fun s' => (.nothing, s')
  | .moveConstruct a b => some (.nothing, s.moveConstruct a b)
  | .instantiate a v specInterfaces name instance_ =>
    some (.nothing, s.instantiate env a v specInterfaces name instance_)
  | .pluginFromThis a v block => some (.nothing, s.pluginFromThis env a v block)
  | .copyAssign a b => (s.copyAssign a b).map fun s' => (.nothing, s')
  | .moveAssign a b => some (.nothing, s.moveAssign a b)
  | .assignNull a => (s.assignNull a).map fun s' => (.nothing, s')
  | .clear a => (s.clear a).map fun s' => (.nothing, s')
  | .destroy a => some (.nothing, s.destroy a)
  | .isEmpty a => (s.isEmpty a).map fun b => (.bool b, s)
  | .toBool a => (s.toBool a).map fun b => (.bool b, s)
  | .hash a => (s.hash a).map fun ptr => (.hash ptr, s)
  | .compare op a b => (s.compare op a b).map fun b => (.bool b, s)
  | .weakConstruct x y => some (.nothing, s.weakConstruct x y)
  | .weakCopyConstruct x y z => (s.weakCopyConstruct x y z).map fun s' => (.nothing, s')
  | .weakMoveConstruct x z => some (.nothing, s.weakMoveConstruct x z)
  | .weakFromPlugin x y a => (s.weakFromPlugin x y a).map fun s' => (.nothing, s')
  | .weakCopyAssign x z => (s.weakCopyAssign x z).map fun s' => (.nothing, s')
  | .weakMoveAssign x z => some (.nothing, s.weakMoveAssign x z)
  | .weakAssign x a => (s.weakAssign x a).map fun s' => (.nothing, s')
  | .weakDestroy x => some (.nothing, s.weakDestroy x)
  | .lock a v x => (s.lock env a v x).map fun s' => (.nothing, s')
  | .isExpired x => (s.isExpired x).map fun b => (.bool b, s)

def after (env : Env) (s : Pointers) (op : Op) : Pointers :=
  match s.exec env op with
  | none => { s with crashed := true }
  | some (_, s') => s'

/-- Nothing takes place after a null pointer was dereferenced. A call into code that is not mapped
is no such crash; it is not noticed, as in `World.step`. -/
def step (env : Env) (s : Pointers) (op : Op) : Option Pointers :=
  if s.crashed = false ∧ s.Enabled env op then some (s.after env op) else none

end Pointers

end GzPlugin
