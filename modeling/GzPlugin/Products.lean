import GzPlugin.FromThis

/-!
# Products of factories

What `ImplConstruct`, `ProductDeleter`, `~FactoryCounter` and `CleanupLostProducts` do, one
step at a time, so that the steps of several threads and everything else that a process does
can come in between. What runs under the mutex of the `LostProductManager` is one step.
-/

namespace GzPlugin

open FiniteMaps Runs

set_option autoImplicit false

/-- How far a product has come. The flag tells whether a `ProductDeleter` deletes it. -/
inductive Stage where
  | constructed
  /-- `PluginFromThis` has returned, as a temporary variable. -/
  | locked (t : Var)
  /-- The reference is assigned, and the temporary is still there. -/
  | assigned (t : Var)
  | existing
  | destructing (byDeleter : Bool)
  /-- The body of `~FactoryCounter` has run, and its member is still there. -/
  | leaving (byDeleter : Bool)
  /-- The destructor has returned to the `ProductDeleter`. -/
  | destroyed
  deriving DecidableEq

namespace Stage

def temporary : Stage → Option Var
  | locked t | assigned t => some t
  | _ => none

/-- `ImplConstruct` has not returned. -/
def constructing : Stage → Bool
  | constructed | locked _ | assigned _ => true
  | _ => false

/-- The destruction has not begun. -/
def living : Stage → Bool
  | constructed | locked _ | assigned _ | existing => true
  | _ => false

def byDeleter : Stage → Bool
  | destructing b | leaving b => b
  | destroyed => true
  | _ => false

end Stage

/-- A `ProductWithFactoryCounter`. Its references are entries of `Process.shared`. -/
structure Product where
  /-- The instance whose member function constructs the product; a factory that no Loader
  made has none. -/
  factory : Option Nat
  factoryPluginInstancePtr : Option Nat
  held : Option Nat -- the local variable of the `ProductDeleter`
  stage : Stage
  deriving DecidableEq

structure Products where
  process : Process
  products : Finmap fun _ : Nat => Product
  /-- The vector of the `LostProductManager`. -/
  lostProducts : List Nat
  next : Nat

/-- The reference that an operation of the process lets go of. -/
def Process.Op.drops : Process.Op → Option Nat
  | .dropShared i => some i
  | _ => none

namespace Products

def init : Products := ⟨.init, ∅, [], 0⟩

def setProduct (s : Products) (q : Nat) (product : Product) : Products :=
  { s with products := s.products.insert q product }

def eraseProduct (s : Products) (q : Nat) : Products :=
  { s with products := s.products.erase q }

/-- A product or a `ProductDeleter` or the list of lost products owns the reference. -/
def Owned (s : Products) (i : Nat) : Prop :=
  Has (fun _ product => product.factoryPluginInstancePtr = some i ∨ product.held = some i)
    s.products ∨ i ∈ s.lostProducts

instance (s : Products) (i : Nat) : Decidable (s.Owned i) := by
  unfold Owned; infer_instance

def Temporary (s : Products) (t : Var) : Prop :=
  Has (fun _ product => product.stage.temporary = some t) s.products

instance (s : Products) (t : Var) : Decidable (s.Temporary t) := by
  unfold Temporary; infer_instance

/-- Every factory whose member function is running is alive in the process `p`. -/
def CallsSurvive (s : Products) (p : Process) : Prop :=
  ¬ Has (fun _ product => product.stage.constructing ∧
    ∃ block ∈ product.factory, block ∉ p.world.instances) s.products

instance (s : Products) (p : Process) : Decidable (s.CallsSurvive p) := by
  unfold CallsSurvive; infer_instance

def run (env : Env) (s : Products) (op : Process.Op) : Option Products :=
  (Process.step env s.process op).map fun p => { s with process := p }

def drop (s : Products) : Option Nat → Products
  | none => s
  | some i => { s with process := s.process.dropShared i }

def construct (s : Products) (factory : Option Nat) : Products :=
  { s.setProduct s.next ⟨factory, none, none, .constructed⟩ with next := s.next + 1 }

/-- `weak.Lock()`. The weak pointer of a factory that no Loader made is empty. -/
def lockThis (p : Process) (factory : Option Nat) (t : Var) : Process.Op :=
  match factory with
  | none => .construct t []
  | some block => if block ∈ p.fromThis then .pluginFromThis t block else .construct t []

/-- The body of `~FactoryCounter`: the list gets a copy of the reference. -/
def handOff (s : Products) (factoryPluginInstancePtr : Option Nat) (k : Nat) : Products :=
  match factoryPluginInstancePtr with
  | none => s
  | some i => { s with
      process := s.process.share k (s.process.shared.lookup i)
      lostProducts := s.lostProducts ++ [k] }

def cleanupLostProducts (s : Products) : Products :=
  { s with
    process := s.lostProducts.foldl Process.dropShared s.process
    lostProducts := [] }

def lostProductCount (s : Products) : Nat := s.lostProducts.length

inductive Op where
  | process (op : Process.Op)
  /-- `ImplConstruct` is called on a factory, and the constructor of the product returns. -/
  | construct (factory : Option Nat)
  /-- `PluginInstancePtrFromThis` locks the weak pointer, -/
  | lockThis (q : Nat) (t : Var)
  /-- copies the pointer to the instance, which becomes the reference of the product, -/
  | assignReference (q i : Nat)
  /-- and destroys the `PluginPtr`; `Construct` returns. -/
  | returnProduct (q : Nat)
  /-- A `ProductDeleter` swaps the reference into its local variable and begins `delete`. -/
  | productDeleter (q : Nat)
  | delete (q : Nat)
  | destroyCounter (q k : Nat)
  /-- The members of `FactoryCounter` go, and the memory is freed. -/
  | destroyMembers (q : Nat)
  | dropLocal (q : Nat)
  | cleanupLostProducts

/-- The outcome of an operation. What belongs to the products, their deleters and the lost
products is touched by them alone. -/
def after (env : Env) (s : Products) : Op → Option Products
  | .process op =>
    if (∀ i ∈ op.drops, ¬ s.Owned i) ∧ ∀ t ∈ op.overwrites, ¬ s.Temporary t then s.run env op
    else none
  | .construct factory =>
    if ∀ block ∈ factory, block ∈ s.process.fromThis then some (s.construct factory) else none
  | .lockThis q t =>
    (s.products.lookup q).bind fun product =>
      match product.stage with
      | .constructed =>
        (s.run env (lockThis s.process product.factory t)).map fun s =>
          s.setProduct q { product with stage := .locked t }
      | _ => none
  | .assignReference q i =>
    (s.products.lookup q).bind fun product =>
      match product.stage with
      | .locked t =>
        (s.run env (.shareInstance i t)).map fun s =>
          s.setProduct q { product with
            factoryPluginInstancePtr := if i ∈ s.process.shared then some i else none
            stage := .assigned t }
      | _ => none
  | .returnProduct q =>
    (s.products.lookup q).bind fun product =>
      match product.stage with
      | .assigned t => (s.setProduct q { product with stage := .existing }).run env (.destroy t)
      | _ => none
  | .productDeleter q =>
    (s.products.lookup q).bind fun product =>
      match product.stage with
      | .existing => some (s.setProduct q { product with
          factoryPluginInstancePtr := product.held
          held := product.factoryPluginInstancePtr
          stage := .destructing true })
      | _ => none
  | .delete q =>
    (s.products.lookup q).bind fun product =>
      match product.stage with
      | .existing => some (s.setProduct q { product with stage := .destructing false })
      | _ => none
  | .destroyCounter q k =>
    (s.products.lookup q).bind fun product =>
      match product.stage with
      | .destructing byDeleter =>
        if k ∈ s.process.shared then none
        else some ((s.handOff product.factoryPluginInstancePtr k).setProduct q
          { product with stage := .leaving byDeleter })
      | _ => none
  | .destroyMembers q =>
    (s.products.lookup q).bind fun product =>
      match product.stage with
      | .leaving true =>
        some ((s.setProduct q { product with
          factoryPluginInstancePtr := none
          stage := .destroyed }).drop product.factoryPluginInstancePtr)
      | .leaving false => some ((s.eraseProduct q).drop product.factoryPluginInstancePtr)
      | _ => none
  | .dropLocal q =>
    (s.products.lookup q).bind fun product =>
      match product.stage with
      | .destroyed => some ((s.eraseProduct q).drop product.held)
      | _ => none
  | .cleanupLostProducts => some s.cleanupLostProducts

/-- No operation ends an instance while a member function of it is running. A call into code that
is not mapped is not noticed, as in `World.step`. -/
def step (env : Env) (s : Products) (op : Op) : Option Products :=
  (s.after env op).filter fun s' => s.CallsSurvive s'.process

end Products

/-- What a bookkeeper who sees the operations knows about the deletions. -/
structure Ledger where
  /-- The products under plain `delete` that had a reference and have not handed it over, with
  their factories. -/
  plain : Finmap fun _ : Nat => Nat
  /-- Those that handed it over since the last `CleanupLostProducts`, in order. -/
  handed : List (Nat × Nat)
  /-- The references that the products had when a `ProductDeleter` began to delete them. -/
  taken : Finmap fun _ : Nat => Option Nat

namespace Ledger

def empty : Ledger := ⟨∅, [], ∅⟩

def next (s : Products) (l : Ledger) : Products.Op → Ledger
  | .productDeleter q =>
    match s.products.lookup q with
    | none => l
    | some product => { l with taken := l.taken.insert q product.factoryPluginInstancePtr }
  | .delete q =>
    match s.products.lookup q with
    | some ⟨some factory, some _, _, _⟩ => { l with plain := l.plain.insert q factory }
    | _ => l
  | .destroyCounter q _ =>
    match l.plain.lookup q with
    | none => l
    | some factory => { l with
        plain := l.plain.erase q
        handed := l.handed ++ [(q, factory)] }
  | .cleanupLostProducts => { l with handed := [] }
  | _ => l

end Ledger

end GzPlugin
