import GzPlugin.Pointers

/-!
# Who owns the wrappers

Every wrapper belongs to exactly one `PluginPtr`, and the data of every weak pointer to exactly
one `WeakPluginPtr`. To the process behind them the objects are invisible: whatever they do, it
makes a run of its own.
-/

namespace GzPlugin

open FiniteMaps Runs UniquePointers

set_option autoImplicit false

namespace Process

variable {env : Env} {p p' : Process} {op : WeakOp} {v u : Var} {y : Nat}

/-- The new wrapper of an operation. -/
def WeakOp.makes : WeakOp → Option Var
  | .plain (.construct v _) | .plain (.copyConstruct v _ _) => some v
  | .plain (.instantiate v _ _ _) | .plain (.lock v _) | .plain (.pluginFromThis v _) => some v
  | _ => none

def WeakOp.deletes : WeakOp → Option Var
  | .plain (.destroy v) => some v
  | _ => none

/-- The weak pointer that an operation sets. -/
def WeakOp.makesWeak : WeakOp → Option Nat
  | .plain (.assignWeak y _) | .copyWeak y _ => some y
  | _ => none

def WeakOp.deletesWeak : WeakOp → Option Nat
  | .plain (.dropWeak y) => some y
  | _ => none

theorem weakStep_plugins (hs : weakStep env p op = some p') : u ∈ p'.plugins ↔
    (op.makes = some u ∨ u ∈ p.plugins) ∧ op.deletes ≠ some u := by
  cases op with
  | copyWeak x y =>
    obtain ⟨weak, _, rfl⟩ := Option.map_eq_some_iff.mp hs
    simp [WeakOp.makes, WeakOp.deletes]
  | plain op =>
    have hen := (step_eq_some.mp hs).1
    have href := congrFun (step_binds hs).ref u
    rw [mem_plugins_iff_ref, href, mem_plugins_iff_ref]
    cases op <;>
      simp only [rebinds, rebind, Function.update_apply, WeakOp.makes, WeakOp.deletes,
        Enabled] at hen ⊢ <;>
      grind [mem_plugins_iff_ref, Finmap.lookup_eq_none, Option.map_eq_none_iff]

theorem weakStep_weaks (hs : weakStep env p op = some p') : y ∈ p'.weaks ↔
    (op.makesWeak = some y ∨ y ∈ p.weaks) ∧ op.deletesWeak ≠ some y := by
  cases op with
  | copyWeak x y =>
    obtain ⟨weak, _, rfl⟩ := Option.map_eq_some_iff.mp hs
    simp [WeakOp.makesWeak, WeakOp.deletesWeak, eq_comm]
  | plain op =>
    have hen := (step_eq_some.mp hs).1
    have hweaks := congrFun (step_binds hs).weaks y
    rw [← Finmap.lookup_isSome, hweaks, ← Finmap.lookup_isSome, Option.isSome_iff_ne_none,
      Option.isSome_iff_ne_none]
    cases op <;>
      simp only [reweaks, rebind, Function.update_apply, WeakOp.makesWeak, WeakOp.deletesWeak,
        Enabled] at hen ⊢ <;>
      grind [mem_plugins_iff_ref]

theorem destroy_empty (hl : p.plugins.lookup v = some .empty) :
    p.destroy v = { p with plugins := p.plugins.erase v } := by
  have h : p.destroy v = { p with plugins := (p.plugins.insert v .empty).erase v } := by
    simp only [destroy, hl]
    rfl
  rw [h, erase_insert]

/-- A new weak pointer is that of a temporary `PluginPtr`, which refers to nothing. -/
theorem newWeak_reachable (env : Env) (p : Process) (y : Nat) :
    Reachable (weakStep env) p { p with weaks := p.weaks.insert y ⟨none, none⟩ } := by
  obtain ⟨v, hsub⟩ := p.plugins.keys.exists_nat_subset_range
  have hv : v ∉ p.plugins := fun hm =>
    Finset.notMem_range_self (hsub (Finmap.mem_keys.mpr hm))
  have hl : (p.plugins.insert v .empty).lookup v = some .empty := Finmap.lookup_insert p.plugins
  have hmade : weakStep env p (.plain (.construct v [])) =
      some { p with plugins := p.plugins.insert v .empty } := if_pos hv
  have hassigned : weakStep env { p with plugins := p.plugins.insert v .empty }
      (.plain (.assignWeak y v)) = some { p with
        plugins := p.plugins.insert v .empty, weaks := p.weaks.insert y ⟨none, none⟩ } := by
    rw [weakStep, step_eq_some, after, assignWeak_eq _ y hl]
    exact ⟨Finmap.mem_of_lookup_eq_some hl, rfl⟩
  have hdropped : weakStep env { p with
      plugins := p.plugins.insert v .empty, weaks := p.weaks.insert y ⟨none, none⟩ }
      (.plain (.destroy v)) = some { p with weaks := p.weaks.insert y ⟨none, none⟩ } := by
    rw [weakStep, step_eq_some, after, destroy_empty hl]
    refine ⟨Finmap.mem_of_lookup_eq_some hl, ?_⟩
    simp only [erase_insert, erase_of_not_mem hv]
  exact ⟨_, .cons hmade (.cons hassigned (.cons hdropped (.nil _))), rfl⟩

end Process

namespace Pointers

open Process (WeakOp weakStep)

variable {env : Env} {s s' : Pointers} {op : Op} {wop : WeakOp} {answer : Answer} {a x : Nat}
  {v : Var} {y : Nat} {pl : Plugin} {weak : WeakPluginPtr}

/-- What an operation does to the `dataPtr`s. -/
def Op.ptrs : Op → Transfer Nat Var
  | .construct a v _ | .copyConstruct a v _ _ | .instantiate a v _ _ _ => .make a v
  | .pluginFromThis a v _ | .lock a v _ => .make a v
  | .moveConstruct a b | .moveAssign a b => .move a b
  | .destroy a => .drop a
  | _ => .keep

/-- What it does to the `pimpl`s. -/
def Op.weakPtrs : Op → Transfer Nat Nat
  | .weakConstruct x y | .weakCopyConstruct x y _ | .weakFromPlugin x y _ => .make x y
  | .weakMoveConstruct x z | .weakMoveAssign x z => .move x z
  | .weakDestroy x => .drop x
  | _ => .keep

/-- Every wrapper and the data of every weak pointer has exactly one owner. -/
structure Owned (s : Pointers) : Prop where
  ptrs : Owns s.ptrs {v | v ∈ s.process.plugins}
  weakPtrs : Owns s.weakPtrs {y | y ∈ s.process.weaks}

/-- What an operation that does not crash does. -/
structure Effect (env : Env) (s : Pointers) (op : Op) (s' : Pointers) : Prop where
  ptrs : s'.ptrs = op.ptrs.apply s.ptrs
  weakPtrs : s'.weakPtrs = op.weakPtrs.apply s.weakPtrs
  crashed : s'.crashed = s.crashed
  plugins : ∀ v, v ∈ s'.process.plugins ↔
    (op.ptrs.made = some v ∨ v ∈ s.process.plugins) ∧ op.ptrs.deleted s.ptrs ≠ some v
  weaks : ∀ y, y ∈ s'.process.weaks ↔
    (op.weakPtrs.made = some y ∨ y ∈ s.process.weaks) ∧ op.weakPtrs.deleted s.weakPtrs ≠ some y
  process : Reachable (weakStep env) s.process s'.process

theorem deref_eq_some : s.deref a = some v ↔ s.ptrs.get a = some v ∧ v ∈ s.process.plugins := by
  rw [deref, Option.filter_eq_some_iff, decide_eq_true_iff]

theorem derefWeak_eq_some : s.derefWeak x = some y ↔
    s.weakPtrs.get x = some y ∧ y ∈ s.process.weaks := by
  rw [derefWeak, Option.filter_eq_some_iff, decide_eq_true_iff]

theorem wrapper_eq_some : s.wrapper a = some pl ↔
    ∃ v, s.ptrs.get a = some v ∧ s.process.plugins.lookup v = some pl := by
  simp only [wrapper, Option.bind_eq_some_iff, deref_eq_some]
  constructor
  · rintro ⟨v, ⟨hv, _⟩, hl⟩
    exact ⟨v, hv, hl⟩
  · rintro ⟨v, hv, hl⟩
    exact ⟨v, ⟨hv, Finmap.mem_of_lookup_eq_some hl⟩, hl⟩

theorem data_eq_some : s.data x = some weak ↔
    ∃ y, s.weakPtrs.get x = some y ∧ s.process.weaks.lookup y = some weak := by
  simp only [data, Option.bind_eq_some_iff, derefWeak_eq_some]
  constructor
  · rintro ⟨y, ⟨hy, _⟩, hl⟩
    exact ⟨y, hy, hl⟩
  · rintro ⟨y, hy, hl⟩
    exact ⟨y, ⟨hy, Finmap.mem_of_lookup_eq_some hl⟩, hl⟩

/-- The state after an operation, with the process behind the objects. -/
def settle (s : Pointers) (op : Op) (p : Process) : Pointers :=
  ⟨p, op.ptrs.apply s.ptrs, op.weakPtrs.apply s.weakPtrs, s.crashed⟩

/-- The objects and the process behind them make and delete the same. -/
structure Alike (s : Pointers) (op : Op) (wop : WeakOp) : Prop where
  made : op.ptrs.made = wop.makes
  deleted : op.ptrs.deleted s.ptrs = wop.deletes
  madeWeak : ∀ y, op.weakPtrs.made = some y ∨ y ∈ s.process.weaks ↔
    wop.makesWeak = some y ∨ y ∈ s.process.weaks
  deletedWeak : op.weakPtrs.deleted s.weakPtrs = wop.deletesWeak

namespace Effect

/-- The process stands still, and nothing is made or deleted. -/
theorem of_idle (hmade : op.ptrs.made = none) (hdeleted : op.ptrs.deleted s.ptrs = none)
    (hmadeWeak : op.weakPtrs.made = none)
    (hdeletedWeak : op.weakPtrs.deleted s.weakPtrs = none) :
    Effect env s op (s.settle op s.process) where
  ptrs := rfl
  weakPtrs := rfl
  crashed := rfl
  plugins v := by simp [settle, hmade, hdeleted]
  weaks y := by simp [settle, hmadeWeak, hdeletedWeak]
  process := .refl _ _

theorem of_step (wop : WeakOp) {p : Process} (hs : weakStep env s.process wop = some p)
    (h : Alike s op wop) : Effect env s op (s.settle op p) where
  ptrs := rfl
  weakPtrs := rfl
  crashed := rfl
  plugins v := by rw [settle, Process.weakStep_plugins hs, h.made, h.deleted]
  weaks y := by rw [settle, Process.weakStep_weaks hs, h.madeWeak, h.deletedWeak]
  process := ⟨_, .cons hs (.nil _), rfl⟩

end Effect

theorem Through.idle {op : Process.Op} (h : Through op) : (WeakOp.plain op).makes = none ∧
    (WeakOp.plain op).deletes = none ∧ (WeakOp.plain op).makesWeak = none ∧
    (WeakOp.plain op).deletesWeak = none := by
  cases op <;> first | exact ⟨rfl, rfl, rfl, rfl⟩ | cases h

theorem map_nothing_eq_some {f : Option Pointers}
    (h : (f.map fun s' => (Answer.nothing, s')) = some (answer, s')) : f = some s' := by
  obtain ⟨_, hf, he⟩ := Option.map_eq_some_iff.mp h
  cases he
  exact hf

theorem map_same_eq_some {α : Type} {f : Option α} {g : α → Answer}
    (h : (f.map fun b => (g b, s)) = some (answer, s')) : s' = s := by
  obtain ⟨_, _, he⟩ := Option.map_eq_some_iff.mp h
  cases he
  rfl

theorem copyWeak_step {p : Process} {x y : Nat} (hl : p.weaks.lookup y = some weak) :
    weakStep env p (.copyWeak x y) = some { p with weaks := p.weaks.insert x weak } := by
  rw [weakStep, hl, Option.map_some]

theorem assignWeak_step {p : Process} {x : Nat} (hl : p.plugins.lookup v = some pl) :
    weakStep env p (.plain (.assignWeak x v)) =
      some { p with weaks := p.weaks.insert x pl.weak } := by
  rw [weakStep, Process.step_eq_some, Process.after, Process.assignWeak_eq p x hl]
  exact ⟨Finmap.mem_of_lookup_eq_some hl, rfl⟩

theorem lock_step {p : Process} (hv : v ∉ p.plugins) (hl : p.weaks.lookup y = some weak) :
    weakStep env p (.plain (.lock v y)) = some (p.lock env v weak) := by
  rw [weakStep, Process.step_eq_some]
  refine ⟨⟨hv, Finmap.mem_of_lookup_eq_some hl⟩, ?_⟩
  simp only [Process.after, hl]

theorem mem_weaks_of_set (hy : y ∈ s.process.weaks) (y' : Nat) :
    none = some y' ∨ y' ∈ s.process.weaks ↔ some y = some y' ∨ y' ∈ s.process.weaks := by
  constructor
  · exact fun h => Or.inr (h.resolve_left nofun)
  · rintro (h | h)
    · cases h
      exact Or.inr hy
    · exact Or.inr h

/-- An object lets go of its wrapper, if it has one. -/
theorem Owned.deleteWrapper_effect (h : s.Owned) (op : Op) (hmade : op.ptrs.made = none)
    (hweak : op.weakPtrs = .keep) : Effect env s op
      ({ s with ptrs := op.ptrs.apply s.ptrs }.deleteWrapper (op.ptrs.deleted s.ptrs)) := by
  have hsettle : ∀ p, (⟨p, op.ptrs.apply s.ptrs, s.weakPtrs, s.crashed⟩ : Pointers) =
      s.settle op p := by
    intro p
    rw [settle, hweak, Transfer.apply]
  cases hdel : op.ptrs.deleted s.ptrs with
  | none =>
    rw [deleteWrapper, hsettle]
    exact .of_idle hmade hdel (by simp [hweak]) (by simp [hweak])
  | some v =>
    rw [deleteWrapper, hsettle]
    refine .of_step (.plain (.destroy v)) (if_pos (h.ptrs.mem_of_deleted hdel))
      ⟨hmade, hdel, fun y => ?_, ?_⟩
    · rw [hweak]
      exact Iff.rfl
    · rw [hweak]
      rfl

/-- The same for the data of a weak pointer. -/
theorem Owned.deleteData_effect (h : s.Owned) (op : Op) (hmade : op.weakPtrs.made = none)
    (hptrs : op.ptrs = .keep) : Effect env s op
      ({ s with weakPtrs := op.weakPtrs.apply s.weakPtrs }.deleteData
        (op.weakPtrs.deleted s.weakPtrs)) := by
  have hsettle : ∀ p, (⟨p, s.ptrs, op.weakPtrs.apply s.weakPtrs, s.crashed⟩ : Pointers) =
      s.settle op p := by
    intro p
    rw [settle, hptrs, Transfer.apply]
  cases hdel : op.weakPtrs.deleted s.weakPtrs with
  | none =>
    rw [deleteData, hsettle]
    exact .of_idle (by simp [hptrs]) (by simp [hptrs]) hmade hdel
  | some y =>
    rw [deleteData, hsettle]
    refine .of_step (.plain (.dropWeak y)) (if_pos (h.weakPtrs.mem_of_deleted hdel))
      ⟨?_, ?_, fun y' => ?_, hdel⟩
    · rw [hptrs]
      rfl
    · rw [hptrs]
      rfl
    · rw [hmade]
      exact Iff.rfl

theorem exec_effect (hO : s.Owned) (hen : s.Enabled env op)
    (h : s.exec env op = some (answer, s')) : Effect env s op s' := by
  cases op with
  | through op =>
    obtain ⟨hm, hd, hmw, hdw⟩ := hen.1.idle
    cases h
    refine .of_step (.plain op) (if_pos hen.2) ⟨hm.symm, hd.symm, fun y => ?_, hdw.symm⟩
    rw [hmw]
    exact Iff.rfl
  | construct a v specInterfaces =>
    cases h
    exact .of_step (.plain (.construct v specInterfaces)) (if_pos hen.2)
      ⟨rfl, rfl, fun _ => Iff.rfl, rfl⟩
  | copyConstruct a v specInterfaces b =>
    obtain ⟨u, hu, he⟩ := Option.bind_eq_some_iff.mp (map_nothing_eq_some h)
    cases he
    exact .of_step (.plain (.copyConstruct v specInterfaces u))
      (if_pos ⟨hen.2.1, (deref_eq_some.mp hu).2⟩) ⟨rfl, rfl, fun _ => Iff.rfl, rfl⟩
  | moveConstruct a b =>
    cases h
    exact .of_idle rfl (Owners.replaced_of_not_mem hen.1 b) rfl rfl
  | instantiate a v specInterfaces name instance_ =>
    cases h
    exact .of_step (.plain (.instantiate v specInterfaces name instance_))
      (if_pos hen.2) ⟨rfl, rfl, fun _ => Iff.rfl, rfl⟩
  | pluginFromThis a v block =>
    cases h
    exact .of_step (.plain (.pluginFromThis v block)) (if_pos hen.2)
      ⟨rfl, rfl, fun _ => Iff.rfl, rfl⟩
  | copyAssign a b =>
    obtain ⟨v, hv, h⟩ := Option.bind_eq_some_iff.mp (map_nothing_eq_some h)
    obtain ⟨u, hu, he⟩ := Option.bind_eq_some_iff.mp h
    cases he
    exact .of_step (.plain (.assign v u))
      (if_pos ⟨(deref_eq_some.mp hv).2, (deref_eq_some.mp hu).2⟩) ⟨rfl, rfl, fun _ => Iff.rfl, rfl⟩
  | moveAssign a b =>
    cases h
    exact hO.deleteWrapper_effect (.moveAssign a b) rfl rfl
  | assignNull a | clear a =>
    obtain ⟨v, hv, he⟩ := Option.bind_eq_some_iff.mp (map_nothing_eq_some h)
    cases he
    exact .of_step (.plain (.clear v)) (if_pos (deref_eq_some.mp hv).2)
      ⟨rfl, rfl, fun _ => Iff.rfl, rfl⟩
  | destroy a =>
    cases h
    exact hO.deleteWrapper_effect (.destroy a) rfl rfl
  | isEmpty | toBool | hash | compare | isExpired =>
    rw [map_same_eq_some h]
    exact .of_idle rfl rfl rfl rfl
  | weakConstruct x y =>
    cases h
    refine ⟨rfl, rfl, rfl, fun v => ?_, fun y' => ?_, Process.newWeak_reachable env s.process y⟩
    · simp [weakConstruct, setData, Op.ptrs, Transfer.made, Transfer.deleted]
    · simp [weakConstruct, setData, Op.weakPtrs, Transfer.made, Transfer.deleted, eq_comm]
  | weakCopyConstruct x y z =>
    obtain ⟨weak, hw, he⟩ := Option.bind_eq_some_iff.mp (map_nothing_eq_some h)
    obtain ⟨y', _, hl⟩ := data_eq_some.mp hw
    cases he
    exact .of_step _ (copyWeak_step hl) ⟨rfl, rfl, fun _ => Iff.rfl, rfl⟩
  | weakMoveConstruct x z =>
    cases h
    exact .of_idle rfl rfl rfl (Owners.replaced_of_not_mem hen.1 z)
  | weakFromPlugin x y a =>
    obtain ⟨pl, hp, he⟩ := Option.bind_eq_some_iff.mp (map_nothing_eq_some h)
    obtain ⟨v, _, hl⟩ := wrapper_eq_some.mp hp
    cases he
    exact .of_step _ (assignWeak_step hl) ⟨rfl, rfl, fun _ => Iff.rfl, rfl⟩
  | weakCopyAssign x z =>
    obtain ⟨y, hy, h⟩ := Option.bind_eq_some_iff.mp (map_nothing_eq_some h)
    obtain ⟨weak, hw, he⟩ := Option.bind_eq_some_iff.mp h
    obtain ⟨y', _, hl⟩ := data_eq_some.mp hw
    cases he
    exact .of_step _ (copyWeak_step hl)
      ⟨rfl, rfl, mem_weaks_of_set (derefWeak_eq_some.mp hy).2, rfl⟩
  | weakMoveAssign x z =>
    cases h
    exact hO.deleteData_effect (.weakMoveAssign x z) rfl rfl
  | weakAssign x a =>
    obtain ⟨y, hy, h⟩ := Option.bind_eq_some_iff.mp (map_nothing_eq_some h)
    obtain ⟨pl, hp, he⟩ := Option.bind_eq_some_iff.mp h
    obtain ⟨v, _, hl⟩ := wrapper_eq_some.mp hp
    cases he
    exact .of_step _ (assignWeak_step hl)
      ⟨rfl, rfl, mem_weaks_of_set (derefWeak_eq_some.mp hy).2, rfl⟩
  | weakDestroy x =>
    cases h
    exact hO.deleteData_effect (.weakDestroy x) rfl rfl
  | lock a v x =>
    obtain ⟨weak, hw, he⟩ := Option.bind_eq_some_iff.mp (map_nothing_eq_some h)
    obtain ⟨y, _, hl⟩ := data_eq_some.mp hw
    cases he
    exact .of_step _ (lock_step hen.2.1 hl) ⟨rfl, rfl, fun _ => Iff.rfl, rfl⟩

/-! ### Runs -/

theorem Enabled.valid (hen : s.Enabled env op) :
    op.ptrs.Valid s.ptrs {v | v ∈ s.process.plugins} ∧
      op.weakPtrs.Valid s.weakPtrs {y | y ∈ s.process.weaks} := by
  cases op with
  | construct => exact ⟨hen, trivial⟩
  | copyConstruct | instantiate | pluginFromThis | lock => exact ⟨⟨hen.1, hen.2.1⟩, trivial⟩
  | moveConstruct | moveAssign => exact ⟨hen.2, trivial⟩
  | weakConstruct => exact ⟨trivial, hen⟩
  | weakCopyConstruct | weakFromPlugin => exact ⟨trivial, hen.1, hen.2.1⟩
  | weakMoveConstruct | weakMoveAssign => exact ⟨trivial, hen.2⟩
  | _ => exact ⟨trivial, trivial⟩

theorem Effect.owned (h : Effect env s op s') (hO : s.Owned) (hen : s.Enabled env op) :
    s'.Owned where
  ptrs := by
    rw [h.ptrs]
    exact hO.ptrs.apply hen.valid.1 h.plugins
  weakPtrs := by
    rw [h.weakPtrs]
    exact hO.weakPtrs.apply hen.valid.2 h.weaks

theorem step_cases (hs : step env s op = some s') : s.crashed = false ∧ s.Enabled env op ∧
    (s.exec env op = none ∧ s' = { s with crashed := true } ∨
      ∃ answer, s.exec env op = some (answer, s')) := by
  unfold step at hs
  split at hs
  · rename_i h
    refine ⟨h.1, h.2, ?_⟩
    cases hs
    unfold after
    cases hexec : s.exec env op with
    | none => exact Or.inl ⟨rfl, rfl⟩
    | some r => exact Or.inr ⟨r.1, rfl⟩
  · cases hs

theorem init_owned : init.Owned where
  ptrs := Owns.empty fun _ => Finmap.notMem_empty
  weakPtrs := Owns.empty fun _ => Finmap.notMem_empty

theorem step_owned (h : s.Owned) (hs : step env s op = some s') :
    s'.Owned ∧ Reachable (weakStep env) s.process s'.process := by
  obtain ⟨_, hen, ⟨_, rfl⟩ | ⟨answer, hexec⟩⟩ := step_cases hs
  · exact ⟨⟨h.ptrs, h.weakPtrs⟩, .refl _ _⟩
  · have heffect := exec_effect h hen hexec
    exact ⟨heffect.owned h hen, heffect.process⟩

/-- What holds of every process holds of the process behind the objects. -/
theorem reachable_process (h : Reachable (step env) init s) :
    s.Owned ∧ Reachable (weakStep env) Process.init s.process := by
  refine h.invariant (P := fun s => s.Owned ∧ Reachable (weakStep env) Process.init s.process)
    ⟨init_owned, .refl _ _⟩ fun hP hs => ?_
  obtain ⟨hO, hprocess⟩ := step_owned hP.1 hs
  exact ⟨hO, hP.2.trans hprocess⟩

end Pointers

end GzPlugin
