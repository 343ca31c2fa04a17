import GzPlugin.Instances

/-!
# The value semantics of PluginPtr

A process against the reference semantics, in which a variable is nothing but the instance
it refers to. `a = a` clears `a` before it is read; every other operation agrees.
-/

namespace GzPlugin

open FiniteMaps Runs

set_option autoImplicit false

def WeakPluginPtr.block (weak : WeakPluginPtr) : Option Nat := weak.instance_.map (·.block)

/-- The reference semantics: the instances that variables, interface pointers and weak
pointers refer to, and those made so far. -/
structure Reference where
  plugins : Var → Option (Option Nat)
  shared : Nat → Option Nat
  weaks : Nat → Option (Option Nat)
  created : Finset Nat

namespace Reference

open Process

def init : Reference := ⟨fun _ => none, fun _ => none, fun _ => none, ∅⟩

def Held (r : Reference) (block : Nat) : Prop :=
  (∃ v, r.plugins v = some (some block)) ∨ ∃ i, r.shared i = some block

open Classical in
/-- A weak pointer gives its instance as long as that one is referred to. -/
noncomputable def lock (r : Reference) (target : Option Nat) : Option Nat :=
  target.filter fun block => r.Held block

/-- The variable that an operation binds anew. What `Instantiate` finds and whether an
interface is implemented is read off the process. -/
noncomputable def rebinds (env : Env) (p : Process) (r : Reference) :
    Op → Option (Var × Option (Option Nat))
  | .construct v _ => some (v, some none)
  | .copyConstruct v _ u => some (v, r.plugins u)
  | .instantiate v specInterfaces s instance_ =>
    some (v, some (p.creates env (.instantiate v specInterfaces s instance_)))
  | .assign v u => some (v, r.plugins u)
  | .clear v => some (v, some none)
  | .destroy v => some (v, none)
  | .lock v x => some (v, (r.weaks x).map r.lock)
  | .pluginFromThis v block => some (v, some (some block))
  | _ => none

def reshares (p : Process) (r : Reference) : Op → Option (Nat × Option Nat)
  | .queryInterfaceSharedPtr i v interface =>
    some (i, if (p.plugins.lookup v).any fun pl => pl.queryInterface interface ≠ 0 then
      (r.plugins v).join else none)
  | .shareInstance i v => some (i, (r.plugins v).join)
  | .dropShared i => some (i, none)
  | _ => none

def reweaks (r : Reference) : Op → Option (Nat × Option (Option Nat))
  | .assignWeak x v => some (x, r.plugins v)
  | .dropWeak x => some (x, none)
  | _ => none

noncomputable def next (env : Env) (p : Process) (r : Reference) (op : Op) : Reference where
  plugins := rebind r.plugins (r.rebinds env p op)
  shared := rebind r.shared (r.reshares p op)
  weaks := rebind r.weaks (r.reweaks op)
  created := (p.creates env op).elim r.created fun block => insert block r.created

end Reference

namespace Process

variable {env : Env} {p p' : Process} {r : Reference}

/-- Every variable and pointer refers to the instance that the reference semantics gives. -/
structure Matches (p : Process) (r : Reference) : Prop where
  plugins : ∀ v, (p.ref v).map WeakPluginPtr.block = r.plugins v
  shared : ∀ i, (p.shared.lookup i).map (·.block) = r.shared i
  weaks : ∀ x, (p.weaks.lookup x).map WeakPluginPtr.block = r.weaks x

/-- The value semantics: the references are right, and the deleter of every instance runs
exactly once, when the last reference goes. -/
structure Agrees (p : Process) (r : Reference) : Prop where
  references : Matches p r
  kept : ∀ block, r.Held block → p.deleterRuns block = 0
  deleted : ∀ block ∈ r.created, ¬ r.Held block → p.deleterRuns block = 1
  others : ∀ block, block ∉ r.created → p.deleterRuns block = 0

/-- The operation assigns no variable to itself, unless it refers to no instance. -/
def NoSelfAssign (p : Process) : Op → Prop
  | .assign v u => u = v → ∀ pl ∈ p.plugins.lookup v, pl.loadedInstancePtr = none
  | _ => True

instance (p : Process) (op : Op) : Decidable (p.NoSelfAssign op) := by
  induction op using Op.casesOn <;> unfold NoSelfAssign <;> infer_instance

/-- What the process counts is what the reference semantics counts. -/
structure Counted (env : Env) (p : Process) (r : Reference) : Prop where
  consistent : Consistent env p
  tally : ∀ block, p.tally block = if block ∈ r.created then 1 else 0

theorem map_rebind {κ β γ : Type} [DecidableEq κ] (g : β → γ) (f : κ → Option β)
    (e : Option (κ × Option β)) (k : κ) :
    (rebind f e k).map g = rebind (fun k => (f k).map g) (e.map (Prod.map id (Option.map g))) k := by
  cases e with
  | none => rfl
  | some e =>
    simp only [rebind, Option.map_some, Prod.map, id, Function.update_apply]
    split <;> rfl

theorem Matches.held_iff (h : Matches p r) (block : Nat) :
    p.InstanceHeld block ↔ r.Held block := by
  have hplugin : ∀ v, r.plugins v = some (some block) ↔
      ∃ pl, p.plugins.lookup v = some pl ∧ RefersTo block pl := by
    intro v
    rw [← h.plugins, ref]
    cases p.plugins.lookup v with
    | none => simp
    | some pl => simp [WeakPluginPtr.block, Plugin.weak, RefersTo]
  have hshared : ∀ i, r.shared i = some block ↔
      ∃ ptr, p.shared.lookup i = some ptr ∧ ptr.block = block := by
    intro i
    rw [← h.shared, Option.map_eq_some_iff]
  unfold InstanceHeld Reference.Held Has
  simp only [hplugin, hshared]

theorem Counted.agrees_iff (h : Counted env p r) : Agrees p r ↔ Matches p r := by
  constructor
  · exact fun ha => ha.references
  · intro hm
    have halive : ∀ block, block ∈ p.world.instances ↔ r.Held block := fun block =>
      (h.consistent.alive block).trans (hm.held_iff block)
    refine ⟨hm, ?_, ?_, ?_⟩
    · intro block hh
      have ht := h.tally block
      rw [Process.tally, if_pos ((halive block).mpr hh)] at ht
      split at ht <;> omega
    · intro block hc hn
      have ht := h.tally block
      rw [Process.tally, if_neg (mt (halive block).mp hn), if_pos hc] at ht
      exact ht
    · intro block hc
      have ht := h.tally block
      rw [Process.tally, if_neg hc] at ht
      omega

theorem Counted.next {op : Op} (h : Counted env p r) (hs : step env p op = some p') :
    Counted env p' (r.next env p op) := by
  refine ⟨step_consistent h.consistent hs, ?_⟩
  intro block
  unfold Reference.next
  cases step_effect h.consistent hs with
  | released hmade hrel _ =>
    rw [hrel.tally, hmade]
    exact h.tally block
  | made v new weak hmade _ _ _ hm =>
    have hfresh : new ∉ r.created := by
      intro hc
      have ht := h.consistent.fresh hm.beyond
      rw [h.tally, if_pos hc] at ht
      cases ht
    rw [hm.tally h.consistent, hmade, h.tally]
    simp only [Option.elim_some, Finset.mem_insert]
    by_cases hb : block = new
    · simp [hb, hfresh]
    · simp [hb]

theorem lock_agrees (h : Consistent env p) (hm : Matches p r) (weak : WeakPluginPtr) :
    (p.locked weak).block = r.lock weak.block := by
  have halive : ∀ block, block ∈ p.world.instances ↔ r.Held block := fun block =>
    (h.alive block).trans (hm.held_iff block)
  cases hi : weak.instance_ with
  | none => simp [WeakPluginPtr.block, locked, lockInstance, Reference.lock, hi]
  | some ptr =>
    by_cases hh : r.Held ptr.block
    · simp [WeakPluginPtr.block, locked, lockInstance, Reference.lock, Option.filter, hi, halive,
        hh]
    · simp [WeakPluginPtr.block, locked, lockInstance, Reference.lock, Option.filter, hi, halive,
        hh]

/-- Apart from self-assignment, an operation binds its variable as the reference semantics
does. -/
theorem rebinds_agrees {op : Op} (h : Consistent env p) (hm : Matches p r)
    (hen : p.Enabled env op) (hself : p.NoSelfAssign op) :
    (p.rebinds env op).map (Prod.map id (Option.map WeakPluginPtr.block)) =
      r.rebinds env p op := by
  cases op with
  | loader op => rfl
  | construct v specInterfaces => rfl
  | copyConstruct v specInterfaces u => exact congrArg (fun x => some (v, x)) (hm.plugins u)
  | instantiate v specInterfaces s instance_ => rfl
  | assign v u =>
    refine congrArg (fun x => some (v, x)) ?_
    by_cases hu : u = v
    · obtain ⟨pl, hl⟩ := Finmap.mem_iff.mp hen.1
      have hnone : pl.loadedInstancePtr = none := hself hu pl hl
      rw [if_pos hu, hu, ← hm.plugins, ref_eq hl]
      simp [WeakPluginPtr.block, Plugin.weak, hnone]
    · rw [if_neg hu]
      exact hm.plugins u
  | clear v => rfl
  | destroy v => rfl
  | queryInterfaceSharedPtr i v interface => rfl
  | shareInstance i v => rfl
  | dropShared i => rfl
  | assignWeak x v => rfl
  | dropWeak x => rfl
  | lock v x =>
    refine congrArg (fun x => some (v, x)) ?_
    rw [← hm.weaks, Option.map_map, Option.map_map]
    congr 1
    funext weak
    exact lock_agrees h hm weak
  | pluginFromThis v block =>
    refine congrArg (fun x => some (v, x)) ?_
    obtain ⟨weak, hw⟩ := Finmap.mem_iff.mp hen.2
    obtain ⟨halive, ptr, hptr, hb⟩ := h.fromThis hw
    rw [hw]
    subst hb
    rw [Option.mem_def] at hptr
    simp [WeakPluginPtr.block, locked, lockInstance, hptr, halive]

theorem reshares_agrees (hm : Matches p r) (op : Op) :
    (p.reshares op).map (Prod.map id (Option.map (·.block))) = r.reshares p op := by
  cases op with
  | queryInterfaceSharedPtr i v interface =>
    refine congrArg (fun x => some (i, x)) ?_
    rw [← hm.plugins, ref]
    cases p.plugins.lookup v with
    | none => rfl
    | some pl =>
      by_cases hq : pl.queryInterface interface = 0
      · simp [hq]
      · simp only [Option.bind_some, ne_eq, hq, not_false_eq_true, if_true, Option.any_some,
          decide_true, Option.map_map, Option.map_some, Option.join_some, WeakPluginPtr.block,
          Plugin.weak]
        rfl
  | shareInstance i v =>
    refine congrArg (fun x => some (i, x)) ?_
    rw [← hm.plugins]
    cases p.ref v with
    | none => rfl
    | some weak => rfl
  | _ => rfl

theorem reweaks_agrees (hm : Matches p r) (op : Op) :
    (p.reweaks op).map (Prod.map id (Option.map WeakPluginPtr.block)) = r.reweaks op := by
  cases op with
  | assignWeak x v => exact congrArg (fun y => some (x, y)) (hm.plugins v)
  | _ => rfl

theorem Matches.next {op : Op} (h : Consistent env p) (hm : Matches p r)
    (hs : step env p op = some p') (hself : p.NoSelfAssign op) :
    Matches p' (r.next env p op) where
  plugins v := by
    rw [(step_binds hs).ref, map_rebind, rebinds_agrees h hm (step_eq_some.mp hs).1 hself,
      funext hm.plugins]
    rfl
  shared i := by
    rw [congrFun (step_binds hs).shared i, map_rebind, reshares_agrees hm, funext hm.shared]
    rfl
  weaks x := by
    rw [congrFun (step_binds hs).weaks x, map_rebind, reweaks_agrees hm, funext hm.weaks]
    rfl

/-- Under the reference semantics a self-assignment changes nothing; the process clears the
variable. -/
theorem Matches.noSelfAssign {op : Op} (hm : Matches p r) (hs : step env p op = some p')
    (hm' : Matches p' (r.next env p op)) : p.NoSelfAssign op := by
  cases op with
  | assign v u =>
    rintro rfl pl hl
    have hv := hm'.plugins u
    rw [(step_binds hs).ref, rebinds, if_pos rfl, rebind, Function.update_self] at hv
    have hr : (r.next env p (.assign u u)).plugins u = some pl.weak.block := by
      change Function.update r.plugins u (r.plugins u) u = _
      rw [Function.update_self, ← hm.plugins, ref_eq hl]
      rfl
    rw [hr] at hv
    cases hinst : pl.loadedInstancePtr with
    | none => rfl
    | some ptr => simp [WeakPluginPtr.block, Plugin.weak, hinst] at hv
  | _ => trivial

theorem init_counted (env : Env) : Counted env .init .init :=
  ⟨init_consistent env, fun block => by
    rw [tally, if_neg (show block ∉ init.world.instances from Finmap.notMem_empty)]
    rfl⟩

theorem init_matches : Matches .init .init := ⟨fun _ => rfl, fun _ => rfl, fun _ => rfl⟩

/-- In a run every variable refers to the instance that the reference semantics gives, and
the deleter of every instance runs exactly once, when the last reference goes, if and only
if no variable that refers to an instance is assigned to itself. Of a program that calls into a
closed library this speaks of the states before. -/
theorem agrees_iff_noSelfAssign (env : Env) {l : List (Op × Process × Reference)}
    (hrun : Run (lockstep (step env) (Reference.next env)) (.init, .init) l) :
    States (fun st => Agrees st.1 st.2) (.init, .init) l ↔
      Steps (fun st op => NoSelfAssign st.1 op) (.init, .init) l := by
  have hcounted : ∀ {st op st'}, Counted env st.1 st.2 →
      lockstep (step env) (Reference.next env) st op = some st' →
      Counted env st'.1 st'.2 := by
    intro st op st' h hs
    obtain ⟨hs, he⟩ := lockstep_eq_some.mp hs
    rw [he]
    exact h.next hs
  refine hrun.states_iff (I := fun st => Counted env st.1 st.2) (init_counted env)
    ((init_counted env).agrees_iff.mpr init_matches) hcounted ?_
  intro st op st' hI hP hs
  have hm : Matches st.1 st.2 := hP.references
  rw [(hcounted hI hs).agrees_iff]
  obtain ⟨hs, he⟩ := lockstep_eq_some.mp hs
  rw [he]
  constructor
  · exact hm.noSelfAssign hs
  · exact hm.next hI.consistent hs

/-- Copies, a specialized one among them, and an interface pointer that outlives them. -/
def copies : List Op :=
  oneInstance ++ [.copyConstruct 1 ["I"] 0, .clear 0, .assign 0 1, .assign 1 0, .destroy 1,
    .queryInterfaceSharedPtr 0 0 "I", .destroy 0, .dropShared 0]

example : (history (step sharedName) init copies).length = copies.length := by decide

theorem agrees_copies :
    States (fun st => Agrees st.1 st.2) (.init, .init)
      (history (lockstep (step sharedName) (Reference.next sharedName)) (.init, .init) copies) :=
  (agrees_iff_noSelfAssign sharedName
    (history_run (lockstep (step sharedName) (Reference.next sharedName)) (.init, .init)
      copies)).mpr (by decide)

/-- A variable that is assigned to itself loses its instance. -/
theorem not_agrees_selfAssign :
    ¬ ∀ st, Reachable (lockstep (step sharedName) (Reference.next sharedName)) (.init, .init) st →
      Agrees st.1 st.2 := by
  intro h
  have hagrees := h _ ⟨_, history_run (lockstep (step sharedName) (Reference.next sharedName))
    (.init, .init) (oneInstance ++ [.assign 0 0]), rfl⟩
  exact absurd (hagrees.references.plugins 0) (by decide)

end Process

end GzPlugin
