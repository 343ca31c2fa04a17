import GzPlugin.References

/-!
# Operations and the lives of instances

What an operation does to the instances: it makes one, or it ends the one that nobody refers
to any more. From this follow the invariant of the process, and where references come from.
-/

namespace GzPlugin

open FiniteMaps

set_option autoImplicit false

namespace Process

variable {env : Env} {p p' p'' : Process} {op : World.Op} {v u : Var} {pl other : Plugin}

/-! ### What an operation does to the instances -/

def creates (env : Env) (p : Process) : Op → Option Nat
  | .instantiate _ _ s instance_ =>
    (p.world.instantiate env s instance_).1.loadedInstancePtr.map (·.block)
  | _ => none

/-- The operation takes the branch that should never be taken. -/
def Fails (p : Process) : Op → Prop
  | .lock _ x => ∃ weak ∈ p.weaks.lookup x, p.lockFails weak
  | .pluginFromThis _ block => ∃ weak ∈ p.fromThis.lookup block, p.lockFails weak
  | _ => False

/-- `Instantiate` made an instance and its wrapper `weak`. -/
structure Made (p : Process) (v : Var) (block : Nat) (weak : WeakPluginPtr) (p' : Process) :
    Prop where
  beyond : p.world.next ≤ block
  next : p'.world.next = block + 1
  instances : ∃ ptr info i, weak = ⟨some ptr, some info⟩ ∧ ptr.block = block ∧ ptr.get ≠ 0 ∧
    i.deleter = info.info.deleter ∧
    p'.world.instances = p.world.instances.insert block i
  bound : ∃ pl, pl.weak = weak ∧ p'.plugins = p.plugins.insert v pl
  shared : p'.shared = p.shared
  fromThis : p'.fromThis = p.fromThis ∨ p'.fromThis = p.fromThis.insert block weak
  log : p'.log = p.log

inductive Effect (env : Env) (p : Process) (op : Op) (p' : Process) : Prop where
  | released (hmade : p.creates env op = none) (h : Released (p.Fails op) p p')
      (hheld : ∀ block, p'.InstanceHeld block → p.InstanceHeld block)
  | made (v : Var) (block : Nat) (weak : WeakPluginPtr) (hmade : p.creates env op = some block)
      (hbound : p.rebinds env op = some (v, some weak)) (hv : v ∉ p.plugins) (hop : ¬ p.Fails op)
      (h : Made p v block weak p')

theorem Idle.newPlugin (h : Idle p p') (hp : Consistent env p) (hv : v ∉ p.plugins)
    (hplugins : p'.plugins = p.plugins.insert v pl) (hshared : p'.shared = p.shared)
    (href : ∀ block, RefersTo block pl → p.InstanceHeld block) :
    Released False p p' ∧ ∀ block, p'.InstanceHeld block → p.InstanceHeld block := by
  have hheld : ∀ block, p'.InstanceHeld block ↔ RefersTo block pl ∨ p.InstanceHeld block := by
    intro block
    rw [instanceHeld_of_insert hplugins hshared, instanceHeld_iff_elsewhere hv]
  constructor
  · exact h.released hp fun block hh => (hheld block).mpr (Or.inr hh)
  · intro block hh
    rcases (hheld block).mp hh with hh | hh
    · exact href block hh
    · exact hh

theorem share_released (h : Consistent env p) {i : Nat} (hi : i ∉ p.shared)
    {instance_ : Option InstancePtr} (href : ∀ ptr ∈ instance_, p.InstanceHeld ptr.block) :
    Released False p (p.share i instance_) ∧
      ∀ block, (p.share i instance_).InstanceHeld block → p.InstanceHeld block := by
  cases instance_ with
  | none => exact ⟨(Idle.refl p).released h fun _ => id, fun _ => id⟩
  | some ptr =>
    have hheld : ∀ block, (p.share i (some ptr)).InstanceHeld block ↔
        ptr.block = block ∨ p.InstanceHeld block := by
      intro block
      unfold InstanceHeld share
      rw [has_insert, ← has_of_not_mem hi]
      exact or_left_comm
    have hidle : Idle p (p.share i (some ptr)) := ⟨rfl, Nat.le_refl _, rfl, .refl _⟩
    constructor
    · exact hidle.released h fun block hh => (hheld block).mpr (Or.inr hh)
    · intro block hh
      rcases (hheld block).mp hh with rfl | hh
      · exact href ptr rfl
      · exact hh

theorem Released.fail (h : Released False p p') :
    Released True p { p' with log := p'.log ++ [.infoNull] } where
  instances := h.instances
  fromThis := h.fromThis
  tally block := by
    rw [← h.tally]
    simp [Process.tally, deleterRuns, Event.endsInstance]
  next := h.next
  infoNull := by simp

theorem lock_released (h : Consistent env p) (hv : v ∉ p.plugins) (weak : WeakPluginPtr) :
    Released (p.lockFails weak) p (p.lock env v weak) ∧
      ∀ block, (p.lock env v weak).InstanceHeld block → p.InstanceHeld block := by
  have hnew : ∀ pl : Plugin, pl.loadedInstancePtr = p.lockInstance weak →
      Released False p (p.setPlugin v pl) ∧
        ∀ block, (p.setPlugin v pl).InstanceHeld block → p.InstanceHeld block := by
    intro pl hpl
    refine (setPlugin_idle p v pl).newPlugin h hv rfl rfl ?_
    rintro block ⟨ptr, hptr, rfl⟩
    rw [hpl] at hptr
    exact (h.alive ptr.block).mp (of_decide_eq_true (Option.filter_eq_some_iff.mp hptr).2)
  obtain ⟨hrel, hheld⟩ := hnew (p.lockedPlugin env weak) rfl
  unfold lock
  simp only
  split
  · rename_i hf
    rw [hf, eq_self_iff_true]
    exact ⟨hrel.fail, hheld⟩
  · rename_i hf
    rw [eq_false hf]
    exact ⟨hrel, hheld⟩

theorem assign_held (hl : p.plugins.lookup v = some pl) (hu : u ∈ p.plugins) :
    (∀ block, (p.assign v u).InstanceHeld block ↔ p.InstanceHeldElsewhere v block) ∧
      ∀ addr, (p.assign v u).InfoHeld addr ↔ p.InfoHeldElsewhere v addr := by
  obtain ⟨new, hplugins, hnew⟩ := assign_plugins hl hu
  obtain ⟨other, ho⟩ := Finmap.mem_iff.mp hu
  have hsource : new.weak = ⟨none, none⟩ ∨ u ≠ v ∧ new.weak = other.weak := by
    by_cases huv : u = v
    · rw [if_pos huv] at hnew
      exact Or.inl (Option.some.inj hnew)
    · rw [if_neg huv, ref_eq ho] at hnew
      exact Or.inr ⟨huv, Option.some.inj hnew⟩
  constructor
  · intro block
    rw [instanceHeld_of_insert hplugins (assign_shared p v u)]
    refine or_iff_right_of_imp ?_
    rintro ⟨ptr, hptr, hb⟩
    change ptr ∈ new.weak.instance_ at hptr
    rcases hsource with he | ⟨huv, he⟩
    · rw [he] at hptr
      cases hptr
    · rw [he] at hptr
      exact Or.inl ⟨u, other, ho, huv, ptr, hptr, hb⟩
  · intro addr
    have himpl : (p.assign v u).world.impl = p.world.impl := by
      rw [assign_world, clear_impl]
    rw [infoHeld_of_insert hplugins himpl]
    refine or_iff_right_of_imp ?_
    rintro ⟨ptr, hptr, hb⟩
    change ptr ∈ new.weak.info at hptr
    rcases hsource with he | ⟨huv, he⟩
    · rw [he] at hptr
      cases hptr
    · rw [he] at hptr
      exact Or.inl ⟨u, other, ho, huv, ptr, hptr, hb⟩

theorem assign_released (h : Consistent env p) (hl : p.plugins.lookup v = some pl)
    (hu : u ∈ p.plugins) : Released False p (p.assign v u) := by
  have hheld := (assign_held hl hu).1
  obtain ⟨new, he, _⟩ := assign_eq hl hu
  rw [he] at hheld ⊢
  refine (clear_released h hl).idle_right (setPlugin_idle _ v new) ?_
  intro block
  rw [hheld, instanceHeld_of_insert_none (clear_plugins hl) (clear_shared p v) rfl]

theorem dropShared_released (h : Consistent env p) {i : Nat} (hi : i ∈ p.shared) :
    Released False p (p.dropShared i) ∧
      ∀ block, (p.dropShared i).InstanceHeld block → p.InstanceHeld block := by
  obtain ⟨ptr, hptr⟩ := Finmap.mem_iff.mp hi
  have hidle : Idle p { p with shared := p.shared.erase i } :=
    ⟨rfl, Nat.le_refl _, rfl, .refl _⟩
  have hwith : ({ p with shared := p.shared.erase i } : Process).AliveWith (some ptr) := by
    intro block
    refine (h.alive block).trans ?_
    unfold InstanceHeld
    rw [has_of_lookup hptr, has_erase]
    constructor
    · rintro (hh | hh | hh)
      · exact Or.inl (Or.inl hh)
      · exact Or.inr ⟨ptr, rfl, hh⟩
      · exact Or.inl (Or.inr hh)
    · rintro ((hh | hh) | ⟨_, ⟨⟩, hh⟩)
      · exact Or.inl hh
      · exact Or.inr (Or.inr hh)
      · exact Or.inr (Or.inl hh)
  have hdrop : p.dropShared i =
      ({ p with shared := p.shared.erase i } : Process).releaseInstance (some ptr) := by
    rw [dropShared, hptr]
  rw [hdrop]
  constructor
  · exact (releaseInstance_released hwith h.this_alive).idle_left hidle
  · intro block hh
    rw [instanceHeld_congr (releaseInstance_plugins _ _) (releaseInstance_shared _ _)] at hh
    exact hh.imp_right Has.of_erase

theorem loader_released (h : Consistent env p) (hon : OnLoader op)
    (hen : p.world.Enabled env op) : Released False p (p.loader env op) ∧
      ∀ block, (p.loader env op).InstanceHeld block → p.InstanceHeld block := by
  have hframe := loader_frame env p op
  have hworld := loader_world env p op
  obtain ⟨hinst, hnext⟩ :=
    World.loader_instances h.sound hon (World.step_eq_some.mpr ⟨hen, rfl⟩)
  have hidle : Idle p (p.loader env op) :=
    ⟨by rw [hworld, hinst], by rw [hworld]; exact hnext, hframe.fromThis, hframe.log⟩
  have hheld : ∀ block, (p.loader env op).InstanceHeld block ↔ p.InstanceHeld block :=
    fun block => instanceHeld_congr hframe.plugins hframe.shared
  exact ⟨hidle.released h fun block => (hheld block).mpr, fun block => (hheld block).mp⟩

theorem instantiate_effect (h : Consistent env p) {specInterfaces : List String} {s : String}
    {instance_ : Ptr} (hv : v ∉ p.plugins) (hne : instance_ ≠ 0) :
    Effect env p (.instantiate v specInterfaces s instance_)
      (p.instantiate env v specInterfaces s instance_) := by
  obtain ⟨new, fromThis, he, hnew, hthis⟩ := instantiate_eq env p v specInterfaces s instance_
  rw [he]
  rcases World.instantiate_cases h.sound s instance_ with
    ⟨hempty, hinst, hnext⟩ | ⟨block, info, i, hle, hdel, hmade, hmake⟩
  · rw [hempty] at hnew hthis
    have hnone : new.loadedInstancePtr = none := congrArg WeakPluginPtr.instance_ hnew
    have hsame : fromThis = p.fromThis := by
      rcases hthis with hsame | ⟨ptr, hptr, _⟩
      · exact hsame
      · cases hptr
    have hidle : Idle p { p with
        world := (p.world.instantiate env s instance_).2
        plugins := p.plugins.insert v new
        fromThis := fromThis } := ⟨hinst, hnext, hsame, .refl _⟩
    obtain ⟨hrel, hheld⟩ := hidle.newPlugin h hv rfl rfl
      (fun block hr => absurd hr (not_refersTo hnone))
    exact .released (by rw [creates, hempty]; rfl) hrel hheld
  · have hweak : (p.world.instantiate env s instance_).1.weak =
        ⟨some ⟨block, instance_⟩, some info⟩ := by
      rw [hmade]
      rfl
    refine .made v block _ (by rw [creates, hmade]; rfl) rfl hv id ?_
    refine ⟨hle, by rw [hmake], ⟨⟨block, instance_⟩, info, i, hweak, rfl, hne, hdel, by rw [hmake]⟩,
      ⟨new, hnew, rfl⟩, rfl, ?_, rfl⟩
    rcases hthis with hsame | ⟨ptr, hptr, hthis⟩
    · exact Or.inl hsame
    · rw [hmade] at hptr
      cases hptr
      exact Or.inr hthis

theorem plugin_held (p : Process) (v : Var) :
    ∀ ptr ∈ (p.plugins.lookup v).bind (·.loadedInstancePtr), p.InstanceHeld ptr.block := by
  intro ptr hptr
  obtain ⟨pl, hl, hinst⟩ := Option.bind_eq_some_iff.mp hptr
  exact Or.inl ⟨v, pl, hl, ptr, hinst, rfl⟩

theorem queried_held (p : Process) (v : Var) (interface : String) :
    ∀ ptr ∈ p.queried v interface, p.InstanceHeld ptr.block := by
  intro ptr hptr
  obtain ⟨pl, hl, hquery⟩ := Option.bind_eq_some_iff.mp hptr
  split at hquery
  · obtain ⟨ptr', hinst, rfl⟩ := Option.map_eq_some_iff.mp hquery
    exact Or.inl ⟨v, pl, hl, ptr', hinst, rfl⟩
  · cases hquery

theorem lock_effect {op : Op} {weak : WeakPluginPtr} (h : Consistent env p) (hv : v ∉ p.plugins)
    (hop : p.creates env op = none) (hfails : p.Fails op = p.lockFails weak) :
    Effect env p op (p.lock env v weak) := by
  obtain ⟨hrel, hheld⟩ := lock_released h hv weak
  exact .released hop (hfails ▸ hrel) hheld

theorem step_effect {op : Op} (h : Consistent env p) (hs : step env p op = some p') :
    Effect env p op p' := by
  obtain ⟨hen, rfl⟩ := step_eq_some.mp hs
  have hsame : ∀ {q : Process}, Idle p q → q.plugins = p.plugins → q.shared = p.shared →
      Released False p q ∧ ∀ block, q.InstanceHeld block → p.InstanceHeld block := by
    intro q hidle hplugins hshared
    have hheld : ∀ block, q.InstanceHeld block ↔ p.InstanceHeld block :=
      fun block => instanceHeld_congr hplugins hshared
    exact ⟨hidle.released h fun block => (hheld block).mpr, fun block => (hheld block).mp⟩
  cases op with
  | loader op =>
    obtain ⟨hrel, hheld⟩ := loader_released h hen.1 hen.2
    exact .released rfl hrel hheld
  | construct v specInterfaces =>
    obtain ⟨hrel, hheld⟩ := (setPlugin_idle p v (Plugin.specialized specInterfaces)).newPlugin h
      hen rfl rfl (fun block hr => absurd hr (not_refersTo (by simp)))
    exact .released rfl hrel hheld
  | copyConstruct v specInterfaces u =>
    obtain ⟨other, ho⟩ := Finmap.mem_iff.mp hen.2
    obtain ⟨new, he, hnew⟩ := copyConstruct_eq p v specInterfaces ho
    have href : ∀ block, RefersTo block new → p.InstanceHeld block := by
      rintro block ⟨ptr, hptr, hb⟩
      rw [show new.loadedInstancePtr = other.loadedInstancePtr from
        congrArg WeakPluginPtr.instance_ hnew] at hptr
      exact Or.inl ⟨u, other, ho, ptr, hptr, hb⟩
    obtain ⟨hrel, hheld⟩ := (setPlugin_idle p v new).newPlugin h hen.1 rfl rfl href
    rw [after, he]
    exact .released rfl hrel hheld
  | instantiate v specInterfaces s instance_ => exact instantiate_effect h hen.1 hen.2.2
  | assign v u =>
    obtain ⟨pl, hl⟩ := Finmap.mem_iff.mp hen.1
    refine .released rfl (assign_released h hl hen.2) ?_
    intro block hh
    exact (((assign_held hl hen.2).1 block).mp hh).held
  | clear v =>
    obtain ⟨pl, hl⟩ := Finmap.mem_iff.mp hen
    refine .released rfl (clear_released h hl) ?_
    intro block hh
    exact ((instanceHeld_of_insert_none (clear_plugins hl) (clear_shared p v) rfl).mp hh).held
  | destroy v =>
    obtain ⟨pl, hl⟩ := Finmap.mem_iff.mp hen
    refine .released rfl (destroy_released h hl) ?_
    intro block hh
    exact ((instanceHeld_of_erase (destroy_plugins hl) (destroy_shared p v)).mp hh).held
  | queryInterfaceSharedPtr i v interface =>
    obtain ⟨hrel, hheld⟩ := share_released h hen.1 (p.queried_held v interface)
    rw [after, queryInterfaceSharedPtr_eq]
    exact .released rfl hrel hheld
  | shareInstance i v =>
    obtain ⟨hrel, hheld⟩ := share_released h hen.1 (p.plugin_held v)
    rw [after, shareInstance_eq]
    exact .released rfl hrel hheld
  | dropShared i =>
    obtain ⟨hrel, hheld⟩ := dropShared_released h hen
    exact .released rfl hrel hheld
  | assignWeak x v =>
    obtain ⟨pl, hl⟩ := Finmap.mem_iff.mp hen
    obtain ⟨hrel, hheld⟩ := hsame (q := { p with weaks := p.weaks.insert x pl.weak })
      ⟨rfl, Nat.le_refl _, rfl, .refl _⟩ rfl rfl
    rw [after, assignWeak_eq p x hl]
    exact .released rfl hrel hheld
  | dropWeak x =>
    obtain ⟨hrel, hheld⟩ := hsame (q := { p with weaks := p.weaks.erase x })
      ⟨rfl, Nat.le_refl _, rfl, .refl _⟩ rfl rfl
    exact .released rfl hrel hheld
  | lock v x =>
    obtain ⟨weak, hw⟩ := Finmap.mem_iff.mp hen.2
    simp only [after, hw]
    exact lock_effect h hen.1 rfl (by simp [Fails, hw])
  | pluginFromThis v block =>
    obtain ⟨weak, hw⟩ := Finmap.mem_iff.mp hen.2
    simp only [after, hw]
    exact lock_effect h hen.1 rfl (by simp [Fails, hw])

namespace Made

variable {block : Nat} {weak : WeakPluginPtr}

theorem instanceHeld (h : Made p v block weak p') (hv : v ∉ p.plugins) (b : Nat) :
    p'.InstanceHeld b ↔ b = block ∨ p.InstanceHeld b := by
  obtain ⟨pl, hpl, hplugins⟩ := h.bound
  obtain ⟨ptr, info, i, hweak, hb, _, _, _⟩ := h.instances
  rw [instanceHeld_of_insert hplugins h.shared, instanceHeld_iff_elsewhere hv]
  have hinst : pl.loadedInstancePtr = some ptr :=
    congrArg WeakPluginPtr.instance_ (hpl.trans hweak)
  simp [RefersTo, hinst, hb, eq_comm]

theorem mem_instances (h : Made p v block weak p') (b : Nat) :
    b ∈ p'.world.instances ↔ b = block ∨ b ∈ p.world.instances := by
  obtain ⟨_, _, i, _, _, _, _, hinst⟩ := h.instances
  rw [hinst, Finmap.mem_insert]

theorem not_mem (h : Made p v block weak p') (hp : Consistent env p) :
    block ∉ p.world.instances :=
  fun hm => Nat.not_lt.mpr h.beyond (hp.lt_next hm)

theorem tally (h : Made p v block weak p') (hp : Consistent env p) (b : Nat) :
    p'.tally b = p.tally b + if b = block then 1 else 0 := by
  unfold Process.tally deleterRuns
  rw [h.log, if_congr (h.mem_instances b) rfl rfl]
  by_cases hb : b = block
  · simp [hb, h.not_mem hp]
  · simp [hb]

theorem consistent (h : Made p v block weak p') (hp : Consistent env p) (hv : v ∉ p.plugins)
    (hsound : World.Sound env p'.world) : Consistent env p' where
  sound := hsound
  alive b := by rw [h.mem_instances, h.instanceHeld hv, hp.alive]
  fromThis {b weak'} hl := by
    rw [h.mem_instances]
    rcases h.fromThis with he | he
    · rw [he] at hl
      obtain ⟨hm, hptr⟩ := hp.fromThis hl
      exact ⟨Or.inr hm, hptr⟩
    · rw [he, lookup_insert_eq] at hl
      split at hl
      · rename_i hb
        cases hl
        obtain ⟨ptr, info, i, hweak, hblock, _, _, _⟩ := h.instances
        exact ⟨Or.inl hb, ptr, by rw [hweak]; rfl, hblock.trans hb.symm⟩
      · obtain ⟨hm, hptr⟩ := hp.fromThis hl
        exact ⟨Or.inr hm, hptr⟩
  fresh {b} hle := by
    rw [h.next] at hle
    rw [h.tally hp, hp.fresh (h.beyond.trans (Nat.le_of_succ_le hle)), if_neg]
    exact Nat.ne_of_gt hle

end Made

theorem step_consistent {op : Op} (h : Consistent env p) (hs : step env p op = some p') :
    Consistent env p' := by
  have hsound := step_sound h.sound hs
  cases step_effect h hs with
  | released _ hrel hheld => exact hrel.consistent h hsound hheld
  | made v block weak _ _ hv _ hm => exact hm.consistent h hv hsound

theorem step_impl {op : Op} (h : World.Sound env p.world) (hop : ∀ o, op ≠ .loader o)
    (hs : step env p op = some p') : p'.world.impl = p.world.impl := by
  obtain ⟨hen, rfl⟩ := step_eq_some.mp hs
  have hrefers : op.OnlyRefers → (p.after env op).world.impl = p.world.impl := fun ho =>
    congrArg World.impl (after_refers env p ho).world
  cases op with
  | loader op => exact absurd rfl (hop op)
  | instantiate v specInterfaces s instance_ =>
    obtain ⟨new, fromThis, he, _⟩ := instantiate_eq env p v specInterfaces s instance_
    rw [after, he]
    exact (World.instantiate_quiet env s instance_ h.linked).1.impl
  | assign v u => rw [after, assign_world, clear_impl]
  | clear v => exact clear_impl p v
  | destroy v => exact destroy_impl p v
  | dropShared i => exact releaseInstance_impl _ _
  | _ => exact hrefers trivial

theorem step_next_le {op : Op} (h : Consistent env p) (hs : step env p op = some p') :
    p.world.next ≤ p'.world.next := by
  cases step_effect h hs with
  | released _ hrel _ => exact hrel.next
  | made v block weak _ _ _ _ hm =>
    rw [hm.next]
    exact hm.beyond.trans (Nat.le_succ block)

theorem step_old_instance {op : Op} {block : Nat} {i : PluginWithDlHandle}
    (h : Consistent env p) (hs : step env p op = some p') (hlt : block < p.world.next)
    (hi : p'.world.instances.lookup block = some i) : p.world.instances.lookup block = some i := by
  cases step_effect h hs with
  | released _ hrel _ =>
    rw [hrel.instances] at hi
    split at hi
    · exact hi
    · cases hi
  | made v new weak _ _ _ _ hm =>
    obtain ⟨_, _, j, _, _, _, _, hinst⟩ := hm.instances
    rw [hinst, Finmap.lookup_insert_of_ne] at hi
    · exact hi
    · rintro rfl
      exact absurd hm.beyond (Nat.not_le.mpr hlt)

theorem step_old_mem {op : Op} {block : Nat} (h : Consistent env p)
    (hs : step env p op = some p') (hlt : block < p.world.next)
    (hm : block ∈ p'.world.instances) : block ∈ p.world.instances := by
  obtain ⟨i, hi⟩ := Finmap.mem_iff.mp hm
  exact Finmap.mem_of_lookup_eq_some (step_old_instance h hs hlt hi)

/-! ### Where references come from -/

/-- A weak pointer refers to that: one of the user, or the one inside an instance. -/
def Recorded (p : Process) (weak : WeakPluginPtr) : Prop :=
  (∃ x, p.weaks.lookup x = some weak) ∨ ∃ block, p.fromThis.lookup block = some weak

theorem rebinds_cases {op : Op} {weak : WeakPluginPtr} (h : Consistent env p)
    (hs : step env p op = some p') (hr : p.rebinds env op = some (v, some weak)) :
    weak = ⟨none, none⟩ ∨ (∃ u, p.ref u = some weak) ∨
      (∃ w, p.Recorded w ∧ weak = p.locked w) ∨ ∃ block, Made p v block weak p' := by
  cases op with
  | construct v specInterfaces =>
    cases hr
    exact Or.inl rfl
  | copyConstruct v specInterfaces u =>
    simp only [rebinds, Option.some.injEq, Prod.mk.injEq] at hr
    exact Or.inr (Or.inl ⟨u, hr.2⟩)
  | instantiate v specInterfaces s instance_ =>
    cases step_effect h hs with
    | released hmade _ _ =>
      left
      simp only [rebinds, Option.some.injEq, Prod.mk.injEq] at hr
      rcases World.instantiate_cases h.sound s instance_ with
        ⟨hempty, _, _⟩ | ⟨block, info, i, _, _, hmake, _⟩
      · rw [← hr.2, hempty]
        rfl
      · rw [creates, hmake] at hmade
        cases hmade
    | made v' block weak' _ hbound _ _ hm =>
      rw [hr] at hbound
      cases hbound
      exact Or.inr (Or.inr (Or.inr ⟨block, hm⟩))
  | assign v u =>
    simp only [rebinds, Option.some.injEq, Prod.mk.injEq] at hr
    obtain ⟨_, hr⟩ := hr
    split at hr
    · cases hr
      exact Or.inl rfl
    · exact Or.inr (Or.inl ⟨u, hr⟩)
  | clear v =>
    cases hr
    exact Or.inl rfl
  | lock v x =>
    simp only [rebinds, Option.some.injEq, Prod.mk.injEq] at hr
    obtain ⟨w, hw, rfl⟩ := Option.map_eq_some_iff.mp hr.2
    exact Or.inr (Or.inr (Or.inl ⟨w, Or.inl ⟨x, hw⟩, rfl⟩))
  | pluginFromThis v block =>
    simp only [rebinds, Option.some.injEq, Prod.mk.injEq] at hr
    obtain ⟨w, hw, rfl⟩ := Option.map_eq_some_iff.mp hr.2
    exact Or.inr (Or.inr (Or.inl ⟨w, Or.inr ⟨block, hw⟩, rfl⟩))
  | _ => cases hr

theorem step_recorded {op : Op} {weak : WeakPluginPtr} (h : Consistent env p)
    (hs : step env p op = some p') (hr : p'.Recorded weak) :
    p.Recorded weak ∨ (∃ x u, op = .assignWeak x u ∧ p.ref u = some weak) ∨
      ∃ v block, Made p v block weak p' := by
  rcases hr with ⟨x, hx⟩ | ⟨block, hb⟩
  · have hx' : rebind (fun x => p.weaks.lookup x) (p.reweaks op) x = some weak := by
      rw [← (step_binds hs).weaks]
      exact hx
    rcases rebind_eq_some hx' with hold | hnew
    · exact Or.inl (Or.inl ⟨x, hold⟩)
    · cases op with
      | assignWeak x' u =>
        simp only [reweaks, Option.some.injEq, Prod.mk.injEq] at hnew
        exact Or.inr (Or.inl ⟨x', u, rfl, hnew.2⟩)
      | _ => cases hnew
  · cases step_effect h hs with
    | released _ hrel _ =>
      rw [hrel.fromThis] at hb
      split at hb
      · exact Or.inl (Or.inr ⟨block, hb⟩)
      · cases hb
    | made v new w _ _ _ _ hm =>
      rcases hm.fromThis with he | he
      · rw [he] at hb
        exact Or.inl (Or.inr ⟨block, hb⟩)
      · rw [he, lookup_insert_eq] at hb
        split at hb
        · cases hb
          exact Or.inr (Or.inr ⟨v, new, hm⟩)
        · exact Or.inl (Or.inr ⟨block, hb⟩)

/-- Everything that variables and weak pointers refer to satisfies `Q`. -/
structure AllRefs (Q : WeakPluginPtr → Prop) (p : Process) : Prop where
  plugins : ∀ {v weak}, p.ref v = some weak → Q weak
  recorded : ∀ {weak}, p.Recorded weak → Q weak

theorem init_allRefs (Q : WeakPluginPtr → Prop) : AllRefs Q init where
  plugins h := by simp [ref, init] at h
  recorded h := by simp [Recorded, init] at h

/-- To keep a property of all references, show it of the empty one, of what a lock gives and
of a new instance, and that the step keeps it of the old ones. -/
theorem AllRefs.next {op : Op} {Q Q' : WeakPluginPtr → Prop} (hall : AllRefs Q p)
    (h : Consistent env p) (hs : step env p op = some p') (hempty : Q' ⟨none, none⟩)
    (hold : ∀ weak, Q weak → Q' weak)
    (hlock : ∀ weak, p.Recorded weak → Q weak → Q' (p.locked weak))
    (hmade : ∀ v block weak, Made p v block weak p' → Q' weak) : AllRefs Q' p' where
  plugins {v weak} hr := by
    rw [(step_binds hs).ref] at hr
    rcases rebind_eq_some hr with hr | hr
    · exact hold weak (hall.plugins hr)
    · rcases rebinds_cases h hs hr with rfl | ⟨u, hu⟩ | ⟨w, hw, rfl⟩ | ⟨block, hm⟩
      · exact hempty
      · exact hold weak (hall.plugins hu)
      · exact hlock w hw (hall.recorded hw)
      · exact hmade v block weak hm
  recorded {weak} hr := by
    rcases step_recorded h hs hr with hr | ⟨_, u, _, hu⟩ | ⟨v, block, hm⟩
    · exact hold weak (hall.recorded hr)
    · exact hold weak (hall.plugins hu)
    · exact hmade v block weak hm

theorem Made.of_instantiate {op : Op} {block : Nat} {weak : WeakPluginPtr}
    (hm : Made p v block weak p') (h : Consistent env p) (hs : step env p op = some p') :
    ∃ u specInterfaces s instance_, op = .instantiate u specInterfaces s instance_ := by
  cases step_effect h hs with
  | released _ hrel _ =>
    obtain ⟨i, hi⟩ := Finmap.mem_iff.mp ((hm.mem_instances block).mpr (Or.inl rfl))
    rw [hrel.instances] at hi
    split at hi
    · exact absurd (Finmap.mem_of_lookup_eq_some hi) (hm.not_mem h)
    · cases hi
  | made _ _ _ hmade _ _ _ _ =>
    cases op with
    | instantiate u specInterfaces s instance_ => exact ⟨_, _, _, _, rfl⟩
    | _ => cases hmade

/-- The same, where the property of a new wrapper is shown of what `Instantiate` returns. -/
theorem AllRefs.next_of_instantiate {op : Op} {Q Q' : WeakPluginPtr → Prop} (hall : AllRefs Q p)
    (h : Consistent env p) (hs : step env p op = some p') (hempty : Q' ⟨none, none⟩)
    (hold : ∀ weak, Q weak → Q' weak)
    (hlock : ∀ weak, p.Recorded weak → Q weak → Q' (p.locked weak))
    (hnew : ∀ u specInterfaces s instance_, op = .instantiate u specInterfaces s instance_ →
      Q' (p.world.instantiate env s instance_).1.weak) : AllRefs Q' p' := by
  have hplugins : ∀ {v weak}, p'.ref v = some weak → Q' weak := by
    intro v weak hr
    rw [(step_binds hs).ref] at hr
    rcases rebind_eq_some hr with hr | hr
    · exact hold weak (hall.plugins hr)
    · rcases rebinds_cases h hs hr with rfl | ⟨u, hu⟩ | ⟨w, hw, rfl⟩ | ⟨block, hm⟩
      · exact hempty
      · exact hold weak (hall.plugins hu)
      · exact hlock w hw (hall.recorded hw)
      · obtain ⟨u, specInterfaces, s, instance_, rfl⟩ := hm.of_instantiate h hs
        cases hr
        exact hnew _ _ s instance_ rfl
  refine ⟨hplugins, ?_⟩
  intro weak hr
  rcases step_recorded h hs hr with hr | ⟨_, u, _, hu⟩ | ⟨v, block, hm⟩
  · exact hold weak (hall.recorded hr)
  · exact hold weak (hall.plugins hu)
  · -- the weak pointer inside an instance is set from the wrapper it was made with
    obtain ⟨pl, hweak, hbound⟩ := hm.bound
    apply hplugins (v := v)
    rw [ref_of_insert hbound, Function.update_self, hweak]

end Process

end GzPlugin
