import GzPlugin.Operations

/-!
# What an operation of the process can do

Operations on the Loader change the world and destroy `Info` objects. The other ones change
the references and may end the instance that nobody refers to any more.
-/

namespace GzPlugin

open FiniteMaps

set_option autoImplicit false

namespace World

variable {env : Env} {w w' : World}

theorem forgetHandle_around {hd : Handle} {order : List String} (h : Sound env w)
    (hord : w.WalkedInOrder hd order) : Around w (w.forgetHandle hd order).2 := by
  cases hl : w.impl.dlHandleToPluginMap.lookup hd with
  | none =>
    rw [forgetHandle_none order hl]
    exact Around.refl w
  | some names =>
    exact (forgetHandle_some hl hord h.tables.registry h.notThrown h.linked).2.around

theorem loader_instances {op : Op} (h : Sound env w) (hop : Process.OnLoader op)
    (hs : step env w op = some w') : w'.instances = w.instances ∧ w.next ≤ w'.next := by
  obtain ⟨hen, rfl⟩ := step_eq_some.mp hs
  cases op with
  | loadLib path noDelete res infos =>
    obtain ⟨ha, hr, hvec⟩ := hen
    rcases loadLib_cases noDelete h.linked ha hr hvec with
      ⟨_, _, _, har, _⟩ | ⟨lib, hp, _, _, hl⟩
    · exact ⟨har.instances, har.next⟩
    · exact ⟨hl.around.instances, hl.around.next⟩
  | forgetLibrary path res order =>
    obtain ⟨_, hr, hord⟩ := hen
    cases res with
    | none => exact ⟨rfl, Nat.le_refl _⟩
    | some hd =>
      cases hlib : env.resolve path with
      | none => simp [NoLoadMayReturn, hlib] at hr
      | some lib =>
        simp only [NoLoadMayReturn, hlib] at hr
        have hq : Quiet env w { w with dl := (w.dl.dlopen lib hd w.next false).dlclose hd } :=
          ⟨rfl, rfl, Or.inl, rfl, rfl, Nat.le_refl _⟩
        have har := forgetHandle_around (h.of_quiet hq (noLoad_linked h.linked hr)) (hord hd rfl)
        simp only [after, forgetLibrary, hlib]
        exact ⟨har.instances, har.next⟩
  | forgetLibraryOfPlugin s order =>
    obtain ⟨_, hord⟩ := hen
    simp only [after, forgetLibraryOfPlugin]
    split
    · exact ⟨rfl, Nat.le_refl _⟩
    · rename_i hp hsome
      have har := forgetHandle_around h (hord hp hsome)
      exact ⟨har.instances, har.next⟩
  | instantiate s instance_ => exact absurd hop id
  | destroyInstance block => exact absurd hop id
  | destroyLoader order =>
    obtain ⟨_, _, _, hinst, _, _, hnext⟩ := destroyLoader_spec h.linked hen.2
    exact ⟨hinst, hnext⟩
  | otherOpen lib hd => exact ⟨rfl, Nat.le_succ _⟩
  | otherClose hd => exact ⟨rfl, Nat.le_refl _⟩

theorem instantiate_cases (h : Sound env w) (s : String) (instance_ : Ptr) :
    ((w.instantiate env s instance_).1 = Plugin.empty ∧
      (w.instantiate env s instance_).2.instances = w.instances ∧
      w.next ≤ (w.instantiate env s instance_).2.next) ∨
    ∃ block info i, w.next ≤ block ∧ i.deleter = info.info.deleter ∧
      (w.instantiate env s instance_).1 = Plugin.made env.cast block instance_ info ∧
      (w.instantiate env s instance_).2 =
        { w with instances := w.instances.insert block i, next := block + 1 } := by
  cases h.resolution s with
  | file ptr hp _ _ _ hmade hworld =>
    exact Or.inr ⟨_, ptr, _, Nat.le_refl _, rfl, hmade _, hworld _⟩
  | stale _ _ hmade hworld =>
    rw [hmade, hworld]
    exact Or.inl ⟨rfl, rfl, Nat.le_succ _⟩
  | static info _ _ _ hmade hworld =>
    exact Or.inr ⟨_, _, _, Nat.le_succ _, rfl, hmade _, hworld _⟩
  | missing _ _ hmade hworld =>
    rw [hmade, hworld]
    exact Or.inl ⟨rfl, rfl, Nat.le_refl _⟩

end World

def Event.endsInstance (block : Nat) : Event → Bool
  | .deleterRun b _ => b = block
  | _ => false

namespace Process

variable {env : Env} {p p' p'' : Process} {v u : Var} {pl other : Plugin} {block addr : Nat}
  {fails : Prop}

/-! ### References -/

def InstanceHeldElsewhere (p : Process) (v : Var) (block : Nat) : Prop :=
  Has (fun u pl => u ≠ v ∧ RefersTo block pl) p.plugins ∨
    Has (fun _ ptr => ptr.block = block) p.shared

instance (p : Process) (v : Var) (block : Nat) : Decidable (p.InstanceHeldElsewhere v block) := by
  unfold InstanceHeldElsewhere; infer_instance

def InfoHeldElsewhere (p : Process) (v : Var) (addr : Nat) : Prop :=
  Has (fun u pl => u ≠ v ∧ RefersToInfo addr pl) p.plugins ∨
    Has (fun _ ptr => ptr.addr = addr) p.world.impl.filePlugins.plugins

instance (p : Process) (v : Var) (addr : Nat) : Decidable (p.InfoHeldElsewhere v addr) := by
  unfold InfoHeldElsewhere; infer_instance

theorem instanceHeld_iff (h : p.plugins.lookup v = some pl) :
    p.InstanceHeld block ↔ RefersTo block pl ∨ p.InstanceHeldElsewhere v block := by
  unfold InstanceHeld InstanceHeldElsewhere
  rw [has_of_lookup h, or_assoc]

theorem instanceHeld_iff_elsewhere (h : v ∉ p.plugins) :
    p.InstanceHeld block ↔ p.InstanceHeldElsewhere v block := by
  unfold InstanceHeld InstanceHeldElsewhere
  rw [has_of_not_mem h]

theorem InstanceHeldElsewhere.held (h : p.InstanceHeldElsewhere v block) :
    p.InstanceHeld block :=
  h.imp_left fun h => h.imp fun _ _ h => h.2

theorem instanceHeld_of_insert (hplugins : p'.plugins = p.plugins.insert v pl)
    (hshared : p'.shared = p.shared) :
    p'.InstanceHeld block ↔ RefersTo block pl ∨ p.InstanceHeldElsewhere v block := by
  unfold InstanceHeld InstanceHeldElsewhere
  rw [hplugins, hshared, has_insert, or_assoc]

theorem infoHeld_of_insert (hplugins : p'.plugins = p.plugins.insert v pl)
    (himpl : p'.world.impl = p.world.impl) :
    p'.InfoHeld addr ↔ RefersToInfo addr pl ∨ p.InfoHeldElsewhere v addr := by
  unfold InfoHeld InfoHeldElsewhere
  rw [hplugins, himpl, has_insert, or_assoc]

theorem instanceHeld_of_erase (hplugins : p'.plugins = p.plugins.erase v)
    (hshared : p'.shared = p.shared) :
    p'.InstanceHeld block ↔ p.InstanceHeldElsewhere v block := by
  unfold InstanceHeld InstanceHeldElsewhere
  rw [hplugins, hshared, has_erase]

theorem infoHeld_of_erase (hplugins : p'.plugins = p.plugins.erase v)
    (himpl : p'.world.impl = p.world.impl) :
    p'.InfoHeld addr ↔ p.InfoHeldElsewhere v addr := by
  unfold InfoHeld InfoHeldElsewhere
  rw [hplugins, himpl, has_erase]

theorem instanceHeld_congr (hplugins : p'.plugins = p.plugins) (hshared : p'.shared = p.shared) :
    p'.InstanceHeld block ↔ p.InstanceHeld block := by
  unfold InstanceHeld
  rw [hplugins, hshared]

/-! ### The log -/

/-- The log has grown by ends of `Info` objects only. -/
def LogsInfos (l l' : List Event) : Prop :=
  ∃ es, l' = l ++ es ∧ ∀ e ∈ es, ∃ code held, e = .infoDestroyed code held

theorem LogsInfos.refl (l : List Event) : LogsInfos l l := ⟨[], by simp, by simp⟩

theorem LogsInfos.trans {l l' l'' : List Event} (h : LogsInfos l l') (h' : LogsInfos l' l'') :
    LogsInfos l l'' := by
  obtain ⟨es, rfl, he⟩ := h
  obtain ⟨es', rfl, he'⟩ := h'
  refine ⟨es ++ es', List.append_assoc l es es', ?_⟩
  intro e hm
  rcases List.mem_append.mp hm with hm | hm
  · exact he e hm
  · exact he' e hm

theorem destroyInfo_logs (p : Process) (info : Info CodePtr) :
    LogsInfos p.log (p.destroyInfo info).log := by
  refine ⟨_, rfl, ?_⟩
  intro e hm
  exact ⟨_, _, List.mem_singleton.mp hm⟩

theorem releaseInfo_logs (p : Process) (info : Option (ConstInfoPtr CodePtr)) :
    LogsInfos p.log (p.releaseInfo info).log := by
  unfold releaseInfo
  split
  · exact .refl _
  split
  · exact .refl _
  · exact destroyInfo_logs p _

def deleterRuns (p : Process) (block : Nat) : Nat := p.log.countP (Event.endsInstance block)

/-- How often the deleter of the instance has run, counting one run ahead if it is alive. -/
def tally (p : Process) (block : Nat) : Nat :=
  p.deleterRuns block + if block ∈ p.world.instances then 1 else 0

theorem LogsInfos.deleterRuns (h : LogsInfos p.log p'.log) (block : Nat) :
    p'.deleterRuns block = p.deleterRuns block := by
  obtain ⟨es, hlog, he⟩ := h
  unfold Process.deleterRuns
  rw [hlog, List.countP_append, Nat.add_eq_left, List.countP_eq_zero]
  intro e hm
  obtain ⟨code, held, rfl⟩ := he e hm
  simp [Event.endsInstance]

theorem LogsInfos.infoNull {l l' : List Event} (h : LogsInfos l l') :
    Event.infoNull ∈ l' ↔ Event.infoNull ∈ l := by
  obtain ⟨es, rfl, he⟩ := h
  rw [List.mem_append, or_iff_left]
  intro hm
  obtain ⟨code, held, he⟩ := he _ hm
  cases he

/-! ### Instances end when the last reference is gone -/

/-- No instance was made, and an instance lives on exactly if it is still referred to.
`fails` tells whether the branch that should never be taken was taken. -/
structure Released (fails : Prop) (p p' : Process) : Prop where
  instances : ∀ block, p'.world.instances.lookup block =
    if p'.InstanceHeld block then p.world.instances.lookup block else none
  fromThis : ∀ block, p'.fromThis.lookup block =
    if p'.InstanceHeld block then p.fromThis.lookup block else none
  tally : ∀ block, p'.tally block = p.tally block
  next : p.world.next ≤ p'.world.next
  infoNull : .infoNull ∈ p'.log ↔ .infoNull ∈ p.log ∨ fails

/-- Nothing that `Released` speaks of has changed. -/
structure Idle (p p' : Process) : Prop where
  instances : p'.world.instances = p.world.instances
  next : p.world.next ≤ p'.world.next
  fromThis : p'.fromThis = p.fromThis
  log : LogsInfos p.log p'.log

theorem Idle.refl (p : Process) : Idle p p := ⟨rfl, Nat.le_refl _, rfl, .refl _⟩

theorem Idle.trans (h : Idle p p') (h' : Idle p' p'') : Idle p p'' where
  instances := h'.instances.trans h.instances
  next := h.next.trans h'.next
  fromThis := h'.fromThis.trans h.fromThis
  log := h.log.trans h'.log

theorem setPlugin_idle (p : Process) (v : Var) (pl : Plugin) : Idle p (p.setPlugin v pl) :=
  ⟨rfl, Nat.le_refl _, rfl, .refl _⟩

theorem erasePlugin_idle (p : Process) (v : Var) : Idle p (p.erasePlugin v) :=
  ⟨rfl, Nat.le_refl _, rfl, .refl _⟩

theorem releaseInfo_idle (p : Process) (info : Option (ConstInfoPtr CodePtr)) :
    Idle p (p.releaseInfo info) where
  instances := by rw [releaseInfo_world]
  next := by rw [releaseInfo_world]
  fromThis := releaseInfo_fromThis p info
  log := releaseInfo_logs p info

theorem Idle.tally (h : Idle p p') (block : Nat) : p'.tally block = p.tally block := by
  unfold Process.tally
  rw [h.log.deleterRuns, h.instances]

theorem Released.idle_left (h : Idle p p') (h' : Released fails p' p'') :
    Released fails p p'' where
  instances block := by rw [h'.instances, h.instances]
  fromThis block := by rw [h'.fromThis, h.fromThis]
  tally block := (h'.tally block).trans (h.tally block)
  next := h.next.trans h'.next
  infoNull := by rw [h'.infoNull, h.log.infoNull]

theorem Released.idle_right (h : Released fails p p') (h' : Idle p' p'')
    (hheld : ∀ block, p''.InstanceHeld block ↔ p'.InstanceHeld block) :
    Released fails p p'' where
  instances block := by rw [h'.instances, h.instances, if_congr (hheld block) rfl rfl]
  fromThis block := by rw [h'.fromThis, h.fromThis, if_congr (hheld block) rfl rfl]
  tally block := (h'.tally block).trans (h.tally block)
  next := h.next.trans h'.next
  infoNull := by rw [h'.log.infoNull, h.infoNull]

/-- Every living instance is referred to, counting a reference that is about to go away. -/
def AliveWith (p : Process) (instance_ : Option InstancePtr) : Prop :=
  ∀ block, block ∈ p.world.instances ↔
    p.InstanceHeld block ∨ ∃ ptr ∈ instance_, ptr.block = block

/-- Where everything unreferred is dead already, doing nothing is a release. -/
theorem Released.refl (hgone : ∀ {block}, ¬ p.InstanceHeld block → block ∉ p.world.instances)
    (hthis : ∀ block, block ∈ p.fromThis → block ∈ p.world.instances) : Released False p p where
  instances block := by
    split
    · rfl
    · exact Finmap.lookup_eq_none.mpr (hgone ‹_›)
  fromThis block := by
    split
    · rfl
    · exact Finmap.lookup_eq_none.mpr fun hm => hgone ‹_› (hthis block hm)
  tally _ := rfl
  next := Nat.le_refl _
  infoNull := by rw [or_false]

theorem destroyInstance_released {ended : Nat} {held : Bool} (hnot : ¬ p.InstanceHeld ended)
    (hm : ended ∈ p.world.instances)
    (hgone : ∀ {block}, ¬ p.InstanceHeld block → block ≠ ended → block ∉ p.world.instances)
    (hthis : ∀ block, block ∈ p.fromThis → block ∈ p.world.instances) :
    Released False p { p with
      world := p.world.destroyInstance ended
      fromThis := p.fromThis.erase ended
      log := p.log ++ [.deleterRun ended held] } := by
  have hheld : ∀ block, ({ p with
      world := p.world.destroyInstance ended
      fromThis := p.fromThis.erase ended
      log := p.log ++ [.deleterRun ended held] } : Process).InstanceHeld block ↔
        p.InstanceHeld block := fun block => instanceHeld_congr rfl rfl
  constructor
  · intro block
    rw [if_congr (hheld block) rfl rfl]
    refine (World.destroyInstance_lookup _ _ _).trans ?_
    by_cases hb : block = ended
    · rw [if_pos hb, hb, if_neg hnot]
    · rw [if_neg hb]
      split
      · rfl
      · exact Finmap.lookup_eq_none.mpr (hgone ‹_› hb)
  · intro block
    rw [if_congr (hheld block) rfl rfl]
    refine (lookup_erase_eq _ _ _).trans ?_
    by_cases hb : block = ended
    · rw [if_pos hb, hb, if_neg hnot]
    · rw [if_neg hb]
      split
      · rfl
      · exact Finmap.lookup_eq_none.mpr fun hm => hgone ‹_› hb (hthis block hm)
  · intro block
    simp only [Process.tally, Process.deleterRuns, List.countP_append, List.countP_singleton,
      Event.endsInstance, World.mem_destroyInstance, decide_eq_true_eq]
    by_cases hb : block = ended
    · subst hb
      simp [hm]
    · simp [hb, Ne.symm hb]
  · exact (World.destroyInstance_next _ _).ge
  · simp

theorem releaseInstance_released {instance_ : Option InstancePtr} (h : p.AliveWith instance_)
    (hthis : ∀ block, block ∈ p.fromThis → block ∈ p.world.instances) :
    Released False p (p.releaseInstance instance_) := by
  rcases releaseInstance_cases p instance_ with ⟨he, hkept⟩ | ⟨ptr, i, rfl, hnot, hi, he⟩
  · rw [he]
    refine .refl ?_ hthis
    intro block hn hm
    rcases (h block).mp hm with hh | ⟨ptr, hptr, rfl⟩
    · exact hn hh
    · exact hn (hkept ptr hptr hm)
  · rw [he]
    refine destroyInstance_released hnot (Finmap.mem_of_lookup_eq_some hi) ?_ hthis
    intro block hn hne hm
    rcases (h block).mp hm with hh | ⟨_, ⟨⟩, rfl⟩
    · exact hn hh
    · exact hne rfl

/-! ### The invariant -/

structure Consistent (env : Env) (p : Process) : Prop where
  sound : World.Sound env p.world
  alive : ∀ block, block ∈ p.world.instances ↔ p.InstanceHeld block
  fromThis : ∀ {block weak}, p.fromThis.lookup block = some weak →
    block ∈ p.world.instances ∧ ∃ ptr ∈ weak.instance_, ptr.block = block
  fresh : ∀ {block}, p.world.next ≤ block → p.tally block = 0

theorem init_consistent (env : Env) : Consistent env .init where
  sound := World.init_sound env
  alive block := iff_of_false Finmap.notMem_empty (by simp [init, InstanceHeld])
  fromThis h := by simp [init] at h
  fresh {block} _ := by
    rw [tally, if_neg (show block ∉ init.world.instances from Finmap.notMem_empty)]
    rfl

theorem Consistent.this_alive (h : Consistent env p) (block : Nat)
    (hm : block ∈ p.fromThis) : block ∈ p.world.instances := by
  obtain ⟨weak, hw⟩ := Finmap.mem_iff.mp hm
  exact (h.fromThis hw).1

theorem Consistent.lt_next (h : Consistent env p) (hm : block ∈ p.world.instances) :
    block < p.world.next := by
  by_contra hn
  have hzero := h.fresh (Nat.not_lt.mp hn)
  rw [tally, if_pos hm] at hzero
  exact Nat.succ_ne_zero _ hzero

theorem Released.consistent (h : Released fails p p') (hp : Consistent env p)
    (hsound : World.Sound env p'.world)
    (hheld : ∀ block, p'.InstanceHeld block → p.InstanceHeld block) : Consistent env p' where
  sound := hsound
  alive block := by
    rw [← Finmap.lookup_isSome, h.instances]
    constructor
    · intro hm
      by_contra hn
      simp [hn] at hm
    · intro hh
      rw [if_pos hh, Finmap.lookup_isSome]
      exact (hp.alive block).mpr (hheld block hh)
  fromThis {block weak} hl := by
    rw [h.fromThis] at hl
    split at hl
    · rename_i hh
      obtain ⟨hm, hptr⟩ := hp.fromThis hl
      refine ⟨?_, hptr⟩
      rw [← Finmap.lookup_isSome, h.instances, if_pos hh, Finmap.lookup_isSome]
      exact hm
    · cases hl
  fresh hle := by
    rw [h.tally]
    exact hp.fresh (h.next.trans hle)

theorem Idle.released (h : Idle p p') (hp : Consistent env p)
    (hheld : ∀ block, p.InstanceHeld block → p'.InstanceHeld block) : Released False p p' where
  instances block := by
    rw [h.instances]
    split
    · rfl
    · rename_i hn
      exact Finmap.lookup_eq_none.mpr fun hm => hn (hheld block ((hp.alive block).mp hm))
  fromThis block := by
    rw [h.fromThis]
    split
    · rfl
    · rename_i hn
      exact Finmap.lookup_eq_none.mpr fun hm =>
        hn (hheld block ((hp.alive block).mp (hp.this_alive block hm)))
  tally := h.tally
  next := h.next
  infoNull := by rw [h.log.infoNull, or_false]

/-! ### Clearing and destroying a variable -/

theorem Consistent.aliveWith (h : Consistent env p) (hl : p.plugins.lookup v = some pl)
    (hinst : p'.world.instances = p.world.instances)
    (hheld : ∀ block, p'.InstanceHeld block ↔ p.InstanceHeldElsewhere v block) :
    p'.AliveWith pl.loadedInstancePtr := by
  intro block
  rw [hinst, h.alive, instanceHeld_iff hl, hheld]
  exact or_comm

theorem not_refersTo (h : pl.loadedInstancePtr = none) : ¬ RefersTo block pl := by
  rintro ⟨ptr, hptr, _⟩
  rw [h] at hptr
  cases hptr

theorem instanceHeld_of_insert_none (hplugins : p'.plugins = p.plugins.insert v pl)
    (hshared : p'.shared = p.shared) (hnone : pl.loadedInstancePtr = none) :
    p'.InstanceHeld block ↔ p.InstanceHeldElsewhere v block := by
  rw [instanceHeld_of_insert hplugins hshared]
  exact or_iff_right (not_refersTo hnone)

theorem infoHeld_of_insert_none (hplugins : p'.plugins = p.plugins.insert v pl)
    (himpl : p'.world.impl = p.world.impl) (hnone : pl.info = none) :
    p'.InfoHeld addr ↔ p.InfoHeldElsewhere v addr := by
  rw [infoHeld_of_insert hplugins himpl]
  refine or_iff_right ?_
  rintro ⟨ptr, hptr, _⟩
  rw [hnone] at hptr
  cases hptr

theorem clear_released (h : Consistent env p) (hl : p.plugins.lookup v = some pl) :
    Released False p (p.clear v) := by
  have hheld : ∀ block, (p.clear v).InstanceHeld block ↔ p.InstanceHeldElsewhere v block :=
    fun block => instanceHeld_of_insert_none (clear_plugins hl) (clear_shared p v) rfl
  simp only [clear, hl] at hheld ⊢
  have hfirst : ∀ block, (p.setPlugin v { pl with loadedInstancePtr := none }).InstanceHeld block ↔
      p.InstanceHeldElsewhere v block := fun block => instanceHeld_of_insert_none rfl rfl rfl
  have hrel : Released False (p.setPlugin v { pl with loadedInstancePtr := none }) _ :=
    releaseInstance_released (h.aliveWith hl rfl hfirst) h.this_alive
  refine (hrel.idle_left (setPlugin_idle p v _)).idle_right ?_ ?_
  · exact ((setPlugin_idle _ v _).trans (releaseInfo_idle _ _)).trans (setPlugin_idle _ v _)
  · intro block
    refine (hheld block).trans ((hfirst block).symm.trans ?_)
    exact (instanceHeld_congr (releaseInstance_plugins _ _) (releaseInstance_shared _ _)).symm

theorem destroy_released (h : Consistent env p) (hl : p.plugins.lookup v = some pl) :
    Released False p (p.destroy v) := by
  have hheld : ∀ block, (p.destroy v).InstanceHeld block ↔ p.InstanceHeldElsewhere v block :=
    fun block => instanceHeld_of_erase (destroy_plugins hl) (destroy_shared p v)
  simp only [destroy, hl] at hheld ⊢
  have hidle := ((setPlugin_idle p v { pl with info := none }).trans
    (releaseInfo_idle _ pl.info)).trans (erasePlugin_idle _ v)
  refine (releaseInstance_released (h.aliveWith hl hidle.instances ?_) ?_).idle_left hidle
  · intro block
    rw [← hheld]
    exact (instanceHeld_congr (releaseInstance_plugins _ _) (releaseInstance_shared _ _)).symm
  · intro block hm
    rw [hidle.fromThis] at hm
    rw [hidle.instances]
    exact h.this_alive block hm

end Process

end GzPlugin
