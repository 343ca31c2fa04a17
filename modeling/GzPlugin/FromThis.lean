import GzPlugin.Provenance

/-!
# PluginFromThis

An instance and the `Info` that its weak pointer records are counted apart. A lock on a
living instance works as long as no operation lets go of the last reference to the `Info`
while the instance lives on, if the weak pointer was set in the first place and the library is
still open.
-/

namespace GzPlugin

open FiniteMaps Runs

set_option autoImplicit false

namespace Process

variable {env : Env} {enables : CodePtr → Prop} {p p' : Process} {op : Op} {v u : Var}
  {weak : WeakPluginPtr} {block addr : Nat}

/-- The variable whose references an operation lets go of. -/
def Op.overwrites : Op → Option Var
  | .assign v _ | .clear v | .destroy v => some v
  | _ => none

/-- The operation removes the entry from the file registry. -/
def Drops (env : Env) (p : Process) (op : Op) (name : String) : Prop :=
  match op with
  | .loader (.destroyLoader _) => True
  | .loader op => ∃ names ∈ p.world.forgottenNames env op, name ∈ names
  | _ => False

instance (p : Process) (op : Op) (name : String) : Decidable (p.Drops env op name) := by
  induction op using Op.casesOn with
  | loader op => induction op using World.Op.casesOn <;> unfold Drops <;> infer_instance
  | _ => unfold Drops; infer_instance

/-- Somebody whom the operation does not let go of refers to the instance. -/
def KeepsInstance (p : Process) (op : Op) (block : Nat) : Prop :=
  Has (fun v pl => op.overwrites ≠ some v ∧ RefersTo block pl) p.plugins ∨
    Has (fun _ ptr => ptr.block = block) p.shared

instance (p : Process) (op : Op) (block : Nat) : Decidable (p.KeepsInstance op block) := by
  unfold KeepsInstance; infer_instance

/-- Somebody whom the operation does not let go of refers to the `Info` object. -/
def KeepsInfo (env : Env) (p : Process) (op : Op) (addr : Nat) : Prop :=
  Has (fun v pl => op.overwrites ≠ some v ∧ RefersToInfo addr pl) p.plugins ∨
    Has (fun name ptr => ¬ p.Drops env op name ∧ ptr.addr = addr) p.world.impl.filePlugins.plugins

instance (p : Process) (op : Op) (addr : Nat) : Decidable (p.KeepsInfo env op addr) := by
  unfold KeepsInfo; infer_instance

/-- The operation lets go of the last reference to the recorded `Info`, but not to the
instance. -/
def Orphans (env : Env) (p : Process) (op : Op) (weak : WeakPluginPtr) : Prop :=
  ∃ ptr ∈ weak.instance_, p.KeepsInstance op ptr.block ∧
    ∃ info ∈ weak.info, ¬ p.KeepsInfo env op info.addr

instance (p : Process) (op : Op) (weak : WeakPluginPtr) : Decidable (p.Orphans env op weak) := by
  unfold Orphans; infer_instance

/-- Every recorded `Info` outlives the operation if its instance does. -/
def KeepsInfos (env : Env) (p : Process) (op : Op) : Prop :=
  ¬ Has (fun _ weak => p.Orphans env op weak) p.weaks ∧
    ¬ Has (fun _ weak => p.Orphans env op weak) p.fromThis

instance (p : Process) (op : Op) : Decidable (p.KeepsInfos env op) := by
  unfold KeepsInfos; infer_instance

/-- The weak pointer inside every living instance of a class that inherits
`EnablePluginFromThis` is set. `enables` tells these classes by their deleters. -/
def Entered (enables : CodePtr → Prop) (p : Process) : Prop :=
  ∀ block i, p.world.instances.lookup block = some i → enables i.deleter → block ∈ p.fromThis

/-- If `Instantiate` makes an instance of such a class, the `Info` has the cast with which the
interface is found. -/
def SetsFromThis (env : Env) (enables : CodePtr → Prop) (p : Process) : Op → Prop
  | .instantiate _ _ s instance_ => ∀ ptr ∈ (p.world.instantiate env s instance_).1.info,
      enables ptr.info.deleter →
        ∃ f ∈ ptr.info.interfaces.lookup enablePluginFromThisName, env.cast f instance_ ≠ 0
  | _ => True

instance [DecidablePred enables] (p : Process) (op : Op) :
    Decidable (p.SetsFromThis env enables op) := by
  induction op using Op.casesOn <;> unfold SetsFromThis <;> infer_instance

/-- `PluginFromThis` and `Lock` work: the weak pointer of an instance is set, and whenever an
instance that a weak pointer records is alive, so is the recorded `Info`, its casts can be
called, and a lock gives the `PluginPtr` that `Instantiate` made. -/
structure LocksLiving (env : Env) (enables : CodePtr → Prop) (p : Process) : Prop where
  entered : p.Entered enables
  info : ∀ weak, p.Recorded weak → ∀ ptr ∈ weak.instance_, ptr.block ∈ p.world.instances →
    ∃ info ∈ weak.info, p.InfoHeld info.addr ∧ p.world.dl.MapsCode info.info ∧
      p.lockedPlugin env weak = Plugin.made env.cast ptr.block ptr.get info
  infoNull : .infoNull ∉ p.log

/-- What is left of `LocksLiving` when the recorded pointers are as they should be. -/
structure Backed (p : Process) : Prop where
  info : ∀ weak, p.Recorded weak → ∀ ptr ∈ weak.instance_, ptr.block ∈ p.world.instances →
    ∀ info ∈ weak.info, p.InfoHeld info.addr
  infoNull : .infoNull ∉ p.log

/-- A reference to an instance is not null, refers to an object made before, and comes with
an `Info`. -/
def Complete (p : Process) (weak : WeakPluginPtr) : Prop :=
  ∀ ptr ∈ weak.instance_, ptr.get ≠ 0 ∧ ptr.block < p.world.next ∧ ∃ info, weak.info = some info

/-! ### Locking -/

theorem keepsInfos_iff : p.KeepsInfos env op ↔ ∀ weak, p.Recorded weak → ¬ p.Orphans env op weak := by
  constructor
  · rintro ⟨hweaks, hthis⟩ weak (⟨x, hx⟩ | ⟨block, hb⟩) ho
    · exact hweaks ⟨x, weak, hx, ho⟩
    · exact hthis ⟨block, weak, hb, ho⟩
  · intro h
    constructor
    · rintro ⟨x, weak, hx, ho⟩
      exact h weak (Or.inl ⟨x, hx⟩) ho
    · rintro ⟨block, weak, hb, ho⟩
      exact h weak (Or.inr ⟨block, hb⟩) ho

theorem lockedPlugin_made {ptr : InstancePtr} {info : ConstInfoPtr CodePtr}
    (hinst : weak.instance_ = some ptr) (hinfo : weak.info = some info)
    (halive : ptr.block ∈ p.world.instances) (hheld : p.InfoHeld info.addr) (hne : ptr.get ≠ 0) :
    p.lockedPlugin env weak = Plugin.made env.cast ptr.block ptr.get info := by
  have hunion : Plugin.castAll env.cast info.info ptr.get ∪ Plugin.empty.interfaces =
      Plugin.castAll env.cast info.info ptr.get := Finmap.union_empty
  simp [lockedPlugin, lockInfo, lockInstance, hinst, hinfo, halive, hheld, Option.filter,
    Plugin.copyFrom, hne, hunion, Plugin.made]

theorem locksLiving_iff (h : AllRefs p.Complete p) (hk : p.CodeKept env) :
    LocksLiving env enables p ↔ p.Entered enables ∧ Backed p := by
  constructor
  · intro hl
    refine ⟨hl.entered, ?_, hl.infoNull⟩
    intro weak hr ptr hptr halive info hinfo
    obtain ⟨info', hinfo', hheld, _⟩ := hl.info weak hr ptr hptr halive
    rw [Option.mem_def] at hinfo hinfo'
    rw [hinfo] at hinfo'
    cases hinfo'
    exact hheld
  · rintro ⟨he, hb⟩
    refine ⟨he, ?_, hb.infoNull⟩
    intro weak hr ptr hptr halive
    obtain ⟨hne, _, info, hinfo⟩ := h.recorded hr ptr hptr
    have hheld := hb.info weak hr ptr hptr halive info hinfo
    have hmaps := hk.maps_pair hptr hinfo (hk.paired.recorded hr) (hk.uniform.recorded hr) halive
    exact ⟨info, hinfo, hheld, hmaps, lockedPlugin_made hptr hinfo halive hheld hne⟩

theorem Backed.locked (hb : Backed p) (h : AllRefs p.Complete p) (hr : p.Recorded weak)
    {ptr : InstancePtr} (hptr : p.lockInstance weak = some ptr) :
    ∃ info, p.lockInfo weak = some info := by
  obtain ⟨hptr, halive⟩ := Option.filter_eq_some_iff.mp hptr
  obtain ⟨_, _, info, hinfo⟩ := h.recorded hr ptr hptr
  have hheld := hb.info weak hr ptr hptr (of_decide_eq_true halive) info hinfo
  exact ⟨info, Option.filter_eq_some_iff.mpr ⟨hinfo, decide_eq_true hheld⟩⟩

theorem Backed.not_fails (hb : Backed p) (h : AllRefs p.Complete p) (op : Op) :
    ¬ p.Fails op := by
  have hlock : ∀ weak, p.Recorded weak → p.lockFails weak = false := by
    intro weak hr
    unfold lockFails Plugin.copyFromFails
    cases hi : p.lockInstance weak with
    | none => rfl
    | some ptr =>
      obtain ⟨info, hinfo⟩ := hb.locked h hr hi
      rw [hinfo, Option.isNone_some, Bool.and_false]
  cases op with
  | lock v x =>
    rintro ⟨weak, hw, hf⟩
    rw [hlock weak (Or.inl ⟨x, hw⟩)] at hf
    cases hf
  | pluginFromThis v block =>
    rintro ⟨weak, hw, hf⟩
    rw [hlock weak (Or.inr ⟨block, hw⟩)] at hf
    cases hf
  | _ => exact id

theorem Backed.complete (hb : Backed p) (hall : AllRefs p.Complete p) (h : Consistent env p)
    (hs : step env p op = some p') : AllRefs p'.Complete p' := by
  have hle := step_next_le h hs
  refine hall.next h hs ?_ ?_ ?_ ?_
  · intro ptr hptr
    cases hptr
  · intro weak hw ptr hptr
    obtain ⟨hne, hlt, hinfo⟩ := hw ptr hptr
    exact ⟨hne, hlt.trans_le hle, hinfo⟩
  · intro weak hr hw ptr hptr
    obtain ⟨hne, hlt, _⟩ := hw ptr (Option.filter_eq_some_iff.mp hptr).1
    exact ⟨hne, hlt.trans_le hle, hb.locked hall hr hptr⟩
  · intro v block weak hm ptr hptr
    obtain ⟨ptr', info, i, hweak, hblock, hne, _, _⟩ := hm.instances
    rw [hweak] at hptr ⊢
    cases hptr
    exact ⟨hne, by rw [hm.next, hblock]; exact Nat.lt_succ_self block, info, rfl⟩

/-! ### Who still refers to what -/

theorem keepsInstance_iff (hop : op.overwrites = none) :
    p.KeepsInstance op block ↔ p.InstanceHeld block := by
  simp [KeepsInstance, InstanceHeld, hop]

theorem keepsInstance_iff_elsewhere (hop : op.overwrites = some v) :
    p.KeepsInstance op block ↔ p.InstanceHeldElsewhere v block := by
  simp [KeepsInstance, InstanceHeldElsewhere, hop, eq_comm]

theorem keepsInfo_iff (hop : op.overwrites = none) (hdrop : ∀ name, ¬ p.Drops env op name) :
    p.KeepsInfo env op addr ↔ p.InfoHeld addr := by
  simp [KeepsInfo, InfoHeld, hop, hdrop]

theorem keepsInfo_iff_elsewhere (hop : op.overwrites = some v)
    (hdrop : ∀ name, ¬ p.Drops env op name) :
    p.KeepsInfo env op addr ↔ p.InfoHeldElsewhere v addr := by
  simp [KeepsInfo, InfoHeldElsewhere, hop, hdrop, eq_comm]

theorem overwritten_held (hop : op.overwrites = some v) (hs : step env p op = some p') :
    (∀ block, p'.InstanceHeld block ↔ p.InstanceHeldElsewhere v block) ∧
      ∀ addr, p'.InfoHeld addr ↔ p.InfoHeldElsewhere v addr := by
  obtain ⟨hen, rfl⟩ := step_eq_some.mp hs
  cases op with
  | assign v' u =>
    cases hop
    obtain ⟨pl, hl⟩ := Finmap.mem_iff.mp hen.1
    exact assign_held hl hen.2
  | clear v' =>
    cases hop
    obtain ⟨pl, hl⟩ := Finmap.mem_iff.mp hen
    constructor
    · exact fun _ => instanceHeld_of_insert_none (clear_plugins hl) (clear_shared p v) rfl
    · exact fun _ => infoHeld_of_insert_none (clear_plugins hl) (clear_impl p v) rfl
  | destroy v' =>
    cases hop
    obtain ⟨pl, hl⟩ := Finmap.mem_iff.mp hen
    constructor
    · exact fun _ => instanceHeld_of_erase (destroy_plugins hl) (destroy_shared p v)
    · exact fun _ => infoHeld_of_erase (destroy_plugins hl) (destroy_impl p v)
  | _ => cases hop

theorem drops_iff {op : World.Op} {hd : Handle} {names : Finset String} {name : String}
    (hop : p.world.forgottenHandle env op = some hd)
    (hnames : p.world.forgottenNames env op = some names) :
    p.Drops env (.loader op) name ↔ name ∈ names := by
  cases op with
  | destroyLoader order => cases hop
  | _ => simp [Drops, hnames]

theorem not_drops {op : World.Op} {name : String} (hnone : p.world.forgottenNames env op = none)
    (halive : ¬ ∃ order, op = .destroyLoader order) : ¬ p.Drops env (.loader op) name := by
  intro hd
  cases op with
  | destroyLoader order => exact halive ⟨order, rfl⟩
  | _ =>
    obtain ⟨names, hn, _⟩ := hd
    rw [hnone] at hn
    cases hn

theorem loader_registry {op : World.Op} (name : String) (ptr : ConstInfoPtr CodePtr)
    (h : World.Sound env p.world) (hs : step env p (.loader op) = some p') :
    (¬ p.Drops env (.loader op) name →
      p.world.impl.filePlugins.plugins.lookup name = some ptr →
      p'.world.impl.filePlugins.plugins.lookup name = some ptr) ∧
    (op.loads env = none → p'.world.impl.filePlugins.plugins.lookup name = some ptr →
      ¬ p.Drops env (.loader op) name ∧
        p.world.impl.filePlugins.plugins.lookup name = some ptr) := by
  obtain ⟨hen, rfl⟩ := step_eq_some.mp hs
  have hworld : World.step env p.world op = some (p.loader env op).world :=
    World.step_eq_some.mpr ⟨hen.2, (loader_world env p op).symm⟩
  simp only [after]
  by_cases hdead : ∃ order, op = .destroyLoader order
  · obtain ⟨order, rfl⟩ := hdead
    have himpl : (p.loader env (.destroyLoader order)).world.impl = .empty := by
      rw [loader_world]
      exact (World.destroyLoader_spec h.linked hen.2.2).1
    rw [himpl]
    exact ⟨fun hn => absurd trivial hn, fun _ hptr => by cases hptr⟩
  cases (World.step_sound h hworld).2 with
  | loaded lib hp infos hop hl =>
    exact ⟨fun _ => hl.added.kept, fun hnone => by rw [hop] at hnone; cases hnone⟩
  | forgot hd names hop hf =>
    have hnames : p.world.forgottenNames env op = some names := by
      rw [World.forgottenNames, hop]
      exact hf.known
    rw [drops_iff hop hnames, hf.removed.plugins]
    by_cases hn : name ∈ names
    · rw [if_pos hn]
      exact ⟨fun hnot => absurd hn hnot, fun _ hptr => by cases hptr⟩
    · rw [if_neg hn]
      exact ⟨fun _ => id, fun _ hptr => ⟨hn, hptr⟩⟩
  | kept _ hforget hq =>
    rw [hq.impl]
    exact ⟨fun _ => id, fun _ hptr => ⟨not_drops hforget hdead, hptr⟩⟩
  | destroyed _ _ _ => exact absurd ⟨_, rfl⟩ hdead

theorem loader_infoHeld {op : World.Op} (h : World.Sound env p.world)
    (hs : step env p (.loader op) = some p') :
    (p.KeepsInfo env (.loader op) addr → p'.InfoHeld addr) ∧
      (op.loads env = none → p'.InfoHeld addr → p.KeepsInfo env (.loader op) addr) := by
  have hplugins : p'.plugins = p.plugins := by
    rw [← (step_eq_some.mp hs).2]
    exact (loader_frame env p op).plugins
  unfold KeepsInfo InfoHeld
  rw [hplugins]
  simp only [Op.overwrites, ne_eq, reduceCtorEq, not_false_eq_true, true_and]
  constructor
  · rintro (hh | ⟨name, ptr, hptr, hn, ha⟩)
    · exact Or.inl hh
    · exact Or.inr ⟨name, ptr, (loader_registry name ptr h hs).1 hn hptr, ha⟩
  · rintro hnone (hh | ⟨name, ptr, hptr, ha⟩)
    · exact Or.inl hh
    · obtain ⟨hn, hptr⟩ := (loader_registry name ptr h hs).2 hnone hptr
      exact Or.inr ⟨name, ptr, hptr, hn, ha⟩

theorem overwritten_drops (hop : op.overwrites = some v) (name : String) :
    ¬ p.Drops env op name := by
  cases op <;> first | exact id | cases hop

theorem infoHeld_iff_ref : p.InfoHeld addr ↔
    (∃ v weak, p.ref v = some weak ∧ ∃ ptr ∈ weak.info, ptr.addr = addr) ∨
      Has (fun _ ptr => ptr.addr = addr) p.world.impl.filePlugins.plugins := by
  unfold InfoHeld
  refine or_congr_left ?_
  constructor
  · rintro ⟨v, pl, hl, hr⟩
    exact ⟨v, pl.weak, ref_eq hl, hr⟩
  · rintro ⟨v, weak, hw, hr⟩
    obtain ⟨pl, hl, rfl⟩ := Option.map_eq_some_iff.mp hw
    exact ⟨v, pl, hl, hr⟩

theorem step_ref_old (hop : op.overwrites = none) (hs : step env p op = some p')
    (hr : p.ref u = some weak) : p'.ref u = some weak := by
  have hnew : ∀ {v : Var} {x : Option WeakPluginPtr}, v ∉ p.plugins →
      Function.update p.ref v x u = some weak := by
    intro v x hv
    rw [Function.update_of_ne, hr]
    rintro rfl
    rw [ref, Finmap.lookup_eq_none.mpr hv] at hr
    cases hr
  rw [(step_binds hs).ref]
  have hen := (step_eq_some.mp hs).1
  cases op with
  | construct v specInterfaces => exact hnew hen
  | copyConstruct v specInterfaces u => exact hnew hen.1
  | instantiate v specInterfaces s instance_ => exact hnew hen.1
  | assign v u => cases hop
  | clear v => cases hop
  | destroy v => cases hop
  | lock v x => exact hnew hen.1
  | pluginFromThis v block => exact hnew hen.1
  | _ => exact hr

theorem step_infoHeld (h : Consistent env p) (hs : step env p op = some p')
    (hk : p.KeepsInfo env op addr) : p'.InfoHeld addr := by
  cases hop : op.overwrites with
  | some v =>
    rw [keepsInfo_iff_elsewhere hop (overwritten_drops hop)] at hk
    exact ((overwritten_held hop hs).2 addr).mpr hk
  | none =>
    by_cases hload : ∃ o, op = .loader o
    · obtain ⟨o, rfl⟩ := hload
      exact (loader_infoHeld h.sound hs).1 hk
    · have hdrop : ∀ name, ¬ p.Drops env op name := by
        intro name hd
        cases op with
        | loader o => exact hload ⟨o, rfl⟩
        | _ => exact hd
      rw [keepsInfo_iff hop hdrop, infoHeld_iff_ref] at hk
      rw [infoHeld_iff_ref, step_impl h.sound (fun o he => hload ⟨o, he⟩) hs]
      refine hk.imp_left ?_
      rintro ⟨v, weak, hw, hptr⟩
      exact ⟨v, weak, step_ref_old hop hs hw, hptr⟩

theorem step_keepsInstance (h : Consistent env p) (hs : step env p op = some p')
    (hm : block ∈ p.world.instances) (hh : p'.InstanceHeld block) :
    p.KeepsInstance op block := by
  cases hop : op.overwrites with
  | some v =>
    rw [keepsInstance_iff_elsewhere hop]
    exact ((overwritten_held hop hs).1 block).mp hh
  | none =>
    rw [keepsInstance_iff hop]
    exact (h.alive block).mp hm

theorem recorded_of_held (h : Consistent env p) (hs : step env p op = some p')
    (hop : p.reweaks op = none) (hmade : p.creates env op = none) (hr : p.Recorded weak)
    {ptr : InstancePtr} (hptr : ptr ∈ weak.instance_) (hh : p'.InstanceHeld ptr.block) :
    p'.Recorded weak := by
  rcases hr with ⟨x, hx⟩ | ⟨block, hb⟩
  · refine Or.inl ⟨x, ?_⟩
    have hsame := congrFun (step_binds hs).weaks x
    rw [hop] at hsame
    exact hsame.trans hx
  · obtain ⟨_, ptr', hptr', rfl⟩ := h.fromThis hb
    rw [Option.mem_def] at hptr hptr'
    rw [hptr] at hptr'
    cases hptr'
    cases step_effect h hs with
    | released _ hrel _ => exact Or.inr ⟨ptr.block, by rw [hrel.fromThis, if_pos hh, hb]⟩
    | made v new w hmade' _ _ _ _ =>
      rw [hmade] at hmade'
      cases hmade'

/-! ### The invariant along a run -/

/-- If nothing goes away but a variable or an entry of the registry, the step keeps every
`Info` backed only if it keeps the recorded ones. -/
theorem Backed.keepsInfos (hb : Backed p) (h : Consistent env p)
    (hs : step env p op = some p') (hb' : Backed p') : p.KeepsInfos env op := by
  rw [keepsInfos_iff]
  rintro weak hr ⟨ptr, hptr, hinst, info, hinfo, hlost⟩
  apply hlost
  have hafter : p'.InstanceHeld ptr.block → p.reweaks op = none → p.creates env op = none →
      p'.InfoHeld info.addr := by
    intro hh hweaks hmade
    have hr' := recorded_of_held h hs hweaks hmade hr hptr hh
    exact hb'.info weak hr' ptr hptr (((step_consistent h hs).alive _).mpr hh) info hinfo
  have hbefore : p.InstanceHeld ptr.block → p.InfoHeld info.addr := fun hh =>
    hb.info weak hr ptr hptr ((h.alive _).mpr hh) info hinfo
  cases hop : op.overwrites with
  | some v =>
    have hrest : p.reweaks op = none ∧ p.creates env op = none := by
      cases op <;> first | exact ⟨rfl, rfl⟩ | cases hop
    rw [keepsInstance_iff_elsewhere hop] at hinst
    rw [keepsInfo_iff_elsewhere hop (overwritten_drops hop)]
    obtain ⟨hinstances, hinfos⟩ := overwritten_held hop hs
    exact (hinfos info.addr).mp (hafter ((hinstances ptr.block).mpr hinst) hrest.1 hrest.2)
  | none =>
    rw [keepsInstance_iff hop] at hinst
    by_cases hload : ∃ o, op = .loader o
    · obtain ⟨o, rfl⟩ := hload
      have hframe := loader_frame env p o
      have hheld : p'.InstanceHeld ptr.block := by
        rw [← (step_eq_some.mp hs).2]
        exact (instanceHeld_congr hframe.plugins hframe.shared).mpr hinst
      cases hnone : o.loads env with
      | none => exact (loader_infoHeld h.sound hs).2 hnone (hafter hheld rfl rfl)
      | some lib =>
        refine (keepsInfo_iff hop ?_).mpr (hbefore hinst)
        intro name hd
        cases o with
        | loadLib path noDelete res loadedPlugins =>
          obtain ⟨_, hn, _⟩ := hd
          cases hn
        | _ => cases hnone
    · refine (keepsInfo_iff hop ?_).mpr (hbefore hinst)
      intro name hd
      cases op with
      | loader o => exact hload ⟨o, rfl⟩
      | _ => exact hd

theorem Backed.next (hb : Backed p) (hall : AllRefs p.Complete p) (h : Consistent env p)
    (hs : step env p op = some p') (hk : p.KeepsInfos env op) : Backed p' where
  info weak hr ptr hptr hm info hinfo := by
    rcases step_recorded h hs hr with hr | ⟨x, u, rfl, hu⟩ | ⟨v, block, hmade⟩
    · have hold := step_old_mem h hs (hall.recorded hr ptr hptr).2.1 hm
      have hinst := step_keepsInstance h hs hold (((step_consistent h hs).alive _).mp hm)
      by_contra hlost
      refine keepsInfos_iff.mp hk weak hr ⟨ptr, hptr, hinst, info, hinfo, ?_⟩
      exact fun hkept => hlost (step_infoHeld h hs hkept)
    · exact infoHeld_iff_ref.mpr (Or.inl ⟨u, weak, step_ref_old rfl hs hu, info, hinfo, rfl⟩)
    · obtain ⟨pl, hpl, hplugins⟩ := hmade.bound
      refine Or.inl ⟨v, pl, by rw [hplugins, Finmap.lookup_insert], info, ?_, rfl⟩
      rw [← hpl] at hinfo
      exact hinfo
  infoNull := by
    cases step_effect h hs with
    | released _ hrel _ =>
      rw [hrel.infoNull]
      rintro (hlog | hf)
      · exact hb.infoNull hlog
      · exact hb.not_fails hall op hf
    | made v block weak _ _ _ _ hm =>
      rw [hm.log]
      exact hb.infoNull

/-! ### The weak pointer inside an instance -/

theorem Entered.released {fails : Prop} (he : p.Entered enables) (h : Released fails p p') :
    p'.Entered enables := by
  intro block i hi henables
  rw [h.instances] at hi
  split at hi
  · rename_i hh
    rw [← Finmap.lookup_isSome, h.fromThis, if_pos hh, Finmap.lookup_isSome]
    exact he block i hi henables
  · cases hi

theorem setFromThis_fromThis (p : Process) {pl : Plugin} {ptr : InstancePtr}
    (hptr : pl.loadedInstancePtr = some ptr) : (p.setFromThis pl).fromThis =
      if pl.queryInterface enablePluginFromThisName ≠ 0 then p.fromThis.insert ptr.block pl.weak
      else p.fromThis := by
  simp only [setFromThis, hptr]
  split <;> rfl

theorem made_sets_iff (block : Nat) {instance_ : Ptr} {info : ConstInfoPtr CodePtr} :
    (Plugin.made env.cast block instance_ info).queryInterface enablePluginFromThisName ≠ 0 ↔
      ∃ f ∈ info.info.interfaces.lookup enablePluginFromThisName, env.cast f instance_ ≠ 0 := by
  rw [Plugin.made_queryInterface]
  cases info.info.interfaces.lookup enablePluginFromThisName <;> simp

/-- One instance more, with or without an entry. -/
theorem Entered.insert_iff (he : p.Entered enables) {i : PluginWithDlHandle} {sets : Prop}
    [Decidable sets] {weak : WeakPluginPtr} (hnew : block ∉ p.fromThis)
    (hinst : p'.world.instances = p.world.instances.insert block i)
    (hthis : p'.fromThis = if sets then p.fromThis.insert block weak else p.fromThis) :
    p'.Entered enables ↔ (enables i.deleter → sets) := by
  unfold Entered
  rw [hinst, hthis]
  constructor
  · intro he' henables
    by_contra hsets
    have hentry := he' block i (Finmap.lookup_insert _) henables
    rw [if_neg hsets] at hentry
    exact hnew hentry
  · intro hsets b j hj henables
    rw [lookup_insert_eq] at hj
    split at hj
    · rename_i hb
      cases hj
      rw [if_pos (hsets henables), hb]
      exact Finmap.mem_insert.mpr (Or.inl rfl)
    · have hold := he b j hj henables
      split
      · exact Finmap.mem_insert.mpr (Or.inr hold)
      · exact hold

theorem instantiate_entered (he : p.Entered enables) (h : Consistent env p)
    (specInterfaces : List String) (s : String) (instance_ : Ptr) :
    (p.instantiate env v specInterfaces s instance_).Entered enables ↔
      p.SetsFromThis env enables (.instantiate v specInterfaces s instance_) := by
  obtain ⟨new, fromThis, hafter, _, hthis⟩ := instantiate_eq env p v specInterfaces s instance_
  rcases World.instantiate_cases h.sound s instance_ with
    ⟨hempty, hinst, _⟩ | ⟨block, info, i, hle, hdel, hmade, hmake⟩
  · refine iff_of_true ?_ ?_
    · have hsame : fromThis = p.fromThis := by
        rcases hthis with hsame | ⟨ptr, hptr, _⟩
        · exact hsame
        · rw [hempty] at hptr
          cases hptr
      rw [hafter, hsame]
      intro block i hi
      rw [show _ = p.world.instances from hinst] at hi
      exact he block i hi
    · intro ptr hptr
      rw [hempty] at hptr
      cases hptr
  · have hthis : (p.instantiate env v specInterfaces s instance_).fromThis =
        ({ p with world := (p.world.instantiate env s instance_).2 }.setFromThis
          (p.world.instantiate env s instance_).1).fromThis := rfl
    have hinst : (p.instantiate env v specInterfaces s instance_).world.instances =
        p.world.instances.insert block i := by
      rw [hafter, hmake]
    rw [setFromThis_fromThis _ (show _ = some ⟨block, instance_⟩ by rw [hmade]; rfl)] at hthis
    have hnew : block ∉ p.fromThis := by
      intro hm
      obtain ⟨weak, hw⟩ := Finmap.mem_iff.mp hm
      exact Nat.not_lt.mpr hle (h.lt_next (h.fromThis hw).1)
    rw [he.insert_iff hnew hinst hthis, hmade, made_sets_iff, hdel]
    simp [SetsFromThis, hmade, Plugin.made]

theorem Entered.next_iff (he : p.Entered enables) (h : Consistent env p)
    (hs : step env p op = some p') :
    p'.Entered enables ↔ p.SetsFromThis env enables op := by
  have hrest : p.creates env op = none → p.SetsFromThis env enables op →
      (p'.Entered enables ↔ p.SetsFromThis env enables op) := by
    intro hnone hsets
    cases step_effect h hs with
    | released _ hrel _ => exact iff_of_true (he.released hrel) hsets
    | made _ _ _ hmade _ _ _ _ =>
      rw [hnone] at hmade
      cases hmade
  cases op with
  | instantiate v specInterfaces s instance_ =>
    rw [← (step_eq_some.mp hs).2]
    exact instantiate_entered he h specInterfaces s instance_
  | _ => exact hrest rfl trivial

/-- In a run in which every library that is loaded owns the plugin names it brings, every
weak pointer to a living instance can be locked to a `PluginPtr` with its name and its
interfaces, and `PluginFromThis` does so on every instance of a class that inherits it, if and
only if every such class lists the interface, and no operation lets go of the last reference to
a recorded `Info` while its instance lives on. -/
theorem locksLiving_iff_keepsInfos (env : Env) (enables : CodePtr → Prop)
    {l : List (Op × Process)} (hrun : Run (step env) init l)
    (hload : Steps (LoadsOwnNames env) init l) :
    States (LocksLiving env enables) init l ↔
      Steps (fun p op => KeepsInfos env p op ∧ p.SetsFromThis env enables op) init l := by
  have hinit : AllRefs (Complete init) init := init_allRefs _
  have hbacked : Backed init :=
    ⟨fun _ hr => by simp [Recorded, init] at hr, by simp [init]⟩
  have hentered : init.Entered enables := fun _ _ hi => by simp [init, World.init] at hi
  refine hrun.states_iff_of_guard (I := fun p => CodeKept env p ∧ AllRefs p.Complete p) hload
    ⟨init_codeKept env, hinit⟩ ((locksLiving_iff hinit (init_codeKept env)).mpr
      ⟨hentered, hbacked⟩) ?_ ?_
  · intro p op p' hown hI hP hs
    have hb := ((locksLiving_iff hI.2 hI.1).mp hP).2
    exact ⟨hI.1.next hs hown, hb.complete hI.2 hI.1.consistent hs⟩
  · intro p op p' hown hI hP hs
    obtain ⟨he, hb⟩ := (locksLiving_iff hI.2 hI.1).mp hP
    have h := hI.1.consistent
    rw [locksLiving_iff (hb.complete hI.2 h hs) (hI.1.next hs hown), he.next_iff h hs, and_comm]
    apply and_congr_left
    intro _
    exact ⟨hb.keepsInfos h hs, hb.next hI.2 h hs⟩

/-- A plugin class that inherits `EnablePluginFromThis`. -/
def enablingClass (typeName : String) (h : typeName ≠ "") : PluginClass Symbol :=
  { plainClass typeName h with enablesPluginFromThis := true }

/-- Such a plugin in a library, and one that is registered at program start. -/
def fromThisPlugins : Env :=
  twoLibraries [.register (enablingClass "p" p_ne) ["I"]] []
    [.register (enablingClass "s" (by decide)) ["I"]]

/-- `Loader::Factory` on the plugin of the library, and a product that it constructs. -/
def fileFactory : List Op :=
  [.loader (.loadLib "a" false ⟨some 1, false⟩ [registerInfo (enablingClass "p" p_ne) ["I"]]),
    .instantiate 0 [] "p" 7, .queryInterfaceSharedPtr 0 0 "I", .destroy 0,
    .pluginFromThis 0 3, .shareInstance 1 0, .destroy 0, .dropShared 0, .dropShared 1,
    .loader (.forgetLibrary "a" (some 1) ["p"])]

/-- The same on the static plugin. -/
def staticFactory : List Op :=
  [.instantiate 0 [] "s" 7, .queryInterfaceSharedPtr 0 0 "I", .destroy 0, .pluginFromThis 0 1]

example : (history (step fromThisPlugins) init fileFactory).length = fileFactory.length := by
  decide

example : (history (step fromThisPlugins) init staticFactory).length = staticFactory.length := by
  decide

/-- All plugin classes inherit `EnablePluginFromThis` here. -/
theorem locksLiving_fileFactory : States (LocksLiving fromThisPlugins fun _ => True) init
    (history (step fromThisPlugins) init fileFactory) :=
  (locksLiving_iff_keepsInfos fromThisPlugins (fun _ => True)
    (history_run (step fromThisPlugins) init fileFactory) (by decide)).mpr (by decide)

/-- The temporary `PluginPtr` held the only copy of the `Info` of the static plugin, and the
interface pointer keeps the instance alive without it. -/
theorem not_locksLiving_staticFactory : ¬ ∀ p, Reachable (step fromThisPlugins) init p →
    LocksLiving fromThisPlugins (fun _ => True) p := by
  intro h
  have hlocks := h _ ⟨_, history_run (step fromThisPlugins) init staticFactory, rfl⟩
  exact absurd hlocks.infoNull (by decide)

end Process

end GzPlugin
