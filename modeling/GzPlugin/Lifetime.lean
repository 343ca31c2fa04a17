import GzPlugin.Instances

/-!
# The library outlives what needs it

With one plugin library, deleters always run while it is held. An `Info` can be destroyed too
late by `Clear`, which resets the instance first, and by the end of a `PluginPtr` that has an
`Info` but no instance.
-/

namespace GzPlugin

open FiniteMaps Runs

set_option autoImplicit false

namespace World

variable {env : Env} {w w' : World} {L : LibId}

/-- All handles stored for plugins are handles of the library `L`, and everything is tied to
the handle it came with. -/
structure OneLibrary (L : LibId) (w : World) : Prop where
  matched : w.Matched
  stored : ∀ {name hp}, w.impl.pluginToDlHandlePtrs.lookup name = some hp →
    ∃ serial, hp.image = .mapped L serial

theorem init_oneLibrary (L : LibId) : OneLibrary L init where
  matched := init_matched
  stored h := by simp [init, Implementation.empty] at h

theorem OneLibrary.loadsOwnNames (h : OneLibrary L w) (hS : Sound env w) {op : Op}
    (hload : ∀ lib ∈ op.loads env, lib = L) : LoadsOwnNames env w op := by
  intro lib hlib name _ ptr hptr
  obtain ⟨hp, hhp⟩ := Finmap.mem_iff.mp (hS.tables.keys.mp (Finmap.mem_of_lookup_eq_some hptr))
  obtain ⟨serial, himage⟩ := h.stored hhp
  rw [(h.matched.registered hptr hhp).2.1, himage]
  exact (hload lib hlib).symm

theorem OneLibrary.next (h : OneLibrary L w) (hS : Sound env w) {op : Op}
    (hload : ∀ lib ∈ op.loads env, lib = L) (hs : step env w op = some w') :
    OneLibrary L w' where
  matched := (h.matched.step_iff hS hs).mpr (h.loadsOwnNames hS hload)
  stored {name hp} hhp := by
    cases (step_sound hS hs).2 with
    | loaded lib new infos hop hl =>
      rw [hl.added.handles] at hhp
      split at hhp
      · cases hhp
        rw [← hload lib hop]
        exact hl.image
      · exact h.stored hhp
    | forgot hd names _ hf =>
      rw [hf.removed.handles] at hhp
      split at hhp
      · cases hhp
      · exact h.stored hhp
    | kept _ _ hq =>
      rw [hq.impl] at hhp
      exact h.stored hhp
    | destroyed himpl _ _ => simp [himpl, Implementation.empty] at hhp

/-- Every `Info` of the registry comes with a stored handle of its code. -/
def Owned (w : World) : Prop :=
  ∀ name, ∀ ptr ∈ w.impl.filePlugins.plugins.lookup name,
    ∃ hp ∈ w.impl.pluginToDlHandlePtrs.lookup name, hp.image = ptr.info.deleter.image

theorem Sound.owned (h : Sound env w) (hm : w.Matched) : w.Owned := by
  intro name ptr hptr
  obtain ⟨hp, hhp⟩ := Finmap.mem_iff.mp (h.tables.keys.mp (Finmap.mem_of_lookup_eq_some hptr))
  exact ⟨hp, hhp, (hm.registered hptr hhp).2.1.symm⟩

theorem imageHeld_of_stored {name : String} {hp : DlHandlePtr}
    (h : w.impl.pluginToDlHandlePtrs.lookup name = some hp) : w.ImageHeld hp.image :=
  Or.inr (Or.inl ⟨name, hp, h, rfl⟩)

theorem imageHeld_of_instance {block : Nat} {i : PluginWithDlHandle} (hm : w.Matched)
    (h : w.instances.lookup block = some i) : w.ImageHeld i.deleter.image := by
  rw [hm.instances h]
  cases hi : i.dlHandlePtr with
  | none => exact Or.inl rfl
  | some hp => exact Or.inr (Or.inr (Or.inl ⟨block, i, h, hp, hi, rfl⟩))

end World

/-- What the event destroys was destroyed while its library was held. -/
def Event.InTime : Event → Prop
  | .deleterRun _ held | .infoDestroyed _ held => held = true
  | .infoNull => True

instance (e : Event) : Decidable e.InTime := by
  cases e <;> unfold Event.InTime <;> infer_instance

namespace Process

variable {env : Env} {p p' : Process} {v u : Var} {pl : Plugin} {L : LibId}

/-- Everything destroyed so far was destroyed while its library was held. -/
def InTime (p : Process) : Prop := ∀ e ∈ p.log, e.InTime

theorem inTime_append {l : List Event} {e : Event} :
    (∀ e' ∈ l ++ [e], e'.InTime) ↔ (∀ e' ∈ l, e'.InTime) ∧ e.InTime := by
  simp [or_imp, forall_and]

theorem inTime_destroyInfo (info : Info CodePtr) :
    (p.destroyInfo info).InTime ↔ p.InTime ∧ p.world.ImageHeld info.deleter.image := by
  unfold InTime destroyInfo
  rw [inTime_append]
  exact and_congr_right fun _ => decide_eq_true_iff

theorem inTime_releaseInfo (info : Option (ConstInfoPtr CodePtr)) :
    (p.releaseInfo info).InTime ↔ p.InTime ∧
      ∀ ptr ∈ info, p.InfoHeld ptr.addr ∨ p.world.ImageHeld ptr.info.deleter.image := by
  cases info with
  | none => simp [releaseInfo]
  | some ptr =>
    simp only [releaseInfo, Option.mem_some_iff, forall_eq']
    split
    · rename_i hh
      exact ⟨fun h => ⟨h, Or.inl hh⟩, And.left⟩
    · rename_i hh
      rw [inTime_destroyInfo]
      exact and_congr_right fun _ => (or_iff_right hh).symm

theorem inTime_releaseInstance (hm : p.world.Matched) (instance_ : Option InstancePtr) :
    (p.releaseInstance instance_).InTime ↔ p.InTime := by
  rcases releaseInstance_cases p instance_ with ⟨he, _⟩ | ⟨ptr, i, _, _, hi, he⟩
  · rw [he]
  · rw [he]
    unfold InTime
    rw [inTime_append]
    exact and_iff_left (decide_eq_true (World.imageHeld_of_instance hm hi))

/-! ### Letting go of a variable -/

/-- Some handle of the image is held by the Loader, or by an instance that somebody else than
the variable refers to. -/
def ImageHeldElsewhere (p : Process) (v : Var) (image : Image) : Prop :=
  image = .executable ∨ Has (fun _ hp => hp.image = image) p.world.impl.pluginToDlHandlePtrs ∨
    Has (fun block i => p.InstanceHeldElsewhere v block ∧ ∃ hp ∈ i.dlHandlePtr, hp.image = image)
      p.world.instances

instance (p : Process) (v : Var) (image : Image) : Decidable (p.ImageHeldElsewhere v image) := by
  unfold ImageHeldElsewhere; infer_instance

/-- The `Info` that the variable refers to is held by somebody else, or its library is. -/
def SparesInfo (p : Process) (v : Var) (pl : Plugin) : Prop :=
  ∀ ptr ∈ pl.info, p.InfoHeldElsewhere v ptr.addr ∨
    p.ImageHeldElsewhere v ptr.info.deleter.image

instance (p : Process) (v : Var) (pl : Plugin) : Decidable (p.SparesInfo v pl) := by
  unfold SparesInfo; infer_instance

/-- Clearing or overwriting a variable spares its `Info`; so does destroying one, if it has
no instance. -/
def SparesInfos (p : Process) : Op → Prop
  | .clear v | .assign v _ => ∀ pl ∈ p.plugins.lookup v, p.SparesInfo v pl
  | .destroy v => ∀ pl ∈ p.plugins.lookup v, pl.loadedInstancePtr = none → p.SparesInfo v pl
  | _ => True

instance (p : Process) (op : Op) : Decidable (p.SparesInfos op) := by
  induction op using Op.casesOn <;> unfold SparesInfos <;> infer_instance

theorem clear_imageHeld (h : Consistent env p) (hl : p.plugins.lookup v = some pl)
    (image : Image) : (p.clear v).world.ImageHeld image ↔ p.ImageHeldElsewhere v image := by
  have hheld : ∀ block, (p.clear v).InstanceHeld block ↔ p.InstanceHeldElsewhere v block :=
    fun block => instanceHeld_of_insert_none (clear_plugins hl) (clear_shared p v) rfl
  have hlocals : (p.clear v).world.locals = [] := by
    rcases clear_step env p v with he | ⟨block, hs⟩
    · rw [he]
      exact h.sound.locals
    · exact (World.step_sound h.sound hs).1.locals
  unfold World.ImageHeld ImageHeldElsewhere
  rw [clear_impl, hlocals]
  refine or_congr_right (or_congr_right ?_)
  rw [or_iff_left (by simp)]
  constructor
  · rintro ⟨block, i, hi, hp⟩
    rw [(clear_released h hl).instances] at hi
    split at hi
    · rename_i hh
      exact ⟨block, i, hi, (hheld block).mp hh, hp⟩
    · cases hi
  · rintro ⟨block, i, hi, hh, hp⟩
    exact ⟨block, i, by rw [(clear_released h hl).instances, if_pos ((hheld block).mpr hh), hi], hp⟩

theorem inTime_clear (h : Consistent env p) (hm : p.world.Matched)
    (hl : p.plugins.lookup v = some pl) :
    (p.clear v).InTime ↔ p.InTime ∧ p.SparesInfo v pl := by
  have hworld := clear_world hl
  have himage := clear_imageHeld h hl
  unfold SparesInfo
  simp only [← himage, hworld]
  simp only [clear, hl]
  change (releaseInfo _ _).InTime ↔ _
  rw [inTime_releaseInfo]
  refine and_congr (inTime_releaseInstance (p := p.setPlugin v _) hm _) ?_
  refine forall₂_congr fun ptr _ => or_congr_left ?_
  refine infoHeld_of_insert_none (?_ : _ = p.plugins.insert v ⟨pl.interfaces, none, none⟩) ?_ rfl
  · simp [setPlugin]
  · simp [setPlugin]

theorem inTime_assign : (p.assign v u).InTime ↔ (p.clear v).InTime := by
  have hlog : (p.assign v u).log = (p.clear v).log := by
    simp only [assign]
    split <;> rfl
  unfold InTime
  rw [hlog]

/-- A reference to an object and an `Info` is to the `Info` that the object was made from. -/
def Paired (p : Process) (weak : WeakPluginPtr) : Prop :=
  ∀ ptr ∈ weak.instance_, ptr.block < p.world.next ∧
    ∀ i ∈ p.world.instances.lookup ptr.block, ∀ info ∈ weak.info, i.deleter = info.info.deleter

theorem paired_next {op : Op} (hall : AllRefs p.Paired p) (h : Consistent env p)
    (hs : step env p op = some p') : AllRefs p'.Paired p' := by
  have hle := step_next_le h hs
  have hold : ∀ weak, p.Paired weak → p'.Paired weak := by
    intro weak hw ptr hptr
    obtain ⟨hlt, hdel⟩ := hw ptr hptr
    exact ⟨hlt.trans_le hle, fun i hi => hdel i (step_old_instance h hs hlt hi)⟩
  refine hall.next h hs ?_ hold ?_ ?_
  · intro ptr hptr
    cases hptr
  · intro weak _ hw
    refine hold _ fun ptr hptr => ?_
    obtain ⟨hlt, hdel⟩ := hw ptr (Option.filter_eq_some_iff.mp hptr).1
    exact ⟨hlt, fun i hi info hinfo => hdel i hi info (Option.filter_eq_some_iff.mp hinfo).1⟩
  · intro v block weak hm ptr hptr
    obtain ⟨ptr', info, i, hweak, hblock, _, hdel, hinst⟩ := hm.instances
    rw [hweak] at hptr ⊢
    cases hptr
    constructor
    · rw [hm.next, hblock]
      exact Nat.lt_succ_self block
    · intro j hj info' hinfo'
      cases hinfo'
      rw [Option.mem_def, hinst, hblock, Finmap.lookup_insert] at hj
      cases hj
      exact hdel

/-- The members of a `PluginPtr` are destroyed in an order that is always in time; only one
without an instance depends on others. -/
theorem inTime_destroy (h : Consistent env p) (hm : p.world.Matched) (hall : AllRefs p.Paired p)
    (hl : p.plugins.lookup v = some pl) :
    (p.destroy v).InTime ↔ p.InTime ∧ (pl.loadedInstancePtr = none → p.SparesInfo v pl) := by
  have hfirst : (p.destroy v).InTime ↔ p.InTime ∧ ∀ ptr ∈ pl.info,
      p.InfoHeldElsewhere v ptr.addr ∨ p.world.ImageHeld ptr.info.deleter.image := by
    simp only [destroy, hl]
    rw [inTime_releaseInstance]
    · change (releaseInfo _ _).InTime ↔ _
      rw [inTime_releaseInfo]
      refine and_congr_right fun _ => forall₂_congr fun ptr _ => or_congr_left ?_
      exact infoHeld_of_insert_none rfl rfl rfl
    · simpa [erasePlugin, setPlugin] using hm
  rw [hfirst]
  refine and_congr_right fun _ => ?_
  cases hinst : pl.loadedInstancePtr with
  | some ptr =>
    -- the instance is alive and keeps the library of its `Info`
    refine iff_of_true ?_ (fun hn => by cases hn)
    intro info hinfo
    obtain ⟨i, hi⟩ := Finmap.mem_iff.mp
      ((h.alive ptr.block).mpr (Or.inl ⟨v, pl, hl, ptr, hinst, rfl⟩))
    have hdel := (hall.plugins (ref_eq hl) ptr hinst).2 i hi info hinfo
    rw [← hdel]
    exact Or.inr (World.imageHeld_of_instance hm hi)
  | none =>
    have hothers : ∀ {block i}, p.world.instances.lookup block = some i →
        p.InstanceHeldElsewhere v block := by
      intro block i hi
      have hh := (h.alive block).mp (Finmap.mem_of_lookup_eq_some hi)
      exact ((instanceHeld_iff hl).mp hh).resolve_left (not_refersTo hinst)
    have himage : ∀ image, p.world.ImageHeld image ↔ p.ImageHeldElsewhere v image := by
      intro image
      unfold World.ImageHeld ImageHeldElsewhere
      rw [h.sound.locals]
      refine or_congr_right (or_congr_right ?_)
      rw [or_iff_left (by simp)]
      constructor
      · rintro ⟨block, i, hi, hp⟩
        exact ⟨block, i, hi, hothers hi, hp⟩
      · rintro ⟨block, i, hi, _, hp⟩
        exact ⟨block, i, hi, hp⟩
    simp only [SparesInfo, himage, forall_const]

/-! ### The Loader lets go in time -/

theorem addPlugins_inTime (env : Env) {hp : DlHandlePtr} {infos : List (Info CodePtr)}
    (himages : ∀ info ∈ infos, info.deleter.image = hp.image) (st : Process × Finset String)
    (hmem : hp ∈ st.1.world.locals) (h : st.1.InTime) :
    (infos.foldl (addPlugin env hp) st).1.InTime ∧
      hp ∈ (infos.foldl (addPlugin env hp) st).1.world.locals := by
  induction infos generalizing st with
  | nil => exact ⟨h, hmem⟩
  | cons info infos ih =>
    have hworld : (addPlugin env hp st info).1.world =
        (World.addPlugin env hp (st.1.world, st.2) info).1 :=
      congrArg Prod.fst (addPlugin_world env hp st info)
    have hlocals : hp ∈ (addPlugin env hp st info).1.world.locals := by
      rw [hworld, (World.addPlugin_around (st.1.world, st.2) info).locals]
      exact hmem
    refine ih (fun i hi => himages i (List.mem_cons_of_mem info hi)) _ hlocals ?_
    have himage := himages info List.mem_cons_self
    simp only [addPlugin]
    change (ite _ _ _ : Process).InTime
    split
    · exact h
    · refine inTime_destroyInfo _ |>.mpr ⟨h, ?_⟩
      exact Or.inr (Or.inr (Or.inr ⟨hp, hmem, himage.symm⟩))

theorem destroyInfos_inTime {hp : DlHandlePtr} {infos : List (Info CodePtr)}
    (himages : ∀ info ∈ infos, info.deleter.image = hp.image) (p : Process)
    (hmem : hp ∈ p.world.locals) (h : p.InTime) : (infos.foldl destroyInfo p).InTime := by
  induction infos generalizing p with
  | nil => exact h
  | cons info infos ih =>
    refine ih (fun i hi => himages i (List.mem_cons_of_mem info hi)) (p.destroyInfo info) hmem ?_
    have himage := himages info List.mem_cons_self
    exact (inTime_destroyInfo info).mpr ⟨h, Or.inr (Or.inr (Or.inr ⟨hp, hmem, himage.symm⟩))⟩

theorem releaseInfos_inTime {infos : StringMap (ConstInfoPtr CodePtr)} (order : List String)
    (himages : ∀ name, ∀ ptr ∈ infos.lookup name, p.world.ImageHeld ptr.info.deleter.image)
    (h : p.InTime) :
    (order.foldl (fun p name => p.releaseInfo (infos.lookup name)) p).InTime := by
  induction order generalizing p with
  | nil => exact h
  | cons name order ih =>
    apply ih
    · rw [releaseInfo_world]
      exact himages
    · exact (inTime_releaseInfo _).mpr ⟨h, fun ptr hptr => Or.inr (himages name ptr hptr)⟩

theorem forgetPlugin_inTime (forget : String) (hw : p.world.impl.filePlugins.WellFormed)
    (hth : p.world.thrown = false) (howned : p.world.Owned) (h : p.InTime) :
    (p.forgetPlugin forget).InTime := by
  obtain ⟨r, hr, _, _⟩ := hw.forgetInfo forget
  have hforget : p.world.forgetInfo forget =
      { p.world with impl := { p.world.impl with filePlugins := r } } := by
    simp [World.forgetInfo, hr]
  simp only [forgetPlugin, hth, Bool.false_eq_true, if_false, hforget]
  change (releaseInfo _ _).InTime
  refine (inTime_releaseInfo _).mpr ⟨h, ?_⟩
  intro ptr hptr
  obtain ⟨hp, hhp, himage⟩ := howned forget ptr hptr
  rw [← himage]
  exact Or.inr (World.imageHeld_of_stored hhp)

theorem owned_removed {names : Finset String} {w w' : World} (h : w.Owned)
    (hr : Implementation.Removed names w.impl w'.impl) : w'.Owned := by
  intro name ptr hptr
  rw [hr.plugins] at hptr
  split at hptr
  · cases hptr
  · rename_i hn
    rw [hr.handles, if_neg hn]
    exact h name ptr hptr

theorem forgetPlugins_inTime (order : List String) (hw : p.world.impl.filePlugins.WellFormed)
    (hth : p.world.thrown = false) (hlink : p.world.Linked) (howned : p.world.Owned)
    (h : p.InTime) : (order.foldl forgetPlugin p).InTime := by
  induction order generalizing p with
  | nil => exact h
  | cons forget order ih =>
    obtain ⟨hrem, hw', _, har, hlink'⟩ := World.forgetPlugin_spec forget hw hth hlink
    apply ih
    · rw [forgetPlugin_world]
      exact hw'
    · rw [forgetPlugin_world]
      exact har.thrown.trans hth
    · rw [forgetPlugin_world]
      exact hlink'
    · rw [forgetPlugin_world]
      exact owned_removed howned hrem
    · exact forgetPlugin_inTime forget hw hth howned h

theorem forgetHandle_inTime (hd : Handle) (order : List String) (hS : World.Sound env p.world)
    (howned : p.world.Owned) (h : p.InTime) : (p.forgetHandle hd order).InTime := by
  have hfold := forgetPlugins_inTime order hS.tables.registry hS.notThrown hS.linked howned h
  unfold forgetHandle
  split
  · exact h
  simp only
  split
  · exact hfold
  · exact hfold

theorem loadLib_inTime {path : String} (noDelete : Bool) {res : World.DlopenResult}
    (loadedPlugins : List (Info Symbol)) (hlink : p.world.Linked) (ha : p.world.alive = true)
    (hr : p.world.DlopenMayReturn env path res) (h : p.InTime) :
    (p.loadLib env path noDelete res loadedPlugins).InTime := by
  unfold loadLib
  rcases World.openLib_cases noDelete hlink ha hr with
    ⟨w, he, _, _, _, _⟩ | ⟨lib, hp, w, he, ho⟩
  · rw [he]
    exact h
  · rw [he]
    have himages : ∀ info ∈ World.relocate hp loadedPlugins, info.deleter.image = hp.image := by
      intro info hinfo
      obtain ⟨i, _, rfl⟩ := List.mem_map.mp hinfo
      rfl
    have hmem : hp ∈ w.locals := by
      rw [ho.locals]
      exact List.mem_cons_self
    obtain ⟨hadd, hlocal⟩ := addPlugins_inTime env himages ({ p with world := w }, ∅) hmem h
    change (List.foldl destroyInfo _ _).InTime
    apply destroyInfos_inTime himages
    · exact hlocal
    · exact hadd

theorem forgetLibrary_inTime {path : String} {res : Option Handle} (order : List String)
    (hS : World.Sound env p.world) (howned : p.world.Owned)
    (hr : p.world.NoLoadMayReturn env path res) (h : p.InTime) :
    (p.forgetLibrary env path res order).InTime := by
  unfold forgetLibrary
  cases res with
  | none => exact h
  | some hd =>
    cases hlib : env.resolve path with
    | none => exact h
    | some lib =>
      simp only [World.NoLoadMayReturn, hlib] at hr
      have hS' : World.Sound env { p.world with
          dl := (p.world.dl.dlopen lib hd p.world.next false).dlclose hd } :=
        ⟨World.noLoad_linked hS.linked hr, hS.tables, hS.locals, hS.notThrown⟩
      exact forgetHandle_inTime (p := { p with world := _ }) hd order hS' howned h

theorem loader_inTime {op : World.Op} (hS : World.Sound env p.world) (hm : p.world.Matched)
    (hen : p.world.Enabled env op) (h : p.InTime) : (p.loader env op).InTime := by
  have howned : p.world.Owned := hS.owned hm
  cases op with
  | loadLib path noDelete res loadedPlugins =>
    obtain ⟨ha, hr, _⟩ := hen
    exact loadLib_inTime noDelete loadedPlugins hS.linked ha hr h
  | forgetLibrary path res order =>
    obtain ⟨_, hr, _⟩ := hen
    exact forgetLibrary_inTime order hS howned hr h
  | forgetLibraryOfPlugin s order =>
    simp only [loader, forgetLibraryOfPlugin]
    split
    · exact h
    · exact forgetHandle_inTime _ order hS howned h
  | destroyLoader order =>
    refine releaseInfos_inTime (p := { p with world := p.world.clearTables }) order ?_ h
    intro name ptr hptr
    obtain ⟨hp, hhp, himage⟩ := howned name ptr hptr
    rw [← himage]
    exact World.imageHeld_of_stored (w := p.world.clearTables) hhp
  | _ => exact h

/-! ### A run with one library -/

/-- The invariant of a process with one library. -/
structure OneLibrary (env : Env) (L : LibId) (p : Process) : Prop where
  consistent : Consistent env p
  library : World.OneLibrary L p.world
  paired : AllRefs p.Paired p

theorem OneLibrary.next {op : Op} (h : OneLibrary env L p) (hload : ∀ lib ∈ op.loads env, lib = L)
    (hs : step env p op = some p') : OneLibrary env L p' where
  consistent := step_consistent h.consistent hs
  library := by
    rcases step_world hs with he | ⟨o, hstep, rfl | hon⟩
    · rw [he]
      exact h.library
    · exact h.library.next h.consistent.sound hload hstep
    · apply h.library.next h.consistent.sound _ hstep
      rw [loads_of_not_onLoader hon]
      intro lib hlib
      cases hlib
  paired := paired_next h.paired h.consistent hs

theorem inTime_of_log (hlog : p'.log = p.log) : p'.InTime ↔ p.InTime := by
  unfold InTime
  rw [hlog]

theorem Refers.inTime (h : Refers p p') : p'.InTime ↔ p.InTime := by
  rcases h.log with hlog | hlog
  · exact inTime_of_log hlog
  · unfold InTime
    rw [hlog, inTime_append]
    exact and_iff_left trivial

theorem OneLibrary.inTime_iff {op : Op} (h : OneLibrary env L p) (hP : p.InTime)
    (hs : step env p op = some p') : p'.InTime ↔ p.SparesInfos op := by
  have hm := h.library.matched
  have hkept : ∀ {q : Process}, (q.InTime ↔ p.InTime) → (q.InTime ↔ True) := fun hq =>
    iff_of_true (hq.mpr hP) trivial
  obtain ⟨hen, rfl⟩ := step_eq_some.mp hs
  have hrefers : op.OnlyRefers → Refers p (p.after env op) := after_refers env p
  cases op with
  | loader op =>
    exact iff_of_true (loader_inTime h.consistent.sound hm hen.2 hP) trivial
  | instantiate v specInterfaces s instance_ =>
    obtain ⟨new, fromThis, he, _⟩ := instantiate_eq env p v specInterfaces s instance_
    exact hkept (inTime_of_log (by rw [after, he]))
  | assign v u =>
    obtain ⟨pl, hl⟩ := Finmap.mem_iff.mp hen.1
    refine inTime_assign.trans ((inTime_clear h.consistent hm hl).trans ?_)
    simp [SparesInfos, hP, hl]
  | clear v =>
    obtain ⟨pl, hl⟩ := Finmap.mem_iff.mp hen
    refine (inTime_clear h.consistent hm hl).trans ?_
    simp [SparesInfos, hP, hl]
  | destroy v =>
    obtain ⟨pl, hl⟩ := Finmap.mem_iff.mp hen
    refine (inTime_destroy h.consistent hm h.paired hl).trans ?_
    simp [SparesInfos, hP, hl]
  | dropShared i =>
    exact hkept (inTime_releaseInstance (p := { p with shared := p.shared.erase i }) hm _)
  | _ => exact hkept (hrefers trivial).inTime

/-- In a run of a Loader with one plugin library every deleter runs and every `Info` is
destroyed while the library is held, if and only if whenever a `PluginPtr` is cleared or
overwritten, or destroyed without an instance, somebody else holds its `Info` or the
library. -/
theorem inTime_iff_sparesInfos (env : Env) (L : LibId) {l : List (Op × Process)}
    (hrun : Run (step env) init l)
    (hload : Steps (fun _ op => ∀ lib ∈ op.loads env, lib = L) init l) :
    States InTime init l ↔ Steps SparesInfos init l := by
  refine hrun.states_iff_of_guard (I := OneLibrary env L) hload
    ⟨init_consistent env, World.init_oneLibrary L, init_allRefs _⟩
    (fun e he => by cases he) ?_ ?_
  · exact fun hA hI _ hs => hI.next hA hs
  · exact fun _ hI hP hs => hI.inTime_iff hP hs

/-- The library is forgotten, and the last `PluginPtr` is destroyed. -/
theorem inTime_forgotten :
    States InTime init (history (step sharedName) init (oneInstance ++ [forgetIt, .destroy 0])) :=
  (inTime_iff_sparesInfos sharedName 0
    (history_run (step sharedName) init (oneInstance ++ [forgetIt, .destroy 0]))
    (by decide)).mpr (by decide)

/-- The library is forgotten, and the last `PluginPtr` is cleared: the instance takes the
library with it before the `Info` is reset. -/
theorem not_inTime_cleared :
    ¬ ∀ l, Run (step sharedName) init l →
      Steps (fun _ op => ∀ lib ∈ op.loads sharedName, lib = 0) init l → States InTime init l := by
  intro h
  have hstates := h _ (history_run (step sharedName) init (oneInstance ++ [forgetIt, .clear 0]))
    (by decide)
  have hlast := hstates.last
  exact absurd (hlast (.infoDestroyed (.mapped 0 0) false) (by decide)) (by decide)

end Process

end GzPlugin
