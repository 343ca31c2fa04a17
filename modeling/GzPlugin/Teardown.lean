import GzPlugin.Reclamation
import GzPlugin.Catalogue
import GzPlugin.Records

/-!
# Letting go of libraries

Forgetting, the end of instances and the end of the Loader drop references to dl handles. A
handle is closed with its last reference, so the linker ends up the same in whatever order
and by whichever of these ways the references go.
-/

namespace GzPlugin

open FiniteMaps Runs Reclamation

set_option autoImplicit false

/-- What `dlclose` makes of the mapping behind a handle. -/
def Dl.closeRef (m : Option Mapping) : Option Mapping :=
  m.bind fun m =>
    if Mapping.InUse { m with loaderRefs := m.loaderRefs - 1 } then
      some { m with loaderRefs := m.loaderRefs - 1 }
    else none

theorem Dl.dlclose_lookup (dl : Dl) (h : Handle) :
    (dl.dlclose h).lookup h = closeRef (dl.lookup h) := by
  unfold dlclose closeRef
  cases hm : dl.lookup h with
  | none => exact hm
  | some m => rw [Option.bind_some, put_lookup, if_pos rfl]

namespace World

variable {env : Env} {w w' w'' : World} {hp : DlHandlePtr}

/-- From `w` to `w'` references were dropped, and the handles that lost their last one were
closed. -/
def Reclaims (w w' : World) : Prop :=
  Reclaimed DlHandlePtr.handle Dl.closeRef w.Held (fun h => w.dl.lookup h) w'.Held
    fun h => w'.dl.lookup h

theorem Reclaims.refl (w : World) : Reclaims w w := Reclaimed.refl _ _ _ _

theorem Reclaims.trans (hL : w.Linked) (h : Reclaims w w') (h' : Reclaims w' w'') :
    Reclaims w w'' :=
  Reclaimed.trans (fun hH hH' he => hL.unique hH hH' he) h h'

theorem Reclaims.dl_eq (h : Reclaims w w') (h' : Reclaims w w'')
    (he : ∀ hp, w'.Held hp ↔ w''.Held hp) : w'.dl = w''.dl := by
  apply Finmap.ext_lookup
  exact congrFun (h.unique h' he)

theorem held_release {hp' : DlHandlePtr} : (w.release hp).Held hp' ↔ w.Held hp' := by
  unfold Held
  rw [release_impl, release_instances, release_locals]

/-- Dropping one reference, where `w'` is the state without it. -/
theorem release_reclaims (hdl : w'.dl = w.dl)
    (hiff : ∀ hp', w.Held hp' ↔ hp' = hp ∨ w'.Held hp') : Reclaims w (w'.release hp) := by
  refine Reclaimed.release (r := hp) (fun hp' => (hiff hp').trans (or_congr_right held_release.symm))
    ?_ ?_
  · intro hnot
    rw [held_release] at hnot
    simp only [release, if_neg hnot, hdl]
    exact Dl.dlclose_lookup w.dl hp.handle
  · intro h hor
    rw [held_release] at hor
    by_cases hheld : w'.Held hp
    · simp only [release, if_pos hheld, hdl]
    · simp only [release, if_neg hheld, hdl]
      rcases hor with hh | hne
      · exact absurd hh hheld
      · exact Dl.dlclose_lookup_ne w.dl (Ne.symm hne)

theorem eraseHandle_reclaims (w : World) (name : String) : Reclaims w (w.eraseHandle name) := by
  unfold eraseHandle
  split
  · exact .refl w
  · rename_i old hold
    exact release_reclaims rfl fun _ => held_iff_of_handle hold

theorem setHandle_reclaims (name : String) (hheld : w.Held hp) :
    Reclaims w (w.setHandle name hp) := by
  unfold setHandle
  split
  · rename_i hnone
    have hsame : ∀ hp', w.Held hp' ↔ Held { w with impl := { w.impl with
        pluginToDlHandlePtrs := w.impl.pluginToDlHandlePtrs.insert name hp } } hp' :=
      fun _ => held_iff_insert_new hheld (Finmap.lookup_eq_none.mp hnone)
    exact (Reclaims.refl { w with impl := { w.impl with
      pluginToDlHandlePtrs := w.impl.pluginToDlHandlePtrs.insert name hp } }).congr_left hsame
  · rename_i old hold
    exact release_reclaims rfl fun _ => held_iff_insert_handle hheld hold

theorem dropLocal_reclaims (hmem : hp ∈ w.locals) : Reclaims w (w.dropLocal hp) :=
  release_reclaims rfl fun _ => held_iff_of_local hmem

theorem destroyInstance_reclaims (w : World) (block : Nat) :
    Reclaims w (w.destroyInstance block) := by
  unfold destroyInstance
  cases hi : w.instances.lookup block with
  | none => exact .refl w
  | some i =>
    cases hhp : i.dlHandlePtr with
    | none =>
      simp only [hhp]
      refine (Reclaims.refl { w with instances := w.instances.erase block }).congr_left ?_
      intro hp'
      rw [held_iff_of_instance hi, hhp]
      exact or_iff_right nofun
    | some hp =>
      simp only [hhp]
      refine release_reclaims rfl fun hp' => ?_
      rw [held_iff_of_instance hi, hhp, Option.some.injEq, eq_comm]

theorem eraseHandles_reclaims (order : List String) (h : w.Linked) :
    Reclaims w (order.foldl eraseHandle w) := by
  induction order generalizing w with
  | nil => exact .refl w
  | cons name order ih =>
    exact (eraseHandle_reclaims w name).trans h (ih (eraseHandle_linked h name))

theorem destroyLoader_reclaims (order : List String) (h : w.Linked) :
    Reclaims w (w.destroyLoader order) := by
  have hdead : w.clearTables.Linked := h.dead
  exact eraseHandles_reclaims (w := w.clearTables) order hdead

theorem forgetPlugin_reclaims (name : String) (hw : w.impl.filePlugins.WellFormed)
    (hth : w.thrown = false) : Reclaims w (w.forgetPlugin name) := by
  obtain ⟨r, hr, _, _⟩ := hw.forgetInfo name
  have he : w.forgetPlugin name =
      { w with impl := { w.impl with filePlugins := r } }.eraseHandle name := by
    simp [forgetPlugin, forgetInfo, hth, hr]
  rw [he]
  exact eraseHandle_reclaims { w with impl := { w.impl with filePlugins := r } } name

theorem forgetPlugins_reclaims (order : List String) (hw : w.impl.filePlugins.WellFormed)
    (hth : w.thrown = false) (h : w.Linked) : Reclaims w (order.foldl forgetPlugin w) := by
  induction order generalizing w with
  | nil => exact .refl w
  | cons name order ih =>
    obtain ⟨_, hw', _, har, hlink⟩ := forgetPlugin_spec name hw hth h
    exact (forgetPlugin_reclaims name hw hth).trans h (ih hw' (har.thrown.trans hth) hlink)

theorem forgetHandle_reclaims (hS : Sound env w) (h : Handle) (order : List String) :
    Reclaims w (w.forgetHandle h order).2 := by
  have hfold := forgetPlugins_reclaims order hS.tables.registry hS.notThrown hS.linked
  unfold forgetHandle
  split
  · exact .refl w
  simp only
  split
  · exact hfold
  · exact hfold

/-! ### Steps and runs -/

/-- The operation only lets go of references. -/
def Op.LetsGo : Op → Prop
  | .forgetLibrary _ _ _ | .forgetLibraryOfPlugin _ _ | .destroyInstance _
  | .destroyLoader _ => True
  | _ => False

instance (op : Op) : Decidable op.LetsGo := by
  induction op using Op.casesOn <;> unfold Op.LetsGo <;> infer_instance

theorem step_reclaims {op : Op} (hF : Filing env w) (hop : op.LetsGo)
    (hs : step env w op = some w') : Reclaims w w' := by
  obtain ⟨hen, rfl⟩ := step_eq_some.mp hs
  cases op with
  | forgetLibrary path res order =>
    cases res with
    | none => exact .refl w
    | some h =>
      have he := forgetLibrary_eq hF.used hen.2.1 order
      simp only [after, he]
      exact forgetHandle_reclaims hF.sound h order
  | forgetLibraryOfPlugin s order =>
    simp only [after, forgetLibraryOfPlugin]
    split
    · exact .refl w
    · exact forgetHandle_reclaims hF.sound _ order
  | destroyInstance block => exact destroyInstance_reclaims w block
  | destroyLoader order => exact destroyLoader_reclaims order hF.sound.linked
  | _ => exact absurd hop id

theorem run_reclaims {l : List (Op × World)} (hF : Filing env w) (hrun : Run (step env) w l)
    (hl : ∀ e ∈ l, e.1.LetsGo) : Reclaims w (last w l) := by
  induction hrun with
  | nil w => exact .refl w
  | @cons w w' op l hs _ ih =>
    have hrest := ih (hF.next hs) fun e he => hl e (List.mem_cons_of_mem _ he)
    exact (step_reclaims hF (hl _ List.mem_cons_self) hs).trans hF.sound.linked hrest

/-- With no library on record, only living instances hold handles. -/
theorem Filing.held_iff (hF : Filing env w) (hnone : w.impl.dlHandleToPluginMap = ∅) :
    w.Held hp ↔ Has (fun _ i => i.dlHandlePtr = some hp) w.instances := by
  have hlocal : ¬ hp ∈ w.locals := by simp [hF.sound.locals]
  have htable : ¬ Has (fun _ p => p = hp) w.impl.pluginToDlHandlePtrs := by
    rintro ⟨name, _, hl, rfl⟩
    obtain ⟨_, _, _, _, hrec⟩ := hF.filed name _ hl
    simp [hnone] at hrec
  unfold Held
  rw [or_iff_right htable, or_iff_left hlocal]

/-- Two runs that let go of references from one state, by forgetting libraries, by ending
instances or by destroying the Loader, in any order: if both end with no library on record
and with the same instances alive, they leave the linker in the same state. That they end is to
say that no call went into a closed library. -/
theorem linker_eq_of_letsGo (env : Env) {w : World} (hw : Reachable (step env) init w)
    {l l' : List (Op × World)} (hrun : Run (step env) w l) (hrun' : Run (step env) w l')
    (hl : ∀ e ∈ l, e.1.LetsGo) (hl' : ∀ e ∈ l', e.1.LetsGo)
    (hnone : (last w l).impl.dlHandleToPluginMap = ∅)
    (hnone' : (last w l').impl.dlHandleToPluginMap = ∅)
    (hinst : (last w l).instances = (last w l').instances) :
    (last w l).dl = (last w l').dl := by
  have hF : Filing env w := hw.invariant (init_filing env) fun hF hs => hF.next hs
  have hend : Filing env (last w l) := (hrun.states_of_step hF fun hF hs => hF.next hs).last
  have hend' : Filing env (last w l') := (hrun'.states_of_step hF fun hF hs => hF.next hs).last
  refine (run_reclaims hF hrun hl).dl_eq (run_reclaims hF hrun' hl') fun hp => ?_
  rw [hend.held_iff hnone, hend'.held_iff hnone', hinst]

/-- Two libraries, and an instance of the first one's plugin. -/
def twoAndInstance : World :=
  last init (history (step commonAlias) init
    [.loadLib "a" false ⟨some 1, false⟩ [pluginOf "p" p_ne ["I"] ["x"]],
      .loadLib "b" false ⟨some 2, false⟩ [pluginOf "q" q_ne ["I"] ["x"]],
      .instantiate "p" 5])

/-- Forgetting both libraries does to the linker what the end of the Loader does. -/
theorem linker_eq_twoAndInstance :
    (last twoAndInstance (history (step commonAlias) twoAndInstance
      [.forgetLibrary "a" (some 1) ["p"], .forgetLibraryOfPlugin "q" ["q"]])).dl =
    (last twoAndInstance
      (history (step commonAlias) twoAndInstance [.destroyLoader ["q", "p"]])).dl :=
  linker_eq_of_letsGo commonAlias ⟨_, history_run (step commonAlias) init _, rfl⟩
    (history_run _ twoAndInstance _) (history_run _ twoAndInstance _) (by decide) (by decide)
    (by decide) (by decide) (by decide)

end World

end GzPlugin
