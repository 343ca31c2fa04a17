import GzPlugin.Mapped
import GzPlugin.Trace

/-!
# What ForgetLibrary answers

`ForgetLibrary` answers by the names recorded for a handle value, not by the handles that the
Loader holds. The two agree as long as every record keeps a plugin of its own.
-/

namespace GzPlugin

open FiniteMaps Runs

set_option autoImplicit false

namespace Dl

variable {dl : Dl} {h : Handle} {m : Mapping}

/-- Nothing stays mapped without a reason. -/
def Used (dl : Dl) : Prop := ∀ h m, dl.lookup h = some m → m.InUse

theorem Used.insert (hu : dl.Used) (h : Handle) (hm : m.InUse) : Used (dl.insert h m) := by
  intro h' m' hl
  rw [lookup_insert_eq] at hl
  split at hl
  · cases hl
    exact hm
  · exact hu h' m' hl

theorem Used.put (hu : dl.Used) (h : Handle) (m : Mapping) : Used (dl.put h m) := by
  intro h' m' hl
  rw [put_lookup] at hl
  split at hl
  · split at hl
    · cases hl
      assumption
    · cases hl
  · exact hu h' m' hl

theorem Used.run (hu : dl.Used) (c : DlCall) : Used (c.run dl) := by
  cases c with
  | dlopen lib h serial noDelete =>
    apply hu.insert
    unfold opened
    split
    · exact Or.inl (Nat.succ_pos _)
    · exact Or.inl Nat.one_pos
  | dlclose h =>
    change Used (dl.dlclose h)
    unfold Dl.dlclose
    split
    · exact hu
    · exact hu.put h _

theorem Used.otherOpen (hu : dl.Used) (lib : LibId) (h : Handle) (serial : Nat) :
    Used (dl.otherOpen lib h serial) := by
  unfold Dl.otherOpen
  split
  · exact hu.insert h (Or.inr (Or.inl (Nat.succ_pos _)))
  · exact hu.insert h (Or.inr (Or.inl Nat.one_pos))

theorem Used.otherClose (hu : dl.Used) (h : Handle) : Used (dl.otherClose h) := by
  unfold Dl.otherClose
  split
  · exact hu
  · exact hu.put h _

/-- `dlopen` with `RTLD_NOLOAD` and the `dlclose` after it change nothing. -/
theorem Used.dlopen_dlclose (hu : dl.Used) (hm : dl.lookup h = some m) (lib : LibId)
    (serial : Nat) : (dl.dlopen lib h serial false).dlclose h = dl := by
  have ho : (dl.dlopen lib h serial false).lookup h =
      some { m with loaderRefs := m.loaderRefs + 1, noDelete := m.noDelete || false } := by
    rw [dlopen_lookup, if_pos rfl, opened_of_open hm]
  have hsame : ({ m with
      loaderRefs := m.loaderRefs + 1 - 1, noDelete := m.noDelete || false } : Mapping) = m := by
    simp
  apply Finmap.ext_lookup
  intro h'
  by_cases he : h' = h
  · subst he
    simp only [dlclose, ho, put_lookup, if_true, hsame, if_pos (hu h' m hm), hm]
  · rw [dlclose_lookup_ne _ he, dlopen_lookup, if_neg he]

end Dl

namespace World

variable {env : Env} {w w' : World} {path : String} {h : Handle} {hp : DlHandlePtr}
  {order : List String}

/-- Some entry of `pluginToDlHandlePtrs` refers to the handle. -/
def Holds (w : World) (h : Handle) : Prop :=
  Has (fun _ hp => hp.handle = h) w.impl.pluginToDlHandlePtrs

instance (w : World) (h : Handle) : Decidable (w.Holds h) := by
  unfold Holds; infer_instance

/-- `ForgetLibrary` tells the truth about the handle, and does what it tells; if there is a record,
the loop reaches its end. -/
structure ReportsOn (env : Env) (w : World) (path : String) (h : Handle) (order : List String) :
    Prop where
  truth : (w.forgetLibrary env path (some h) order).1 = true ↔ w.Holds h
  forgotten : (w.forgetLibrary env path (some h) order).1 = true →
    ¬ (w.forgetLibrary env path (some h) order).2.Holds h
  idle : ¬ w.Holds h → (w.forgetLibrary env path (some h) order).1 = false ∧
    (w.forgetLibrary env path (some h) order).2 = w
  walks : h ∈ w.impl.dlHandleToPluginMap.keys → w.Walks order

/-- It does so for every path to a library that is open, whoever opened it. -/
def Reports (env : Env) (w : World) : Prop :=
  ∀ path h order, w.NoLoadMayReturn env path (some h) → w.WalkedInOrder h order →
    ReportsOn env w path h order

/-- Every stored handle is on record, with all plugin names of its library. -/
def Filed (env : Env) (w : World) : Prop :=
  ∀ name, ∀ hp ∈ w.impl.pluginToDlHandlePtrs.lookup name,
    ∃ lib serial, hp.image = .mapped lib serial ∧ name ∈ env.pluginNames lib ∧
      w.impl.dlHandleToPluginMap.lookup hp.handle = some (env.pluginNames lib)

/-- Every handle on record is the handle of some plugin. -/
def Covered (w : World) : Prop := ∀ h ∈ w.impl.dlHandleToPluginMap.keys, w.Holds h

/-- The handle that the operation loads or forgets. -/
def ownHandle (env : Env) (w : World) : Op → Option Handle
  | .loadLib _ _ res _ => res.handle
  | op => w.forgottenHandle env op

/-- The plugin names that the operation gives another handle or forgets. -/
def takenNames (env : Env) (w : World) (op : Op) : Finset String :=
  match op.loads env with
  | some lib => env.pluginNames lib
  | none => (w.forgottenNames env op).getD ∅

/-- A library that is loaded has a plugin, and every other handle on record keeps one. -/
def KeepsPlugins (env : Env) (w : World) (op : Op) : Prop :=
  (∀ lib ∈ op.loads env, (env.pluginNames lib).Nonempty) ∧
  ∀ h ∈ w.impl.dlHandleToPluginMap.keys, w.ownHandle env op ≠ some h →
    Has (fun name hp => hp.handle = h ∧ name ∉ w.takenNames env op) w.impl.pluginToDlHandlePtrs

instance (env : Env) (w : World) (op : Op) : Decidable (KeepsPlugins env w op) := by
  unfold KeepsPlugins; infer_instance

/-! ### One call of ForgetLibrary -/

theorem forgetLibrary_eq (hu : w.dl.Used) (hr : w.NoLoadMayReturn env path (some h))
    (order : List String) :
    w.forgetLibrary env path (some h) order = w.forgetHandle h order := by
  cases hlib : env.resolve path with
  | none => simp [NoLoadMayReturn, hlib] at hr
  | some lib =>
    simp only [NoLoadMayReturn, hlib] at hr
    obtain ⟨m, hm, _⟩ := hr
    simp only [forgetLibrary, hlib, hu.dlopen_dlclose hm]

/-- In a reachable state the answer is right exactly if the record, should there be one, is
that of a handle the Loader holds, and no `Info` is let go of after its library was closed. -/
theorem reportsOn_iff (hS : Sound env w) (hF : Filed env w) (hu : w.dl.Used)
    (hr : w.NoLoadMayReturn env path (some h)) (hord : w.WalkedInOrder h order) :
    ReportsOn env w path h order ↔
      (h ∈ w.impl.dlHandleToPluginMap.keys → w.Holds h ∧ w.Walks order) := by
  have he := forgetLibrary_eq hu hr order
  cases hl : w.impl.dlHandleToPluginMap.lookup h with
  | none =>
    have hn : ¬ w.Holds h := by
      intro hh
      obtain ⟨name, hp, hhp, hph⟩ := hh
      obtain ⟨lib, _, _, _, hrec⟩ := hF name hp hhp
      rw [hph, hl] at hrec
      cases hrec
    have hno : h ∉ w.impl.dlHandleToPluginMap.keys :=
      fun hm => Finmap.lookup_eq_none.mp hl (Finmap.mem_keys.mp hm)
    refine iff_of_true ?_ (fun hm => absurd hm hno)
    · rw [forgetHandle_none order hl] at he
      refine ⟨?_, ?_, ?_, fun hm => absurd hm hno⟩
      · rw [he]
        exact iff_of_false Bool.false_ne_true hn
      · rw [he]
        exact fun hf => absurd hf Bool.false_ne_true
      · rw [he]
        exact fun _ => ⟨rfl, rfl⟩
  | some names =>
    obtain ⟨htrue, hf⟩ := forgetHandle_some hl hord hS.tables.registry hS.notThrown hS.linked
    have hmem : h ∈ w.impl.dlHandleToPluginMap.keys :=
      Finmap.mem_keys.mpr (Finmap.mem_of_lookup_eq_some hl)
    constructor
    · intro hrep _
      refine ⟨hrep.truth.mp ?_, hrep.walks hmem⟩
      rw [he]
      exact htrue
    · intro hright
      obtain ⟨hheld, hwalk⟩ := hright hmem
      refine ⟨?_, ?_, fun hn => absurd hheld hn, fun _ => hwalk⟩
      · rw [he]
        exact iff_of_true htrue hheld
      · rw [he]
        intro _ hh
        obtain ⟨name, hp, hhp, hph⟩ := hh
        rw [hf.removed.handles] at hhp
        split at hhp
        · cases hhp
        · rename_i hn
          obtain ⟨lib, _, _, hname, hrec⟩ := hF name hp hhp
          rw [hph, hl] at hrec
          cases hrec
          exact hn hname

/-! ### Runs -/

theorem used_next {op : Op} (hu : w.dl.Used) (hs : step env w op = some w') : w'.dl.Used := by
  obtain ⟨_, rfl⟩ := step_eq_some.mp hs
  exact Traced.after_dl w op hu (fun c _ h => h.run c) (fun lib h serial _ hd =>
    hd.otherOpen lib h serial) fun h _ hd => hd.otherClose h

theorem Filed.next {op : Op} (hF : Filed env w) (hS : Sound env w)
    (hs : step env w op = some w') : Filed env w' := by
  intro name hp' hhp'
  cases (step_sound hS hs).2 with
  | loaded lib hp infos hop hl =>
    rw [Option.mem_def, hl.added.handles] at hhp'
    split at hhp'
    · rename_i hname
      cases hhp'
      obtain ⟨serial, himage⟩ := hl.image
      refine ⟨lib, serial, himage, (mem_pluginNames hl.enumerates).mpr hname, ?_⟩
      rw [hl.recorded]
      exact Finmap.lookup_insert _
    · obtain ⟨lib', serial', himage', hname, hrec⟩ := hF name hp' hhp'
      refine ⟨lib', serial', himage', hname, ?_⟩
      rw [hl.recorded, lookup_insert_eq]
      split
      · rename_i he
        obtain ⟨serial, himage⟩ := hl.image
        rw [hl.unique (held_of_handle hhp') he, himage] at himage'
        cases himage'
        rfl
      · exact hrec
  | forgot hd names hop hf =>
    rw [Option.mem_def, hf.removed.handles] at hhp'
    split at hhp'
    · cases hhp'
    · rename_i hn
      obtain ⟨lib, serial, himage, hname, hrec⟩ := hF name hp' hhp'
      refine ⟨lib, serial, himage, hname, ?_⟩
      rw [hf.recorded, lookup_erase_eq, if_neg]
      · exact hrec
      · intro he
        rw [he, hf.known] at hrec
        cases hrec
        exact hn hname
  | kept _ _ hq =>
    rw [hq.impl] at hhp' ⊢
    exact hF name hp' hhp'
  | destroyed himpl _ _ => simp [himpl, Implementation.empty] at hhp'

theorem loads_loaded {op : Op} {lib : LibId} (hS : Sound env w) (hen : w.Enabled env op)
    (hop : op.loads env = some lib) :
    ∃ hp infos, w.ownHandle env op = some hp.handle ∧
      Loaded env w lib hp infos (w.after env op) := by
  cases op with
  | loadLib path noDelete res infos =>
    obtain ⟨ha, hr, hvec⟩ := hen
    rcases openLib_cases noDelete hS.linked ha hr with
      ⟨w₁, _, _, _, _, herr⟩ | ⟨lib', hp, w₁, he, ho⟩
    · simp only [Op.loads, Option.ite_none_right_eq_some] at hop
      obtain ⟨hd, hhd⟩ := Option.isSome_iff_exists.mp hop.1.1
      have hbad := herr lib hd hop.2 hhd
      rw [hop.1.2] at hbad
      cases hbad
    · have hlib : lib' = lib := by
        simp only [Op.loads, Option.ite_none_right_eq_some, ho.resolved] at hop
        exact Option.some.inj hop.2
      subst hlib
      exact ⟨hp, infos, ho.handle, (ho.loaded he hvec).2⟩
  | _ => cases hop

theorem ownHandle_of_forgotten {op : Op} {hd : Handle}
    (hop : w.forgottenHandle env op = some hd) : w.ownHandle env op = some hd := by
  cases op <;> first | exact hop | cases hop

theorem Loaded.covered_iff {op : Op} {lib : LibId} {infos : List (Info Symbol)}
    (hl : Loaded env w lib hp infos w') (hop : op.loads env = some lib)
    (hown : w.ownHandle env op = some hp.handle) (hF : Filed env w) :
    w'.Covered ↔ KeepsPlugins env w op := by
  have hnames := @mem_pluginNames env lib infos hl.enumerates
  have hkeys : ∀ h, h ∈ w'.impl.dlHandleToPluginMap.keys ↔
      h = hp.handle ∨ h ∈ w.impl.dlHandleToPluginMap.keys := by
    intro h
    rw [hl.recorded, Finmap.mem_keys, Finmap.mem_insert, Finmap.mem_keys]
  have hlookup : ∀ name, w'.impl.pluginToDlHandlePtrs.lookup name =
      if name ∈ env.pluginNames lib then some hp
      else w.impl.pluginToDlHandlePtrs.lookup name := by
    intro name
    rw [hl.added.handles]
    simp only [hnames]
  constructor
  · intro hC'
    refine ⟨?_, ?_⟩
    · intro lib' hlib'
      rw [hop] at hlib'
      cases hlib'
      obtain ⟨name, hp', hhp', hph⟩ := hC' hp.handle ((hkeys _).mpr (Or.inl rfl))
      rw [hlookup] at hhp'
      split at hhp'
      · exact ⟨name, ‹_›⟩
      · obtain ⟨lib', serial', himage', hname, _⟩ := hF name hp' hhp'
        obtain ⟨serial, himage⟩ := hl.image
        rw [hl.unique (held_of_handle hhp') hph, himage] at himage'
        cases himage'
        exact ⟨name, hname⟩
    · intro h hm hne
      obtain ⟨name, hp', hhp', hph⟩ := hC' h ((hkeys h).mpr (Or.inr hm))
      rw [hlookup] at hhp'
      split at hhp'
      · cases hhp'
        exact absurd (hown.trans (congrArg some hph)) hne
      · refine ⟨name, hp', hhp', hph, ?_⟩
        simpa only [takenNames, hop]
  · intro hK h hm
    by_cases he : h = hp.handle
    · obtain ⟨name, hname⟩ := hK.1 lib hop
      refine ⟨name, hp, ?_, he.symm⟩
      rw [hlookup, if_pos hname]
    · have hold := ((hkeys h).mp hm).resolve_left he
      have hne : w.ownHandle env op ≠ some h := by
        rw [hown]
        exact fun heq => he (Option.some.inj heq).symm
      obtain ⟨name, hp', hhp', hph, hname⟩ := hK.2 h hold hne
      simp only [takenNames, hop] at hname
      refine ⟨name, hp', ?_, hph⟩
      rw [hlookup, if_neg hname]
      exact hhp'

theorem keepsPlugins_iff {op : Op} (hop : op.loads env = none) :
    KeepsPlugins env w op ↔
      ∀ h ∈ w.impl.dlHandleToPluginMap.keys, w.ownHandle env op ≠ some h →
        Has (fun name hp => hp.handle = h ∧ name ∉ (w.forgottenNames env op).getD ∅)
          w.impl.pluginToDlHandlePtrs := by
  simp [KeepsPlugins, takenNames, hop]

theorem Covered.keepsPlugins {op : Op} (hC : w.Covered) (hop : op.loads env = none)
    (hforget : w.forgottenNames env op = none) : KeepsPlugins env w op := by
  rw [keepsPlugins_iff hop, hforget]
  intro h hm _
  exact (hC h hm).imp fun _ _ hph => ⟨hph, Finset.notMem_empty _⟩

theorem Forgot.covered_iff {op : Op} {hd : Handle} {names : Finset String}
    (hf : Forgot w hd names w') (hop : op.loads env = none)
    (hown : w.forgottenHandle env op = some hd) : w'.Covered ↔ KeepsPlugins env w op := by
  have hnames : w.forgottenNames env op = some names := by
    simp [forgottenNames, hown, hf.known]
  have hkeys : ∀ h, h ∈ w'.impl.dlHandleToPluginMap.keys ↔
      h ∈ w.impl.dlHandleToPluginMap.keys ∧ w.ownHandle env op ≠ some h := by
    intro h
    rw [hf.recorded, Finmap.mem_keys, Finmap.mem_erase, Finmap.mem_keys,
      ownHandle_of_forgotten hown, ne_eq, ne_eq, Option.some.injEq, eq_comm, and_comm]
  rw [keepsPlugins_iff hop, hnames, Option.getD_some]
  constructor
  · intro hC' h hm hne
    obtain ⟨name, hp, hhp, hph⟩ := hC' h ((hkeys h).mpr ⟨hm, hne⟩)
    rw [hf.removed.handles] at hhp
    split at hhp
    · cases hhp
    · exact ⟨name, hp, hhp, hph, ‹_›⟩
  · intro hK h hm
    obtain ⟨hold, hne⟩ := (hkeys h).mp hm
    obtain ⟨name, hp, hhp, hph, hname⟩ := hK h hold hne
    refine ⟨name, hp, ?_, hph⟩
    rw [hf.removed.handles, if_neg hname]
    exact hhp

/-- A step keeps the records covered exactly if it keeps plugins. -/
theorem Covered.next_iff {op : Op} (hC : w.Covered) (hF : Filed env w) (hS : Sound env w)
    (hs : step env w op = some w') : w'.Covered ↔ KeepsPlugins env w op := by
  cases hop : op.loads env with
  | some lib =>
    obtain ⟨hen, rfl⟩ := step_eq_some.mp hs
    obtain ⟨hp, infos, hown, hl⟩ := loads_loaded hS hen hop
    exact hl.covered_iff hop hown hF
  | none =>
    cases (step_sound hS hs).2 with
    | loaded lib hp infos hop' _ =>
      rw [hop] at hop'
      cases hop'
    | forgot hd names hown hf => exact hf.covered_iff hop hown
    | kept _ hforget hq =>
      refine iff_of_true ?_ (hC.keepsPlugins hop hforget)
      intro h hm
      rw [hq.impl] at hm
      unfold Holds
      rw [hq.impl]
      exact hC h hm
    | destroyed himpl _ _ =>
      refine iff_of_true ?_ (hC.keepsPlugins hop rfl)
      intro h hm
      simp [himpl, Implementation.empty] at hm

/-- What holds in every reachable state. -/
structure Filing (env : Env) (w : World) : Prop where
  sound : Sound env w
  filed : Filed env w
  used : w.dl.Used

theorem init_filing (env : Env) : Filing env init where
  sound := init_sound env
  filed := by
    intro name hp hhp
    simp [init, Implementation.empty] at hhp
  used := by
    intro h m hm
    simp [init] at hm

theorem Filing.next {op : Op} (h : Filing env w) (hs : step env w op = some w') :
    Filing env w' :=
  ⟨(step_sound h.sound hs).1, h.filed.next h.sound hs, used_next h.used hs⟩

theorem Filing.reports_iff (h : Filing env w) : Reports env w ↔
    ∀ path hd order, w.NoLoadMayReturn env path (some hd) → w.WalkedInOrder hd order →
      hd ∈ w.impl.dlHandleToPluginMap.keys → w.Holds hd ∧ w.Walks order := by
  constructor
  · intro hrep path hd order hr hord
    exact (reportsOn_iff h.sound h.filed h.used hr hord).mp (hrep path hd order hr hord)
  · intro hheld path hd order hr hord
    exact (reportsOn_iff h.sound h.filed h.used hr hord).mpr (hheld path hd order hr hord)

theorem init_covered : init.Covered := by
  intro h hm
  simp [init, Implementation.empty] at hm

/-- The runs in which no record is ever left without a plugin. -/
theorem covered_iff_keepsPlugins (env : Env) {l : List (Op × World)}
    (hrun : Run (step env) init l) :
    States Covered init l ↔ Steps (KeepsPlugins env) init l :=
  hrun.states_iff (init_filing env) init_covered (fun h hs => h.next hs)
    fun h hC hs => hC.next_iff h.filed h.sound hs

/-- In a run in which every loaded library owns the registered plugins of the names it brings, has
a plugin, and keeps one until it is forgotten, `ForgetLibrary` would tell the truth in every state
reached. -/
theorem reports_of_keepsPlugins (env : Env) {l : List (Op × World)}
    (hrun : Run (step env) init l) (hkeeps : Steps (KeepsPlugins env) init l)
    (hload : Steps (LoadsOwnNames env) init l) : States (Reports env) init l := by
  have hcovered := (covered_iff_keepsPlugins env hrun).mpr hkeeps
  have hmatched := matched_of_loadsOwnNames env hrun hload
  have hfiling : States (Filing env) init l :=
    hrun.states_of_step (init_filing env) fun h hs => h.next hs
  apply (hfiling.and (hcovered.and hmatched)).imp
  rintro w ⟨hF, hC, hS, hm⟩
  apply hF.reports_iff.mpr
  exact fun _ hd order _ _ hrec => ⟨hC hd hrec, hm.walks hS order⟩

theorem reports_oneByOne : States (Reports sharedName) init
    (history (step sharedName) init oneByOne) :=
  reports_of_keepsPlugins sharedName (history_run _ init oneByOne) (by decide) (by decide)

/-- Somebody else keeps a library open that has no plugins. -/
theorem not_reports_noPlugins : ¬ ∀ w, Reachable (step (twoLibraries [] [] [])) init w →
    Reports (twoLibraries [] [] []) w := by
  intro h
  have hreports := h _ ⟨_, history_run _ init
    [.otherOpen 0 1, .loadLib "a" false ⟨some 1, false⟩ []], rfl⟩
  have hon := hreports "a" 1 [] (by decide) (by decide)
  exact absurd (hon.truth.mp (by decide)) (by decide)

end World

end GzPlugin
