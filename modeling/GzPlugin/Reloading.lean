import GzPlugin.HashOrder

/-!
# Loading again

`ForgetLibrary` takes back what `LoadLib` did, and `LoadLib` of a library that is already
loaded does nothing. Both are about the same thing: the library was opened once more, and
in the end nobody holds it who did not hold it before, so that the linker is where it was.
-/

namespace GzPlugin

open FiniteMaps Runs Implementation

set_option autoImplicit false

namespace Dl

variable {dl : Dl}

theorem closeRef_eq_some {m : Option Mapping} {m' : Mapping} (h : closeRef m = some m') :
    ∃ m₀, m = some m₀ ∧ m₀.lib = m'.lib ∧ m₀.image = m'.image := by
  obtain ⟨m₀, hm, h⟩ := Option.bind_eq_some_iff.mp h
  rw [Option.ite_none_right_eq_some, Option.some.injEq] at h
  exact ⟨m₀, hm, h.2 ▸ ⟨rfl, rfl⟩⟩

/-- A library that is opened and closed again leaves no trace. -/
theorem Used.open_close (hu : dl.Used) (lib : LibId) (h : Handle) (serial : Nat) :
    (dl.dlopen lib h serial false).dlclose h = dl := by
  cases hm : dl.lookup h with
  | some m => exact hu.dlopen_dlclose hm lib serial
  | none =>
    apply Finmap.ext_lookup
    intro h'
    by_cases he : h' = h
    · rw [he, dlclose_lookup, dlopen_lookup, if_pos rfl, hm]
      simp [opened, hm, closeRef, Mapping.InUse]
    · rw [dlclose_lookup_ne _ he, dlopen_lookup, if_neg he]

end Dl

namespace Implementation

variable {env : Env} {hp : DlHandlePtr} {d d' d'' : Implementation} {names : Finset String}
  {infos : List (Info Symbol)}

theorem undone_handles (ha : Added env hp infos d d') (hr : Removed names d' d'')
    (hnames : ∀ name, name ∈ names ↔ ∃ i ∈ infos, env.demangle i.name = name)
    (hnew : ∀ i ∈ infos, env.demangle i.name ∉ d.pluginToDlHandlePtrs) :
    d''.pluginToDlHandlePtrs = d.pluginToDlHandlePtrs := by
  apply Finmap.ext_lookup
  intro name
  rw [hr.handles, ha.handles]
  by_cases hn : ∃ i ∈ infos, env.demangle i.name = name
  · rw [if_pos ((hnames name).mpr hn)]
    obtain ⟨i, hi, rfl⟩ := hn
    exact (Finmap.lookup_eq_none.mpr (hnew i hi)).symm
  · rw [if_neg fun hm => hn ((hnames name).mp hm), if_neg hn]

/-- Plugins that were added and removed again leave the registry as it was exactly if none of
them was known, nor listed under an alias of its own. -/
theorem undone_answers_iff (ha : Added env hp infos d d') (hr : Removed names d' d'')
    (hnames : ∀ name, name ∈ names ↔ ∃ i ∈ infos, env.demangle i.name = name)
    (hinj : ∀ i ∈ infos, ∀ i' ∈ infos, env.demangle i.name = env.demangle i'.name → i = i')
    (hd : d.filePlugins.WellFormed) (hd'' : d''.filePlugins.WellFormed) :
    RegistryView.SameAnswers id d.filePlugins.view d''.filePlugins.view ↔
      ∀ i ∈ infos, env.demangle i.name ∉ d.filePlugins.plugins ∧
        ∀ a ∈ i.aliases, env.demangle i.name ∉ d.filePlugins.aliases.names a := by
  have hgone : ∀ i ∈ infos, env.demangle i.name ∉ d''.filePlugins.plugins := by
    intro i hi
    rw [← Finmap.lookup_eq_none, hr.plugins, if_pos ((hnames _).mpr ⟨i, hi, rfl⟩)]
  -- what a name that was not known is stored with in between
  have hstored : ∀ i ∈ infos, env.demangle i.name ∉ d.filePlugins.plugins →
      ∃ ptr, d'.filePlugins.plugins.lookup (env.demangle i.name) = some ptr ∧
        ptr.info.aliases = i.aliases := by
    intro i hi hnew
    obtain ⟨ptr, hptr⟩ := Finmap.mem_iff.mp (ha.known.mpr (Or.inr ⟨i, hi, rfl⟩))
    rcases ha.stored hptr with hold | ⟨_, i', hi', hn, he⟩
    · exact absurd (Finmap.mem_of_lookup_eq_some hold) hnew
    · rw [hinj i' hi' i hi hn] at he
      exact ⟨ptr, hptr, by rw [he]; rfl⟩
  constructor
  · intro hsame i hi
    have hnew : env.demangle i.name ∉ d.filePlugins.plugins := by
      intro hm
      have hall : env.demangle i.name ∈ d''.filePlugins.view.allPlugins :=
        hsame.allPlugins ▸ Registry.mem_view_allPlugins.mpr hm
      exact hgone i hi (Registry.mem_view_allPlugins.mp hall)
    refine ⟨hnew, fun a hm hn => ?_⟩
    have hwith : env.demangle i.name ∈ d''.filePlugins.view.pluginsWithAlias a :=
      hsame.pluginsWithAlias a ▸ RegistryView.mem_pluginsWithAlias.mpr (Or.inl hn)
    rcases RegistryView.mem_pluginsWithAlias.mp hwith with hn'' | ⟨he, hknown⟩
    · obtain ⟨ptr, hptr, haliases⟩ := hstored i hi hnew
      exact (hr.listed.mp hn'').2 ⟨(hnames _).mpr ⟨i, hi, rfl⟩, ptr, hptr, haliases ▸ hm⟩
    · rw [Registry.view_getInfo, Option.isSome_map, Finmap.lookup_isSome, ← he] at hknown
      exact hgone i hi hknown
  · intro hnew
    refine Registry.Alike.answers ⟨fun name => ?_, fun a => ?_⟩ hd hd''
    · by_cases hn : ∃ i ∈ infos, env.demangle i.name = name
      · obtain ⟨i, hi, rfl⟩ := hn
        rw [Finmap.lookup_eq_none.mpr (hgone i hi), Finmap.lookup_eq_none.mpr (hnew i hi).1]
      · rw [hr.plugins, if_neg fun hm => hn ((hnames name).mp hm)]
        congr 1
        cases hl : d'.filePlugins.plugins.lookup name with
        | none =>
          have hnot : name ∉ d.filePlugins.plugins := fun hm =>
            Finmap.lookup_eq_none.mp hl (ha.known.mpr (Or.inl hm))
          exact (Finmap.lookup_eq_none.mpr hnot).symm
        | some ptr =>
          rcases ha.stored hl with hold | ⟨_, i, hi, he, _⟩
          · exact hold.symm
          · exact absurd ⟨i, hi, he⟩ hn
    · ext name
      rw [hr.listed, ha.listed]
      constructor
      · rintro ⟨hold | ⟨i, hi, hm, rfl⟩, hkept⟩
        · exact hold
        · obtain ⟨ptr, hptr, haliases⟩ := hstored i hi (hnew i hi).1
          exact absurd ⟨(hnames _).mpr ⟨i, hi, rfl⟩, ptr, hptr, haliases ▸ hm⟩ hkept
      · intro hold
        refine ⟨Or.inl hold, ?_⟩
        rintro ⟨hn, ptr, hptr, hm⟩
        obtain ⟨i, hi, rfl⟩ := (hnames name).mp hn
        obtain ⟨ptr', hptr', haliases⟩ := hstored i hi (hnew i hi).1
        rw [hptr'] at hptr
        cases hptr
        exact (hnew i hi).2 a (haliases ▸ hm) hold

end Implementation

namespace World

variable {env : Env} {w w' w₁ w₂ : World} {path : String} {noDelete : Bool}
  {res : DlopenResult} {lib : LibId} {hp : DlHandlePtr} {infos : List (Info Symbol)}

/-! ### The linker -/

theorem Reclaims.extends (h : Reclaims w w') : w.dl.Extends w'.dl := by
  intro k m' hm'
  by_cases hlost : ∃ r, w.Held r ∧ r.handle = k ∧ ¬ w'.Held r
  · obtain ⟨r, hr, rfl, hn⟩ := hlost
    have hclosed : w'.dl.lookup r.handle = Dl.closeRef (w.dl.lookup r.handle) := h.closed hr hn
    exact Dl.closeRef_eq_some (hclosed.symm.trans hm')
  · have hkept : w'.dl.lookup k = w.dl.lookup k :=
      h.kept fun r hr he => by_contra fun hn => hlost ⟨r, hr, he, hn⟩
    exact ⟨m', hkept.symm.trans hm', rfl, rfl⟩

/-- After the call of `dlopen`, `LoadLib` only lets go of references. -/
theorem loadLib_reclaims (ho : Opened env w path res lib hp w₁)
    (he : w.openLib env path noDelete res = (some hp, w₁)) (infos : List (Info Symbol)) :
    Reclaims w₁ (w.loadLib env path noDelete res infos).2 := by
  have hmem : hp ∈ w₁.locals := by rw [ho.locals]; exact List.mem_cons_self
  obtain ⟨_, har, _, _, _⟩ := addPlugins_spec env infos ∅ ho.linked hmem
  have hadd := addPlugins_reclaims env (relocate hp infos) (w₁, ∅) ho.linked hmem
  have hmem' : hp ∈ ((relocate hp infos).foldl (addPlugin env hp) (w₁, ∅)).1.locals :=
    har.locals ▸ hmem
  simp only [loadLib, he]
  generalize (relocate hp infos).foldl (addPlugin env hp) (w₁, ∅) = st at hadd hmem' ⊢
  obtain ⟨w₂, names⟩ := st
  exact hadd.trans ho.linked (dropLocal_reclaims (w := { w₂ with impl := { w₂.impl with
    dlHandleToPluginMap := w₂.impl.dlHandleToPluginMap.insert hp.handle names } }) hmem')

/-- If the new reference is dropped at once, the same handles are held as before. -/
theorem openLib_dropLocal (hL : w.Linked) (ha : w.alive) (ho : Opened env w path res lib hp w₁)
    (he : w.openLib env path noDelete res = (some hp, w₁)) :
    (w₁.dropLocal hp).dl = (w.dl.dlopen lib hp.handle w.next noDelete).dlclose hp.handle ∧
    ∀ hp', (w₁.dropLocal hp).Held hp' ↔ w.Held hp' := by
  have hlocals : (hp :: w.locals).erase hp = w.locals := List.erase_cons_head hp w.locals
  cases hold : (w.impl.dlHandlePtrMap.lookup hp.handle).filter fun old => w.Held old with
  | some old =>
    have hopen : w.openLib env path noDelete res = _ :=
      openLib_reused ho.resolved ho.handle ho.noError hold
    rw [he, Prod.mk.injEq, Option.some.injEq] at hopen
    obtain ⟨rfl, rfl⟩ := hopen
    have hheld : w.Held hp := of_decide_eq_true (Option.filter_eq_some_iff.mp hold).2
    have hsame : ({ w with
        dl := (w.dl.dlopen lib hp.handle w.next noDelete).dlclose hp.handle
        next := w.next + 2
        locals := (hp :: w.locals).erase hp } : World).Held hp := by
      rw [hlocals]
      exact hheld
    simp only [dropLocal, release]
    rw [if_pos hsame, hlocals]
    exact ⟨rfl, fun _ => Iff.rfl⟩
  | none =>
    have hnew : ¬ w.Held hp := by
      intro hheld
      simp [hL.weak ha hheld, hheld] at hold
    have hopen : w.openLib env path noDelete res = _ :=
      openLib_created ho.resolved ho.handle ho.noError hold rfl
    rw [he, Prod.mk.injEq, Option.some.injEq] at hopen
    obtain ⟨hhp, rfl⟩ := hopen
    simp only [← hhp, dropLocal, release, hlocals]
    have hnone : ¬ Held { w with
        dl := w.dl.dlopen lib hp.handle w.next noDelete
        impl := { w.impl with dlHandlePtrMap := w.impl.dlHandlePtrMap.insert hp.handle hp }
        next := w.next + 2 } hp := hnew
    rw [if_neg hnone]
    exact ⟨rfl, fun _ => Iff.rfl⟩

/-- If in the end the same handles are held as before, then the linker was only asked to open
the library and to close it again. -/
theorem Opened.dl_eq (ho : Opened env w path res lib hp w₁) (hL : w.Linked) (ha : w.alive)
    (he : w.openLib env path noDelete res = (some hp, w₁)) (hr : Reclaims w₁ w')
    (hheld : ∀ hp', w'.Held hp' ↔ w.Held hp') :
    w'.dl = (w.dl.dlopen lib hp.handle w.next noDelete).dlclose hp.handle := by
  obtain ⟨hdl, hback⟩ := openLib_dropLocal hL ha ho he
  have hmem : hp ∈ w₁.locals := by rw [ho.locals]; exact List.mem_cons_self
  refine (hr.dl_eq (dropLocal_reclaims hmem) fun hp' => ?_).trans hdl
  exact (hheld hp').trans (hback hp').symm

/-- The library that was opened has no other handle afterwards. -/
theorem Opened.handle_eq (ho : Opened env w path res lib hp w₁) (hr : Reclaims w₁ w')
    {h : Handle} {m : Mapping} (hm : w'.dl.lookup h = some m) (hlib : m.lib = lib) :
    h = hp.handle := by
  have hheld : w₁.Held hp := Or.inr (Or.inr (ho.locals ▸ List.mem_cons_self))
  obtain ⟨m₁, hm₁, himage, _⟩ := ho.linked.mapped hheld
  obtain ⟨serial, hserial⟩ := ho.image
  obtain ⟨serial₁, hserial₁⟩ := ho.linked.ordered.image hm₁
  have hlib₁ : m₁.lib = lib := by
    rw [hserial₁, hserial] at himage
    exact (Image.mapped.inj himage).1
  obtain ⟨m₀, hm₀, hlib₀, _⟩ := hr.extends h m hm
  exact ho.linked.ordered.handle hm₀ hm₁ (hlib₀.trans (hlib.trans hlib₁.symm))

/-! ### Forgetting what was loaded -/

/-- No plugin of the library is known, nor listed under an alias that the library gives it. -/
def Unknown (env : Env) (w : World) (lib : LibId) : Prop :=
  ∀ key info, (env.allInfo lib).lookup key = some info →
    env.demangle info.name ∉ w.impl.filePlugins.plugins ∧
    ∀ a ∈ info.aliases, env.demangle info.name ∉ w.impl.filePlugins.aliases.names a

/-- Nothing that the Loader tells or holds has changed from `w` to `w'`, and the linker is as
it was, unless a library was to stay. -/
structure Restored (noDelete : Bool) (w w' : World) : Prop where
  answers : RegistryView.SameAnswers id w.impl.filePlugins.view w'.impl.filePlugins.view
  handles : w'.impl.pluginToDlHandlePtrs = w.impl.pluginToDlHandlePtrs
  instances : w'.instances = w.instances
  linker : noDelete = false → w'.dl = w.dl

theorem loads_opened (hS : Sound env w)
    (hs : step env w (.loadLib path noDelete res infos) = some w')
    (hop : (Op.loadLib path noDelete res infos).loads env = some lib) :
    ∃ hp w₁, w.openLib env path noDelete res = (some hp, w₁) ∧ Opened env w path res lib hp w₁ := by
  obtain ⟨⟨ha, hr, _⟩, _⟩ := step_eq_some.mp hs
  simp only [Op.loads, Option.ite_none_right_eq_some] at hop
  rcases openLib_cases noDelete hS.linked ha hr with
    ⟨_, _, _, _, _, herr⟩ | ⟨lib', hp, w₁, he, ho⟩
  · obtain ⟨h, hh⟩ := Option.isSome_iff_exists.mp hop.1.1
    have herror : res.error = true := herr lib h hop.2 hh
    rw [hop.1.2] at herror
    cases herror
  · obtain rfl : lib' = lib := Option.some.inj (ho.resolved.symm.trans hop.2)
    exact ⟨hp, w₁, he, ho⟩

theorem Opened.restored (ho : Opened env w path res lib hp w₁) (hF : Filing env w) (ha : w.alive)
    (he : w.openLib env path noDelete res = (some hp, w₁)) (hr : Reclaims w₁ w')
    (hanswers : RegistryView.SameAnswers id w.impl.filePlugins.view w'.impl.filePlugins.view)
    (hhandles : w'.impl.pluginToDlHandlePtrs = w.impl.pluginToDlHandlePtrs)
    (hinst : w'.instances = w.instances) (hlocals : w'.locals = w.locals) :
    Restored noDelete w w' := by
  refine ⟨hanswers, hhandles, hinst, ?_⟩
  rintro rfl
  have hdl := ho.dl_eq hF.sound.linked ha he hr fun hp' => by
    unfold Held
    rw [hhandles, hinst, hlocals]
  exact hdl.trans (hF.used.open_close lib hp.handle w.next)

/-- What `ForgetLibrary` does to a library that was just loaded, whether it is still open or
was closed at once because it has no plugins. -/
theorem forget_loaded {path' : String} {res' : Option Handle} {order : List String}
    (hF : Filing env w₁) (hl : Loaded env w lib hp infos w₁)
    (honly : ∀ {h m}, w₁.dl.lookup h = some m → m.lib = lib → h = hp.handle)
    (hs : step env w₁ (.forgetLibrary path' res' order) = some w₂)
    (hpath : env.resolve path' = some lib) :
    Removed (env.pluginNames lib) w₁.impl w₂.impl ∧ Around w₁ w₂ ∧ Reclaims w₁ w₂ := by
  obtain ⟨⟨_, hr, hord⟩, rfl⟩ := step_eq_some.mp hs
  have hreturns : w₁.dl.NoLoadReturns lib res' := by
    simpa only [NoLoadMayReturn, hpath] using hr
  cases res' with
  | none =>
    have hnone : env.pluginNames lib = ∅ := by
      apply Finset.eq_empty_of_forall_notMem
      intro name hn
      have hhandle := hl.added.handles name
      rw [if_pos ((mem_pluginNames hl.enumerates).mp hn)] at hhandle
      obtain ⟨m, hm, himage, _⟩ := hl.linked.mapped (held_of_handle hhandle)
      obtain ⟨serial, hserial⟩ := hl.image
      obtain ⟨serial', hserial'⟩ := hl.linked.ordered.image hm
      rw [hserial', hserial] at himage
      exact hreturns ⟨_, m, hm, (Image.mapped.inj himage).1⟩
    rw [hnone]
    exact ⟨Removed.empty w₁.impl, Around.refl w₁, .refl w₁⟩
  | some h =>
    obtain ⟨m, hm, hlib⟩ := hreturns
    obtain rfl : h = hp.handle := honly hm hlib
    have hknown : w₁.impl.dlHandleToPluginMap.lookup hp.handle = some (env.pluginNames lib) := by
      rw [hl.recorded]
      exact Finmap.lookup_insert _
    obtain ⟨_, hf⟩ := forgetHandle_some hknown (hord _ rfl) hF.sound.tables.registry
      hF.sound.notThrown hF.sound.linked
    simp only [after, forgetLibrary_eq hF.used hr]
    exact ⟨hf.removed, hf.around, forgetHandle_reclaims hF.sound _ order⟩

/-- Loading a library and forgetting it again changes nothing exactly if none of its plugins
was known before, nor listed under an alias that the library gives it. -/
theorem restored_iff_unknown (env : Env) (hw : Reachable (step env) init w)
    (hinj : Set.InjOn env.demangle {name | name ∈ env.allInfo lib})
    (hload : step env w (.loadLib path noDelete res infos) = some w₁)
    (hop : (Op.loadLib path noDelete res infos).loads env = some lib)
    {path' : String} {res' : Option Handle} {order : List String}
    (hforget : step env w₁ (.forgetLibrary path' res' order) = some w₂)
    (hpath : env.resolve path' = some lib) :
    Restored noDelete w w₂ ↔ w.Unknown env lib := by
  have hF : Filing env w := hw.invariant (init_filing env) fun hF hs => hF.next hs
  have hF₁ := hF.next hload
  have hF₂ := hF₁.next hforget
  obtain ⟨⟨ha, _, hvec⟩, hafter⟩ := step_eq_some.mp hload
  obtain ⟨hp, w₀, he, ho⟩ := loads_opened hF.sound hload hop
  have hl : Loaded env w lib hp infos w₁ := hafter ▸ (ho.loaded he hvec).2
  have hr : Reclaims w₀ w₁ := hafter ▸ loadLib_reclaims ho he infos
  obtain ⟨hremoved, har, hr'⟩ := forget_loaded hF₁ hl (fun hm => ho.handle_eq hr hm) hforget hpath
  have hnames : ∀ name, name ∈ env.pluginNames lib ↔ ∃ i ∈ infos, env.demangle i.name = name :=
    fun _ => mem_pluginNames hl.enumerates
  have hanswers := undone_answers_iff hl.added hremoved hnames
    (distinct_of_injOn hinj hl.enumerates) hF.sound.tables.registry hF₂.sound.tables.registry
  have hunknown : w.Unknown env lib ↔ ∀ i ∈ infos,
      env.demangle i.name ∉ w.impl.filePlugins.plugins ∧
        ∀ a ∈ i.aliases, env.demangle i.name ∉ w.impl.filePlugins.aliases.names a := by
    constructor
    · intro h i hi
      obtain ⟨key, hkey⟩ := (hl.enumerates.mem_iff i).mp hi
      exact h key i hkey
    · intro h key i hkey
      exact h i ((hl.enumerates.mem_iff i).mpr ⟨key, hkey⟩)
  rw [hunknown, ← hanswers]
  refine ⟨fun h => h.answers, fun h => ?_⟩
  have hnew := hanswers.mp h
  have hhandles : w₂.impl.pluginToDlHandlePtrs = w.impl.pluginToDlHandlePtrs :=
    undone_handles hl.added hremoved hnames fun i hi hm =>
      (hnew i hi).1 (hF.sound.tables.keys.mpr hm)
  have hinst : w₂.instances = w.instances := har.instances.trans hl.around.instances
  exact ho.restored hF ha he (hr.trans ho.linked hr') h hhandles hinst
    (har.locals.trans hl.around.locals)

/-- Load the first library, and forget it. -/
def loadFirstLib : Op := .loadLib "a" false ⟨some 1, false⟩ [pluginOf "p" p_ne ["I"] ["x"]]

def forgetFirstLib : Op := .forgetLibrary "a" (some 1) ["p"]

theorem restored_first : Restored false init
    ((init.after sharedName loadFirstLib).after sharedName forgetFirstLib) := by
  have hunknown : init.Unknown sharedName 0 := fun _ _ _ => ⟨Finmap.notMem_empty, nofun⟩
  have hinj : Set.InjOn sharedName.demangle {name | name ∈ sharedName.allInfo 0} :=
    Function.Injective.injOn fun _ _ h => h
  have hload : step sharedName init (.loadLib "a" false ⟨some 1, false⟩
      [pluginOf "p" p_ne ["I"] ["x"]]) = some (init.after sharedName loadFirstLib) :=
    step_eq_some.mpr ⟨by decide, rfl⟩
  have hforget : step sharedName (init.after sharedName loadFirstLib)
      (.forgetLibrary "a" (some 1) ["p"]) =
        some ((init.after sharedName loadFirstLib).after sharedName forgetFirstLib) :=
    step_eq_some.mpr ⟨by decide, rfl⟩
  exact (restored_iff_unknown sharedName (Reachable.refl _ init) hinj hload rfl hforget rfl).mpr
    hunknown

/-! ### Loading what is loaded -/

/-- Every plugin of the library is stored with a handle to it, and listed under all aliases
that the library gives it. -/
structure Installed (env : Env) (w : World) (lib : LibId) : Prop where
  handle : ∀ name ∈ env.pluginNames lib, ∃ hp serial,
    w.impl.pluginToDlHandlePtrs.lookup name = some hp ∧ hp.image = .mapped lib serial
  listed : ∀ key info, (env.allInfo lib).lookup key = some info → ∀ a ∈ info.aliases,
    env.demangle info.name ∈ w.impl.filePlugins.aliases.names a

/-- The operation neither forgets a plugin of the library nor loads another library with a
plugin of that name. -/
def LeavesAlone (env : Env) (lib : LibId) (w : World) (op : Op) : Prop :=
  (∀ lib' ∈ op.loads env, lib' = lib ∨ Disjoint (env.pluginNames lib') (env.pluginNames lib)) ∧
  ∀ names ∈ w.forgottenNames env op, Disjoint names (env.pluginNames lib)

instance (env : Env) (lib : LibId) (w : World) (op : Op) : Decidable (LeavesAlone env lib w op) := by
  unfold LeavesAlone; infer_instance

theorem Loaded.installed (hl : Loaded env w lib hp infos w') : Installed env w' lib where
  handle name hn := by
    obtain ⟨serial, himage⟩ := hl.image
    refine ⟨hp, serial, ?_, himage⟩
    rw [hl.added.handles, if_pos ((mem_pluginNames hl.enumerates).mp hn)]
  listed key info hkey a hm :=
    hl.added.listed.mpr (Or.inr ⟨info, (hl.enumerates.mem_iff info).mpr ⟨key, hkey⟩, hm, rfl⟩)

/-- A destroyed Loader has nothing installed, but then it cannot load anything either. -/
theorem Installed.next {op : Op} (hS : Sound env w) (h : w.alive → Installed env w lib)
    (hop : LeavesAlone env lib w op) (hs : step env w op = some w') :
    w'.alive → Installed env w' lib := by
  intro ha
  cases (step_sound hS hs).2 with
  | loaded lib' hp infos hload hl =>
    rcases hop.1 lib' hload with rfl | hdisjoint
    · exact hl.installed
    have h := h (hl.around.alive ▸ ha)
    constructor
    · intro name hn
      obtain ⟨hp', serial, hhandle, himage⟩ := h.handle name hn
      refine ⟨hp', serial, ?_, himage⟩
      rw [hl.added.handles, if_neg, hhandle]
      intro hm
      exact Finset.disjoint_left.mp hdisjoint ((mem_pluginNames hl.enumerates).mpr hm) hn
    · intro key info hkey a hm
      exact hl.added.listed.mpr (Or.inl (h.listed key info hkey a hm))
  | forgot hd names hforget hf =>
    have h := h (hf.around.alive ▸ ha)
    have hnames : names ∈ w.forgottenNames env op := by
      rw [forgottenNames, hforget]
      exact hf.known
    have hdisjoint := Finset.disjoint_right.mp (hop.2 names hnames)
    constructor
    · intro name hn
      obtain ⟨hp', serial, hhandle, himage⟩ := h.handle name hn
      exact ⟨hp', serial, by rw [hf.removed.handles, if_neg (hdisjoint hn), hhandle], himage⟩
    · intro key info hkey a hm
      refine hf.removed.listed.mpr ⟨h.listed key info hkey a hm, fun hgone => ?_⟩
      exact hdisjoint (Env.mem_pluginNames.mpr ⟨key, info, hkey, rfl⟩) hgone.1
  | kept _ _ hq =>
    have h := h (hq.alive ▸ ha)
    exact ⟨hq.impl ▸ h.handle, hq.impl ▸ h.listed⟩
  | destroyed _ halive _ =>
    rw [halive] at ha
    cases ha

theorem Installed.handles_eq (h : Installed env w lib) (hl : Loaded env w lib hp infos w') :
    w'.impl.pluginToDlHandlePtrs = w.impl.pluginToDlHandlePtrs := by
  apply Finmap.ext_lookup
  intro name
  rw [hl.added.handles]
  split
  · rename_i hn
    obtain ⟨hp', serial, hhandle, himage⟩ := h.handle name ((mem_pluginNames hl.enumerates).mpr hn)
    rw [hhandle, hl.reuses (held_of_handle hhandle) himage]
  · rfl

theorem Installed.alike (h : Installed env w lib) (hS : Sound env w)
    (hl : Loaded env w lib hp infos w') : w.impl.filePlugins.Alike w'.impl.filePlugins where
  infos name := by
    cases hptr : w.impl.filePlugins.plugins.lookup name with
    | some ptr => rw [hl.added.kept hptr]
    | none =>
      have hnew : name ∉ w.impl.filePlugins.plugins := Finmap.lookup_eq_none.mp hptr
      rw [Finmap.lookup_eq_none.mpr]
      intro hm
      rcases hl.added.known.mp hm with hold | hn
      · exact hnew hold
      · obtain ⟨hp', _, hhandle, _⟩ := h.handle name ((mem_pluginNames hl.enumerates).mpr hn)
        exact hnew (hS.tables.keys.mpr (Finmap.mem_of_lookup_eq_some hhandle))
  names a := by
    ext name
    rw [hl.added.listed]
    constructor
    · rintro (hold | ⟨i, hi, hm, rfl⟩)
      · exact hold
      · obtain ⟨key, hkey⟩ := (hl.enumerates.mem_iff i).mp hi
        exact h.listed key i hkey a hm
    · exact Or.inl

/-- Loading a library again changes nothing, whatever was loaded, forgotten or instantiated
since, if its plugins were left alone. -/
theorem restored_of_leavesAlone (env : Env) (hw : Reachable (step env) init w)
    (hload : step env w (.loadLib path noDelete res infos) = some w₁)
    (hop : (Op.loadLib path noDelete res infos).loads env = some lib)
    {l : List (Op × World)} (hrun : Run (step env) w₁ l)
    (hl : Steps (LeavesAlone env lib) w₁ l)
    {path' : String} {noDelete' : Bool} {res' : DlopenResult} {infos' : List (Info Symbol)}
    (hagain : step env (last w₁ l) (.loadLib path' noDelete' res' infos') = some w₂)
    (hop' : (Op.loadLib path' noDelete' res' infos').loads env = some lib) :
    Restored noDelete' (last w₁ l) w₂ := by
  have hF : Filing env w := hw.invariant (init_filing env) fun hF hs => hF.next hs
  have hF₁ := hF.next hload
  -- the library is installed by the first call, and stays so
  have hinstalled : States (fun v => Filing env v ∧ (v.alive → Installed env v lib)) w₁ l := by
    refine hrun.states hl ⟨hF₁, fun _ => ?_⟩ fun hop hI hs =>
      ⟨hI.1.next hs, Installed.next hI.1.sound hI.2 hop hs⟩
    obtain ⟨⟨_, _, hvec⟩, hafter⟩ := step_eq_some.mp hload
    obtain ⟨hp, w₀, he, ho⟩ := loads_opened hF.sound hload hop
    have hloaded : Loaded env w lib hp infos w₁ := hafter ▸ (ho.loaded he hvec).2
    exact hloaded.installed
  obtain ⟨hFv, hv⟩ := hinstalled.last
  generalize last w₁ l = v at hFv hv hagain ⊢
  obtain ⟨⟨ha, _, hvec⟩, hafter⟩ := step_eq_some.mp hagain
  obtain ⟨hp, v₀, he, ho⟩ := loads_opened hFv.sound hagain hop'
  have hloaded : Loaded env v lib hp infos' w₂ := hafter ▸ (ho.loaded he hvec).2
  have hr : Reclaims v₀ w₂ := hafter ▸ loadLib_reclaims ho he infos'
  have hregistry := (hFv.next hagain).sound.tables.registry
  exact ho.restored hFv ha he hr
    (((hv ha).alike hFv.sound hloaded).answers hFv.sound.tables.registry hregistry)
    ((hv ha).handles_eq hloaded) hloaded.around.instances hloaded.around.locals

def loadBothPlugins : Op := .loadLib "a" false ⟨some 1, false⟩
  [pluginOf "p" p_ne ["I"] ["x"], pluginOf "q" q_ne ["I"] ["x"]]

/-- Load the library with two plugins, instantiate one of them, and load a library that has
none. -/
def loadedAndUsed : World :=
  last (init.after pAndQ loadBothPlugins) (history (step pAndQ) (init.after pAndQ loadBothPlugins)
    [.instantiate "p" 5, .loadLib "b" false ⟨some 2, false⟩ []])

theorem restored_loadedAndUsed :
    Restored false loadedAndUsed (loadedAndUsed.after pAndQ loadBothPlugins) := by
  have hload : step pAndQ init (.loadLib "a" false ⟨some 1, false⟩
      [pluginOf "p" p_ne ["I"] ["x"], pluginOf "q" q_ne ["I"] ["x"]]) =
        some (init.after pAndQ loadBothPlugins) :=
    step_eq_some.mpr ⟨by decide, rfl⟩
  have hagain : step pAndQ loadedAndUsed (.loadLib "a" false ⟨some 1, false⟩
      [pluginOf "p" p_ne ["I"] ["x"], pluginOf "q" q_ne ["I"] ["x"]]) =
        some (loadedAndUsed.after pAndQ loadBothPlugins) :=
    step_eq_some.mpr ⟨by decide, rfl⟩
  exact restored_of_leavesAlone pAndQ (Reachable.refl _ init) hload rfl
    (history_run _ (init.after pAndQ loadBothPlugins) _) (by decide) hagain rfl

end World

end GzPlugin
