import GzPlugin.Records

/-!
# The library of a plugin

`ForgetLibraryOfPlugin` resolves a string over both registries and takes the handle stored
under the resulting name. `Instantiate` resolves it registry by registry and takes the `Info`.
The condition under which both mean the same library is determined exactly.
-/

namespace GzPlugin

open FiniteMaps Runs

set_option autoImplicit false

/-- The library whose code is mapped. -/
def Image.lib : Image → Option LibId
  | .executable => none
  | .mapped lib _ => some lib

/-- The `Info` was made from one that the library hands over. -/
def Env.Provides (env : Env) (lib : LibId) (info : Info CodePtr) : Prop :=
  ∃ serial key i, (env.allInfo lib).lookup key = some i ∧ info = env.stored (.mapped lib serial) i

theorem Env.Provides.image {env : Env} {lib : LibId} {info : Info CodePtr}
    (h : env.Provides lib info) : info.deleter.image.lib = some lib := by
  obtain ⟨serial, _, i, _, rfl⟩ := h
  rw [(env.stored_livesIn _ i).2.1, Image.lib]

theorem not_provides_static {env : Env} {lib : LibId} {name : String} {info : Info CodePtr}
    (h : env.statics.infos.lookup name = some info) : ¬ env.Provides lib info := by
  intro hprov
  have himage := hprov.image
  rw [(env.statics_livesIn h).2.1] at himage
  cases himage

namespace World

variable {env : Env} {w w' : World} {s : String} {order : List String} {lib : LibId}

/-- `Instantiate` would make its instance from an `Info` of the library. -/
def InstantiatesFrom (env : Env) (w : World) (s : String) (lib : LibId) : Prop :=
  ∀ i, i ≠ 0 → (w.instantiate env s i).1.isEmpty = false ∧
    ∃ ptr ∈ (w.instantiate env s i).1.info, env.Provides lib ptr.info

/-- From `w` to `w'` the Loader lets go of the library: no plugin, no handle and no record of it
is left, and whatever is another library's is as it was. -/
structure Forgets (w : World) (lib : LibId) (w' : World) : Prop where
  infos : ∀ name, ∀ ptr ∈ w'.impl.filePlugins.plugins.lookup name,
    ptr.info.deleter.image.lib ≠ some lib
  handles : ∀ name, ∀ hp ∈ w'.impl.pluginToDlHandlePtrs.lookup name, hp.image.lib ≠ some lib
  records : ∀ h, ∀ m ∈ w.dl.lookup h, m.lib = lib → h ∉ w'.impl.dlHandleToPluginMap
  otherInfos : ∀ name, ∀ ptr ∈ w.impl.filePlugins.plugins.lookup name,
    ptr.info.deleter.image.lib ≠ some lib →
      w'.impl.filePlugins.plugins.lookup name = some ptr
  otherHandles : ∀ name, ∀ hp ∈ w.impl.pluginToDlHandlePtrs.lookup name,
    hp.image.lib ≠ some lib → w'.impl.pluginToDlHandlePtrs.lookup name = some hp
  otherRecords : ∀ h, (∀ m ∈ w.dl.lookup h, m.lib ≠ lib) →
    w'.impl.dlHandleToPluginMap.lookup h = w.impl.dlHandleToPluginMap.lookup h
  otherMappings : ∀ h, (∀ m ∈ w.dl.lookup h, m.lib ≠ lib) → w'.dl.lookup h = w.dl.lookup h

/-- `ForgetLibraryOfPlugin` forgets the library that `Instantiate` would use, if there is one, and
no `Info` is destroyed in code that is not mapped. -/
structure ForgetsRight (env : Env) (w : World) (s : String) (order : List String) : Prop where
  truth : (w.forgetLibraryOfPlugin env s order).1 = true ↔ ∃ lib, w.InstantiatesFrom env s lib
  library : ∀ lib, w.InstantiatesFrom env s lib →
    w.Walks order ∧ w.Forgets lib (w.forgetLibraryOfPlugin env s order).2
  /-- What is resolved in the static registry or not at all is not forgotten. -/
  idle : w.lookupFilePlugin s = "" → w.forgetLibraryOfPlugin env s order = (false, w)

/-- What is stored under the names recorded for the handle is of the library of the handle. -/
def OwnsRecord (w : World) (hp : DlHandlePtr) : Prop :=
  ∀ names ∈ w.impl.dlHandleToPluginMap.lookup hp.handle, ∀ name ∈ names,
    (∀ ptr ∈ w.impl.filePlugins.plugins.lookup name, ptr.info.deleter.image = hp.image) ∧
    ∀ hp' ∈ w.impl.pluginToDlHandlePtrs.lookup name, hp'.image = hp.image

instance (w : World) (hp : DlHandlePtr) : Decidable (w.OwnsRecord hp) := by
  unfold OwnsRecord; infer_instance

/-- A string that is resolved in the file registry leads to a handle that owns the names recorded
for it; the name to which it is resolved in the static registry is not that of a file plugin. -/
def LeadsToOne (env : Env) (w : World) (s : String) : Prop :=
  if w.lookupFilePlugin s ≠ "" then
    ∀ hp ∈ w.impl.pluginToDlHandlePtrs.lookup (w.lookupFilePlugin s), w.OwnsRecord hp
  else lookupStaticPlugin env s ∉ w.impl.pluginToDlHandlePtrs

instance (env : Env) (w : World) (s : String) : Decidable (LeadsToOne env w s) := by
  unfold LeadsToOne; infer_instance

/-- Every `Info` of the file registry came from a library. -/
def Provided (env : Env) (w : World) : Prop :=
  ∀ name, ∀ ptr ∈ w.impl.filePlugins.plugins.lookup name, ∃ lib, env.Provides lib ptr.info

theorem reachable_provided (h : Reachable (step env) init w) : Provided env w := by
  have hboth : Sound env w ∧ Provided env w := by
    refine h.invariant (P := fun w => Sound env w ∧ Provided env w) ⟨init_sound env, ?_⟩ ?_
    · intro name ptr hptr
      simp [init, Implementation.empty, Registry.empty] at hptr
    · rintro w op w' ⟨hS, hP⟩ hs
      refine ⟨(step_sound hS hs).1, fun name ptr hptr => ?_⟩
      rcases step_stored hS hs hptr with hold | ⟨lib, serial, key, i, hi, he⟩
      · exact hP name ptr hold
      · exact ⟨lib, serial, key, i, hi, he⟩
  exact hboth.2

theorem reachable_filing (h : Reachable (step env) init w) : Filing env w :=
  h.invariant (init_filing env) fun hF hs => hF.next hs

/-! ### What both functions do -/

theorem not_instantiatesFrom_empty (h : ∀ i, (w.instantiate env s i).1 = Plugin.empty) :
    ¬ w.InstantiatesFrom env s lib := by
  intro hlib
  have hempty := (hlib 1 one_ne_zero).1
  rw [h] at hempty
  cases hempty

theorem instantiatesFrom_made {block : Nat} {ptr : ConstInfoPtr CodePtr}
    (h : ∀ i, (w.instantiate env s i).1 = Plugin.made env.cast block i ptr) :
    w.InstantiatesFrom env s lib ↔ env.Provides lib ptr.info := by
  constructor
  · intro hlib
    obtain ⟨_, ptr', hptr', hprov⟩ := hlib 1 one_ne_zero
    rw [h] at hptr'
    cases hptr'
    exact hprov
  · intro hprov i hi
    rw [h]
    exact ⟨Plugin.made_isEmpty _ _ _ hi, ptr, rfl, hprov⟩

theorem forgetLibraryOfPlugin_none
    (h : w.impl.pluginToDlHandlePtrs.lookup (w.lookupPlugin env s) = none) :
    w.forgetLibraryOfPlugin env s order = (false, w) := by
  simp only [forgetLibraryOfPlugin, h]

theorem forgetLibraryOfPlugin_some {hp : DlHandlePtr}
    (h : w.impl.pluginToDlHandlePtrs.lookup (w.lookupPlugin env s) = some hp) :
    w.forgetLibraryOfPlugin env s order = w.forgetHandle hp.handle order := by
  simp only [forgetLibraryOfPlugin, h]

theorem Filing.forgetHandle_stored (h : Filing env w) {name : String} {hp : DlHandlePtr}
    (hhp : w.impl.pluginToDlHandlePtrs.lookup name = some hp)
    (hord : w.WalkedInOrder hp.handle order) : (w.forgetHandle hp.handle order).1 = true := by
  obtain ⟨lib, _, _, _, hrec⟩ := h.filed name hp hhp
  exact (forgetHandle_some hrec hord h.sound.tables.registry h.sound.notThrown h.sound.linked).1

theorem Filing.lib_of_stored (h : Filing env w) {name : String} {hp : DlHandlePtr}
    (hhp : w.impl.pluginToDlHandlePtrs.lookup name = some hp) :
    ∃ m, w.dl.lookup hp.handle = some m ∧ hp.image.lib = some m.lib := by
  obtain ⟨m, hm, himage⟩ := h.sound.linked.openAt (held_of_handle hhp)
  obtain ⟨serial, hs⟩ := h.sound.linked.ordered.image hm
  refine ⟨m, hm, ?_⟩
  rw [← himage, hs, Image.lib]

/-- A library is open under one handle, so two images of it that are mapped are one. -/
theorem Filing.image_eq (h : Filing env w) {name : String} {hp : DlHandlePtr}
    (hhp : w.impl.pluginToDlHandlePtrs.lookup name = some hp) {image : Image}
    (hmaps : w.dl.Maps image) (hlib : image.lib = hp.image.lib) : image = hp.image := by
  obtain ⟨m, hm, himage⟩ := h.sound.linked.openAt (held_of_handle hhp)
  obtain ⟨serial, hs⟩ := h.sound.linked.ordered.image hm
  rw [← himage, hs] at hlib ⊢
  rcases hmaps with he | ⟨hd, m', hm', rfl⟩
  · rw [he] at hlib
    cases hlib
  · obtain ⟨serial', hs'⟩ := h.sound.linked.ordered.image hm'
    rw [hs'] at hlib
    have hhd : hd = hp.handle := h.sound.linked.ordered.handle hm' hm (Option.some.inj hlib)
    rw [hhd, hm] at hm'
    cases hm'
    exact hs

theorem forgetPlugins_dl_ne {hd h : Handle} (hne : h ≠ hd)
    (hw : w.impl.filePlugins.WellFormed) (hth : w.thrown = false) (hlink : w.Linked)
    (hall : ∀ name ∈ order, ∀ hp, w.impl.pluginToDlHandlePtrs.lookup name = some hp →
      hp.handle = hd) : (order.foldl forgetPlugin w).dl.lookup h = w.dl.lookup h := by
  induction order generalizing w with
  | nil => rfl
  | cons forget order ih =>
    obtain ⟨hrem, hw', _, har, hlink'⟩ := forgetPlugin_spec forget hw hth hlink
    rw [List.foldl_cons, ih hw' (har.thrown.trans hth) hlink']
    · rcases forgetPlugin_dl w forget with he | ⟨hp, hhp, he⟩
      · rw [he]
      · rw [he, Dl.dlclose_lookup_ne]
        rw [hall forget List.mem_cons_self hp hhp]
        exact hne
    · intro name hname hp hhp
      rw [hrem.handles] at hhp
      split at hhp
      · cases hhp
      · exact hall name (List.mem_cons_of_mem forget hname) hp hhp

theorem forgetHandle_dl {hd : Handle} {names : Finset String}
    (hl : w.impl.dlHandleToPluginMap.lookup hd = some names)
    (hth : (order.foldl forgetPlugin w).thrown = false) :
    (w.forgetHandle hd order).2.dl = (order.foldl forgetPlugin w).dl := by
  simp only [forgetHandle, hl, hth, Bool.false_eq_true, if_false]

/-- What the library has in the registry is stored under its own names. -/
theorem Filing.info_name (h : Filing env w) (hP : Provided env w) {name : String}
    {ptr : ConstInfoPtr CodePtr} (hptr : w.impl.filePlugins.plugins.lookup name = some ptr)
    (hlib : ptr.info.deleter.image.lib = some lib) : name ∈ env.pluginNames lib := by
  obtain ⟨lib', hprov⟩ := hP name ptr hptr
  rw [hprov.image] at hlib
  cases hlib
  obtain ⟨_, key, i, hi, he⟩ := hprov
  rw [← h.sound.tables.registry.named hptr, he]
  exact Env.mem_pluginNames.mpr ⟨key, i, hi, rfl⟩

theorem mem_of_walked {hd : Handle} {names : Finset String} (hord : w.WalkedInOrder hd order)
    (hl : w.impl.dlHandleToPluginMap.lookup hd = some names) {name : String} :
    name ∈ order ↔ name ∈ names := by
  rw [← Multiset.mem_coe, hord names hl]
  rfl

/-! ### A string that is resolved in the file registry -/

section File

variable {ptr : ConstInfoPtr CodePtr} {hp : DlHandlePtr} {name : String} {names : Finset String}

/-- The record has all the names of the library. -/
theorem Filing.names_eq (h : Filing env w)
    (hhp : w.impl.pluginToDlHandlePtrs.lookup name = some hp)
    (hl : w.impl.dlHandleToPluginMap.lookup hp.handle = some names)
    (hlib : hp.image.lib = some lib) : names = env.pluginNames lib := by
  obtain ⟨_, _, himage, _, hrec⟩ := h.filed name hp hhp
  rw [himage] at hlib
  cases hlib
  exact Option.some.inj (hl.symm.trans hrec)

theorem Filing.handle_eq (h : Filing env w)
    (hhp : w.impl.pluginToDlHandlePtrs.lookup name = some hp) (howns : w.OwnsRecord hp)
    (hl : w.impl.dlHandleToPluginMap.lookup hp.handle = some names) {name' : String}
    (hn : name' ∈ names) {hp' : DlHandlePtr}
    (hhp' : w.impl.pluginToDlHandlePtrs.lookup name' = some hp') : hp' = hp := by
  have hlink := h.sound.linked
  have hsame := (howns names hl name' hn).2 hp' hhp'
  obtain ⟨m, hm, hlib⟩ := h.lib_of_stored hhp
  obtain ⟨m', hm', hlib'⟩ := h.lib_of_stored hhp'
  rw [hsame, hlib, Option.some.injEq] at hlib'
  apply hlink.unique (held_of_handle hhp') (held_of_handle hhp)
  exact hlink.ordered.handle hm' hm hlib'.symm

/-- If the handle owns its names, nothing stops the loop. -/
theorem Filing.walks_of_ownsRecord (h : Filing env w) (hP : Provided env w)
    (hl : w.impl.dlHandleToPluginMap.lookup hp.handle = some names)
    (hord : w.WalkedInOrder hp.handle order) (howns : w.OwnsRecord hp) : w.Walks order := by
  have hS := h.sound
  apply walks_of_livesIn hS.tables.registry hS.notThrown hS.linked
  intro n hn ptr hptr
  obtain ⟨hinfo, hhandle⟩ := howns names hl n ((mem_of_walked hord hl).mp hn)
  obtain ⟨hp', hhp'⟩ :=
    Finmap.mem_iff.mp (hS.tables.keys.mp (Finmap.mem_of_lookup_eq_some hptr))
  obtain ⟨_, _, _, i, _, he⟩ := hP n ptr hptr
  refine ⟨hp', hhp', ?_⟩
  rw [hhandle hp' hhp', ← hinfo ptr hptr, he]
  exact (env.stored_livesIn _ i).uniform

/-- If the handle owns its names, exactly its library is forgotten. -/
theorem Filing.forgets (h : Filing env w) (hP : Provided env w)
    (hhp : w.impl.pluginToDlHandlePtrs.lookup name = some hp)
    (hl : w.impl.dlHandleToPluginMap.lookup hp.handle = some names)
    (hord : w.WalkedInOrder hp.handle order) (howns : w.OwnsRecord hp)
    (hlib : hp.image.lib = some lib) : w.Forgets lib (w.forgetHandle hp.handle order).2 := by
  have hS := h.sound
  have hnames := h.names_eq hhp hl hlib
  obtain ⟨_, hf⟩ := forgetHandle_some hl hord hS.tables.registry hS.notThrown hS.linked
  obtain ⟨m, hm, hmlib⟩ := h.lib_of_stored hhp
  rw [hlib, Option.some.injEq] at hmlib
  have hother : ∀ {hd}, (∀ m ∈ w.dl.lookup hd, m.lib ≠ lib) → hd ≠ hp.handle := by
    rintro hd hd' rfl
    exact hd' m hm hmlib.symm
  constructor
  case infos =>
    intro n ptr' hptr' hlib'
    rw [Option.mem_def, hf.removed.plugins] at hptr'
    split at hptr'
    · cases hptr'
    · rename_i hn
      exact hn (hnames ▸ h.info_name hP hptr' hlib')
  case handles =>
    intro n hp' hhp' hlib'
    rw [Option.mem_def, hf.removed.handles] at hhp'
    split at hhp'
    · cases hhp'
    · rename_i hn
      obtain ⟨_, _, himage', hname, _⟩ := h.filed n hp' hhp'
      rw [himage'] at hlib'
      cases hlib'
      exact hn (hnames ▸ hname)
  case records =>
    intro hd m' hm' hm'lib
    have hhd : hd = hp.handle :=
      hS.linked.ordered.handle hm' hm (hm'lib.trans hmlib)
    rw [hf.recorded, hhd, Finmap.mem_erase]
    exact fun hmem => hmem.1 rfl
  case otherInfos =>
    intro n ptr' hptr' hlib'
    rw [hf.removed.plugins, if_neg]
    · exact hptr'
    · intro hn
      rw [(howns names hl n hn).1 ptr' hptr'] at hlib'
      exact hlib' hlib
  case otherHandles =>
    intro n hp' hhp' hlib'
    rw [hf.removed.handles, if_neg]
    · exact hhp'
    · intro hn
      rw [(howns names hl n hn).2 hp' hhp'] at hlib'
      exact hlib' hlib
  case otherRecords =>
    intro hd hd'
    rw [hf.recorded, Finmap.lookup_erase_ne (hother hd')]
  case otherMappings =>
    intro hd hd'
    have hth : (order.foldl forgetPlugin w).thrown = false :=
      (forgetPlugins_spec order hS.tables.registry hS.notThrown
        hS.linked).2.2.1.thrown.trans hS.notThrown
    rw [forgetHandle_dl hl hth]
    apply forgetPlugins_dl_ne (hother hd') hS.tables.registry hS.notThrown hS.linked
    intro n hn hp' hhp'
    rw [h.handle_eq hhp howns hl ((mem_of_walked hord hl).mp hn) hhp']

/-- If exactly one library is forgotten, the handle owned its names. -/
theorem Filing.ownsRecord (h : Filing env w)
    (hhp : w.impl.pluginToDlHandlePtrs.lookup name = some hp)
    (hord : w.WalkedInOrder hp.handle order) (hwalk : w.Walks order)
    (hforgets : w.Forgets lib (w.forgetHandle hp.handle order).2) : w.OwnsRecord hp := by
  have hS := h.sound
  intro names hl
  obtain ⟨_, hf⟩ := forgetHandle_some hl hord hS.tables.registry hS.notThrown hS.linked
  have hinfo : ∀ n ∈ names, ∀ ptr' ∈ w.impl.filePlugins.plugins.lookup n,
      ptr'.info.deleter.image.lib = some lib := by
    intro n hn ptr' hptr'
    by_contra hne
    have hkept := hforgets.otherInfos n ptr' hptr' hne
    rw [hf.removed.plugins, if_pos hn] at hkept
    cases hkept
  have hhandle : ∀ n ∈ names, ∀ hp' ∈ w.impl.pluginToDlHandlePtrs.lookup n,
      hp'.image.lib = some lib := by
    intro n hn hp' hhp'
    by_contra hne
    have hkept := hforgets.otherHandles n hp' hhp' hne
    rw [hf.removed.handles, if_pos hn] at hkept
    cases hkept
  obtain ⟨lib', _, _, hname, hrec⟩ := h.filed name hp hhp
  rw [Option.mem_def, hrec] at hl
  cases hl
  have hlib := hhandle name hname hp hhp
  intro n hn
  constructor
  · intro ptr' hptr'
    apply h.image_eq hhp _ ((hinfo n hn ptr' hptr').trans hlib.symm)
    have hmem : n ∈ order := (mem_of_walked hord hrec).mpr hn
    exact hwalk.mapped hS.tables.registry hS.notThrown hS.linked hmem hptr' _ (Or.inr (Or.inl rfl))
  · intro hp' hhp'
    exact h.image_eq hhp (hS.linked.maps (held_of_handle hhp'))
      ((hhandle n hn hp' hhp').trans hlib.symm)

end File

/-- Nothing is to be forgotten. -/
theorem forgetsRight_of_unchanged (hout : w.forgetLibraryOfPlugin env s order = (false, w))
    (hno : ∀ lib, ¬ w.InstantiatesFrom env s lib) : ForgetsRight env w s order where
  truth := by
    rw [hout]
    constructor
    · intro hf
      cases hf
    · rintro ⟨lib, hlib⟩
      exact absurd hlib (hno lib)
  library lib hlib := absurd hlib (hno lib)
  idle _ := hout

theorem Filing.forgetsRight_file (h : Filing env w) (hP : Provided env w)
    {ptr : ConstInfoPtr CodePtr} {hp : DlHandlePtr} (hne : w.lookupFilePlugin s ≠ "")
    (hinfo : w.impl.filePlugins.plugins.lookup (w.lookupFilePlugin s) = some ptr)
    (hhandle : w.impl.pluginToDlHandlePtrs.lookup (w.lookupFilePlugin s) = some hp)
    (hmade : ∀ i, (w.instantiate env s i).1 = Plugin.made env.cast w.next i ptr)
    (hord : w.WalkedInOrder hp.handle order) :
    ForgetsRight env w s order ↔ w.OwnsRecord hp := by
  have hout : w.forgetLibraryOfPlugin env s order = w.forgetHandle hp.handle order :=
    forgetLibraryOfPlugin_some (by rw [lookupPlugin_of_file hne, hhandle])
  obtain ⟨lib, hprov⟩ := hP _ ptr hinfo
  have hfrom := (instantiatesFrom_made hmade).mpr hprov
  constructor
  · intro hright
    obtain ⟨hwalk, hforgets⟩ := hright.library lib hfrom
    rw [hout] at hforgets
    exact h.ownsRecord hhandle hord hwalk hforgets
  · intro howns
    refine ⟨?_, fun lib' hfrom' => ?_, fun hn => absurd hn hne⟩
    · rw [hout]
      exact ⟨fun _ => ⟨lib, hfrom⟩, fun _ => h.forgetHandle_stored hhandle hord⟩
    · obtain ⟨_, _, _, hname, hrec⟩ := h.filed _ hp hhandle
      have himage := (howns _ hrec _ hname).1 ptr hinfo
      have hlib := ((instantiatesFrom_made hmade).mp hfrom').image
      rw [himage] at hlib
      rw [hout]
      exact ⟨h.walks_of_ownsRecord hP hrec hord howns, h.forgets hP hhandle hrec hord howns hlib⟩

theorem Filing.forgetsRight_not_file (h : Filing env w) (hfile : w.lookupFilePlugin s = "")
    (hno : ∀ lib, ¬ w.InstantiatesFrom env s lib)
    (hord : ∀ hp ∈ w.impl.pluginToDlHandlePtrs.lookup (w.lookupPlugin env s),
      w.WalkedInOrder hp.handle order) :
    ForgetsRight env w s order ↔ lookupStaticPlugin env s ∉ w.impl.pluginToDlHandlePtrs := by
  have hlookup : w.lookupPlugin env s = lookupStaticPlugin env s := lookupPlugin_of_not_file hfile
  rw [← hlookup, ← Finmap.lookup_eq_none]
  constructor
  · intro hright
    cases hhandle : w.impl.pluginToDlHandlePtrs.lookup (w.lookupPlugin env s) with
    | none => rfl
    | some hp =>
      have htrue := h.forgetHandle_stored hhandle (hord hp hhandle)
      rw [← forgetLibraryOfPlugin_some hhandle, hright.idle hfile] at htrue
      cases htrue
  · intro hnone
    exact forgetsRight_of_unchanged (forgetLibraryOfPlugin_none hnone) hno

/-- In a reachable state `ForgetLibraryOfPlugin` forgets the library that `Instantiate` would
use, with nothing of another library, if and only if the string leads to one library. -/
theorem forgetsRight_iff (env : Env) {w : World} (h : Reachable (step env) init w) {s : String}
    {order : List String}
    (hord : ∀ hp ∈ w.impl.pluginToDlHandlePtrs.lookup (w.lookupPlugin env s),
      w.WalkedInOrder hp.handle order) :
    ForgetsRight env w s order ↔ LeadsToOne env w s := by
  have hF := reachable_filing h
  cases hF.sound.resolution s with
  | file ptr hp hne hinfo hhandle hmade =>
    have hwalked := hord hp (by rw [lookupPlugin_of_file hne, hhandle]; rfl)
    have hleads : LeadsToOne env w s ↔ w.OwnsRecord hp := by
      simp [LeadsToOne, hne, hhandle]
    rw [hleads]
    exact hF.forgetsRight_file (reachable_provided h) hne hinfo hhandle hmade hwalked
  | stale hne hinfo hmade =>
    -- an alias of a plugin that is gone: there is neither an `Info` nor a handle
    have hhandle : w.impl.pluginToDlHandlePtrs.lookup (w.lookupFilePlugin s) = none := by
      rw [Finmap.lookup_eq_none, ← hF.sound.tables.keys, ← Finmap.lookup_eq_none, hinfo]
    have hright : ForgetsRight env w s order :=
      forgetsRight_of_unchanged
        (forgetLibraryOfPlugin_none (by rw [lookupPlugin_of_file hne, hhandle]))
        fun _ => not_instantiatesFrom_empty hmade
    refine ⟨fun _ => ?_, fun _ => hright⟩
    simp [LeadsToOne, hne, hhandle]
  | static info hfile hne hinfo hmade =>
    rw [hF.forgetsRight_not_file hfile (fun _ hfrom =>
      not_provides_static hinfo ((instantiatesFrom_made hmade).mp hfrom)) hord]
    simp only [LeadsToOne, hfile, ne_eq, not_true, if_false]
  | missing hfile hstatic hmade =>
    rw [hF.forgetsRight_not_file hfile (fun _ => not_instantiatesFrom_empty hmade) hord]
    simp only [LeadsToOne, hfile, ne_eq, not_true, if_false]

/-- "x" is an alias of the plugin of the first library, the only one that is loaded. -/
theorem forgetsRight_alias : ForgetsRight sharedName
    (last init (history (step sharedName) init (loadBoth.take 1))) "x" ["p"] :=
  (forgetsRight_iff sharedName ⟨_, history_run (step sharedName) init _, rfl⟩ (by decide)).mpr
    (by decide)

/-- A library and the executable have plugins of one name; only the one in the executable has
an alias. -/
def aliasInExecutable : Env :=
  twoLibraries (registrationsOf "p" p_ne ["I"] []) []
    (registrationsOf "p" p_ne ["I"] ["x"])

/-- The alias leads `Instantiate` to the static plugin, and `ForgetLibraryOfPlugin` to the
library. -/
theorem not_forgetsRight_aliasInExecutable :
    ¬ ∀ w, Reachable (step aliasInExecutable) init w → ∀ s order,
      (∀ hp ∈ w.impl.pluginToDlHandlePtrs.lookup (w.lookupPlugin aliasInExecutable s),
        w.WalkedInOrder hp.handle order) → ForgetsRight aliasInExecutable w s order := by
  intro h
  have hright := h _ ⟨_, history_run (step aliasInExecutable) init
    [.loadLib "a" false ⟨some 1, false⟩ [pluginOf "p" (by decide) ["I"] []]], rfl⟩ "x" ["p"]
    (by decide)
  exact absurd (congrArg Prod.fst (hright.idle (by decide))) (by decide)

end World

end GzPlugin
