import GzPlugin.Handles

/-!
# Code that is mapped

The functions of an `Info` can be called, and the `Info` can be destroyed, as long as the library
that they come from is open. The steps of a run do not ask for that. What they call is followed
here: by `Instantiate`, and by the loop that forgets a library.
-/

namespace GzPlugin

open FiniteMaps Runs

set_option autoImplicit false

/-- The code of the image can be executed. -/
def Dl.Maps (dl : Dl) (image : Image) : Prop :=
  image = .executable ∨ Has (fun _ m => m.image = image) dl

instance (dl : Dl) (image : Image) : Decidable (dl.Maps image) := by
  unfold Dl.Maps; infer_instance

/-- One of the functions of the `Info` points there. -/
def Info.HasCode (info : Info CodePtr) (c : CodePtr) : Prop :=
  c = info.factory ∨ c = info.deleter ∨ ∃ name, info.interfaces.lookup name = some c

/-- The factory and the casts of the `Info` can be called, and it can be destroyed. -/
def Dl.MapsCode (dl : Dl) (info : Info CodePtr) : Prop :=
  ∀ c, info.HasCode c → dl.Maps c.image

instance (dl : Dl) (info : Info CodePtr) : Decidable (dl.MapsCode info) := by
  have hiff : (dl.Maps info.factory.image ∧ dl.Maps info.deleter.image ∧
      ¬ Has (fun _ f => ¬ dl.Maps f.image) info.interfaces) ↔ dl.MapsCode info := by
    constructor
    · rintro ⟨hfactory, hdeleter, hcasts⟩ c (rfl | rfl | ⟨name, hf⟩)
      · exact hfactory
      · exact hdeleter
      · by_contra hc
        exact hcasts ⟨name, c, hf, hc⟩
    · intro h
      refine ⟨h _ (Or.inl rfl), h _ (Or.inr (Or.inl rfl)), ?_⟩
      rintro ⟨name, f, hf, hc⟩
      exact hc (h f (Or.inr (Or.inr ⟨name, hf⟩)))
  exact decidable_of_iff _ hiff

theorem Dl.Extends.maps {dl dl' : Dl} (h : dl.Extends dl') {image : Image}
    (hm : dl'.Maps image) : dl.Maps image := by
  rcases hm with he | ⟨hd, m', hm', rfl⟩
  · exact Or.inl he
  · obtain ⟨m, hm, _, himage⟩ := h hd m' hm'
    exact Or.inr ⟨hd, m, hm, himage⟩

theorem Info.LivesIn.code {info : Info CodePtr} {image : Image} {c : CodePtr}
    (h : info.LivesIn image) (hc : info.HasCode c) : c.image = image := by
  obtain ⟨hfactory, hdeleter, hcasts⟩ := h
  rcases hc with rfl | rfl | ⟨name, hcast⟩
  · exact hfactory
  · exact hdeleter
  · exact hcasts name c hcast

theorem Info.LivesIn.uniform {info : Info CodePtr} {image : Image} (h : info.LivesIn image) :
    info.LivesIn info.deleter.image := by
  rw [h.2.1]
  exact h

theorem Info.LivesIn.mapsCode_iff {dl : Dl} {info : Info CodePtr} {image : Image}
    (h : info.LivesIn image) : dl.MapsCode info ↔ dl.Maps image := by
  constructor
  · intro hm
    rw [← h.2.1]
    exact hm _ (Or.inr (Or.inl rfl))
  · intro hm c hc
    rw [h.code hc]
    exact hm

namespace World

variable {env : Env} {w w' : World} {s : String} {order : List String}

/-- `Instantiate` calls the factory and the casts of the `Info` that its `PluginPtr` gets. -/
def InstantiatesMapped (env : Env) (w : World) (s : String) : Prop :=
  ∀ i, ∀ ptr ∈ (w.instantiate env s i).1.info, w.dl.MapsCode ptr.info

/-- The `Info` to which the string is resolved in the file registry, if there is one, is of a
library that is still open. -/
def ResolvesMapped (w : World) (s : String) : Prop :=
  ∀ ptr ∈ w.impl.filePlugins.plugins.lookup (w.lookupFilePlugin s), w.dl.MapsCode ptr.info

instance (w : World) (s : String) : Decidable (w.ResolvesMapped s) := by
  unfold ResolvesMapped; infer_instance

/-- Every `Info` of the file registry is of a library that is still open. -/
def RegistryMapped (w : World) : Prop :=
  ∀ name, ∀ ptr ∈ w.impl.filePlugins.plugins.lookup name, w.dl.MapsCode ptr.info

/-- The loop of `ForgetLibrary` reaches the end of `order`: every `Info` that it lets go of can
be destroyed at that moment. -/
def Walks : World → List String → Prop
  | _, [] => True
  | w, forget :: order =>
    (∀ ptr ∈ w.impl.filePlugins.plugins.lookup forget, w.dl.MapsCode ptr.info) ∧
      (w.forgetPlugin forget).Walks order

instance Walks.decidable (w : World) (order : List String) : Decidable (w.Walks order) :=
  match order with
  | [] => isTrue trivial
  | forget :: order =>
    have := Walks.decidable (w.forgetPlugin forget) order
    inferInstanceAs (Decidable (_ ∧ _))

/-- The operation destroys no `Info` of the registry in code that is not mapped. -/
def DestroysMapped (env : Env) (w : World) : Op → Prop
  | .forgetLibrary _ res order => ∀ h ∈ res, h ∈ w.impl.dlHandleToPluginMap → w.Walks order
  | .forgetLibraryOfPlugin s order =>
    ∀ hp ∈ w.impl.pluginToDlHandlePtrs.lookup (w.lookupPlugin env s),
      hp.handle ∈ w.impl.dlHandleToPluginMap → w.Walks order
  | .destroyLoader _ => w.RegistryMapped
  | _ => True

theorem Linked.maps (h : w.Linked) {hp : DlHandlePtr} (hheld : w.Held hp) :
    w.dl.Maps hp.image := by
  obtain ⟨m, hm, himage⟩ := h.openAt hheld
  exact Or.inr ⟨hp.handle, m, hm, himage⟩

theorem RegistryMapped.resolves (h : w.RegistryMapped) (s : String) : w.ResolvesMapped s :=
  h (w.lookupFilePlugin s)

theorem resolvesMapped_iff_of_registered {name : String} {ptr : ConstInfoPtr CodePtr}
    (hptr : w.impl.filePlugins.plugins.lookup name = some ptr) :
    w.ResolvesMapped name ↔ w.dl.MapsCode ptr.info := by
  unfold ResolvesMapped
  rw [lookupFilePlugin_of_registered (Finmap.mem_of_lookup_eq_some hptr), hptr]
  simp

/-- The code of static plugins is always there, so only the file registry matters. -/
theorem Sound.instantiatesMapped_iff (h : Sound env w) :
    w.InstantiatesMapped env s ↔ w.ResolvesMapped s := by
  unfold InstantiatesMapped ResolvesMapped
  have hnone : w.lookupFilePlugin s = "" →
      w.impl.filePlugins.plugins.lookup (w.lookupFilePlugin s) = none := by
    intro hfile
    rw [hfile, Finmap.lookup_eq_none]
    exact fun hm => h.tables.named hm rfl
  cases h.resolution s with
  | file ptr hp _ hinfo _ hmade => simp [hmade, hinfo, Plugin.made]
  | stale _ hinfo hmade => simp [hmade, hinfo, Plugin.empty]
  | static info hfile _ hinfo hmade =>
    have hmaps : w.dl.MapsCode info := (env.statics_livesIn hinfo).mapsCode_iff.mpr (Or.inl rfl)
    simp [hmade, hnone hfile, Plugin.made, hmaps]
  | missing hfile _ hmade => simp [hmade, hnone hfile, Plugin.empty]

/-! ### The loop that forgets a library -/

/-- To the linker, one round of the loop is nothing or the end of the handle stored for the
name. -/
theorem forgetPlugin_dl (w : World) (name : String) : (w.forgetPlugin name).dl = w.dl ∨
    ∃ hp, w.impl.pluginToDlHandlePtrs.lookup name = some hp ∧
      (w.forgetPlugin name).dl = w.dl.dlclose hp.handle := by
  have hinfo : (w.forgetInfo name).dl = w.dl ∧
      (w.forgetInfo name).impl.pluginToDlHandlePtrs = w.impl.pluginToDlHandlePtrs := by
    unfold forgetInfo
    split <;> exact ⟨rfl, rfl⟩
  unfold forgetPlugin
  split
  · exact Or.inl rfl
  simp only
  split
  · exact Or.inl hinfo.1
  unfold eraseHandle release
  split
  · exact Or.inl hinfo.1
  · rename_i hp hhp
    rw [hinfo.2] at hhp
    split
    · exact Or.inl hinfo.1
    · exact Or.inr ⟨hp, hhp, congrArg (fun dl => dl.dlclose hp.handle) hinfo.1⟩

theorem forgetPlugin_extends (w : World) (name : String) :
    w.dl.Extends (w.forgetPlugin name).dl := by
  rcases forgetPlugin_dl w name with he | ⟨hp, _, he⟩
  · rw [he]
    exact fun h m hm => ⟨m, hm, rfl, rfl⟩
  · rw [he]
    exact w.dl.dlclose_extends hp.handle

/-- The loop reaches its end if the `Info`s that it removes are of the libraries whose handles it
removes with them. -/
theorem walks_of_livesIn (hw : w.impl.filePlugins.WellFormed) (hth : w.thrown = false)
    (h : w.Linked) (howned : ∀ name ∈ order, ∀ ptr,
      w.impl.filePlugins.plugins.lookup name = some ptr →
        ∃ hp, w.impl.pluginToDlHandlePtrs.lookup name = some hp ∧ ptr.info.LivesIn hp.image) :
    w.Walks order := by
  induction order generalizing w with
  | nil => trivial
  | cons forget order ih =>
    constructor
    · intro ptr hptr
      obtain ⟨hp, hhp, hlive⟩ := howned forget List.mem_cons_self ptr hptr
      exact hlive.mapsCode_iff.mpr (h.maps (held_of_handle hhp))
    · obtain ⟨hrem, hw', _, har, hlink⟩ := forgetPlugin_spec forget hw hth h
      apply ih hw' (har.thrown.trans hth) hlink
      intro name hname ptr hptr
      rw [hrem.plugins] at hptr
      rw [hrem.handles]
      split at hptr
      · cases hptr
      · rename_i hn
        rw [if_neg hn]
        exact howned name (List.mem_cons_of_mem forget hname) ptr hptr

theorem Walks.mapped (hwalk : w.Walks order) (hw : w.impl.filePlugins.WellFormed)
    (hth : w.thrown = false) (h : w.Linked) {name : String} (hname : name ∈ order)
    {ptr : ConstInfoPtr CodePtr} (hptr : w.impl.filePlugins.plugins.lookup name = some ptr) :
    w.dl.MapsCode ptr.info := by
  induction order generalizing w with
  | nil => cases hname
  | cons forget order ih =>
    by_cases he : name = forget
    · subst he
      exact hwalk.1 ptr hptr
    · obtain ⟨hrem, hw', _, har, hlink⟩ := forgetPlugin_spec forget hw hth h
      have hrest : name ∈ order := (List.mem_cons.mp hname).resolve_left he
      have hkept : (w.forgetPlugin forget).impl.filePlugins.plugins.lookup name = some ptr := by
        rw [hrem.plugins, if_neg (by simpa using he), hptr]
      have hmaps := ih hwalk.2 hw' (har.thrown.trans hth) hlink hrest hkept
      exact fun c hc => (forgetPlugin_extends w forget).maps (hmaps c hc)

/-! ### Runs whose loads bring names of their own only -/

theorem Matched.registered_maps (hm : w.Matched) (hS : Sound env w) : w.RegistryMapped := by
  intro name ptr hptr
  obtain ⟨hp, hhp⟩ := Finmap.mem_iff.mp (hS.tables.keys.mp (Finmap.mem_of_lookup_eq_some hptr))
  exact (hm.registered hptr hhp).mapsCode_iff.mpr (hS.linked.maps (held_of_handle hhp))

theorem Matched.maps_deleter (hm : w.Matched) (hS : Sound env w) {block : Nat}
    {i : PluginWithDlHandle} (hi : w.instances.lookup block = some i) :
    w.dl.Maps i.deleter.image := by
  rw [hm.instances hi]
  cases hhp : i.dlHandlePtr with
  | none => exact Or.inl rfl
  | some hp => exact hS.linked.maps (held_of_instance hi hhp)

theorem Matched.walks (hm : w.Matched) (hS : Sound env w) (order : List String) :
    w.Walks order := by
  apply walks_of_livesIn hS.tables.registry hS.notThrown hS.linked
  intro name _ ptr hptr
  obtain ⟨hp, hhp⟩ := Finmap.mem_iff.mp (hS.tables.keys.mp (Finmap.mem_of_lookup_eq_some hptr))
  exact ⟨hp, hhp, hm.registered hptr hhp⟩

theorem Matched.destroysMapped (hm : w.Matched) (hS : Sound env w) (op : Op) :
    w.DestroysMapped env op := by
  cases op with
  | forgetLibrary path res order => exact fun _ _ _ => hm.walks hS order
  | forgetLibraryOfPlugin s order => exact fun _ _ _ => hm.walks hS order
  | destroyLoader order => exact hm.registered_maps hS
  | _ => trivial

theorem matched_of_loadsOwnNames (env : Env) {l : List (Op × World)}
    (hrun : Run (step env) init l) (hload : Steps (LoadsOwnNames env) init l) :
    States (fun w => Sound env w ∧ w.Matched) init l := by
  apply hrun.states hload ⟨init_sound env, init_matched⟩
  intro w op w' hown hw hs
  exact ⟨(step_sound hw.1 hs).1, (hw.2.step_iff hw.1 hs).mpr hown⟩

end World

end GzPlugin
