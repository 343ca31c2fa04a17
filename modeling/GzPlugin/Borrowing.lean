import GzPlugin.Loaders

/-!
# The linker as seen by one Loader

A Loader reads from the linker no more than the image behind a handle. Over another linker
with the same images every function of the Loader takes the same course: it makes the same
calls and leaves the same tables and instances.
-/

namespace GzPlugin

open FiniteMaps Runs DlCall

set_option autoImplicit false

/-- The same handles are open, for the same libraries and with the same images. -/
def Dl.SameImages (dl dl' : Dl) : Prop :=
  ∀ h, (dl'.lookup h).map (fun m => (m.lib, m.image)) =
    (dl.lookup h).map fun m => (m.lib, m.image)

namespace Dl.SameImages

variable {dl dl' : Dl} {lib : LibId} {h : Handle} {m : Mapping}

theorem some (hd : dl.SameImages dl') (hm : dl.lookup h = some m) :
    ∃ m', dl'.lookup h = some m' ∧ m'.lib = m.lib ∧ m'.image = m.image := by
  have hh := hd h
  rw [hm, Option.map_some] at hh
  obtain ⟨m', hm', he⟩ := Option.map_eq_some_iff.mp hh
  exact ⟨m', hm', congrArg Prod.fst he, congrArg Prod.snd he⟩

theorem symm (hd : dl.SameImages dl') : dl'.SameImages dl := fun h => (hd h).symm

theorem none (hd : dl.SameImages dl') (hm : dl.lookup h = none) : dl'.lookup h = none := by
  have hh := hd h
  rw [hm, Option.map_none] at hh
  exact Option.map_eq_none_iff.mp hh

theorem isOpen_iff (hd : dl.SameImages dl') : dl'.IsOpen lib ↔ dl.IsOpen lib := by
  have himp : ∀ {dl dl' : Dl}, dl.SameImages dl' → dl.IsOpen lib → dl'.IsOpen lib := by
    rintro dl dl' hd ⟨h, m, hm, hl⟩
    obtain ⟨m', hm', hl', _⟩ := hd.some hm
    exact ⟨h, m', hm', hl'.trans hl⟩
  exact ⟨himp hd.symm, himp hd⟩

theorem mayReturn_iff (hd : dl.SameImages dl') : dl'.MayReturn lib h ↔ dl.MayReturn lib h := by
  unfold MayReturn
  cases hm : dl.lookup h with
  | none =>
    rw [hd.none hm]
    exact not_congr hd.isOpen_iff
  | some m =>
    obtain ⟨m', hm', hl, _⟩ := hd.some hm
    rw [hm']
    change m'.lib = lib ↔ m.lib = lib
    rw [hl]

theorem noLoadReturns_iff (hd : dl.SameImages dl') {res : Option Handle} :
    dl'.NoLoadReturns lib res ↔ dl.NoLoadReturns lib res := by
  cases res with
  | none => exact not_congr hd.isOpen_iff
  | some h =>
    have himp : ∀ {dl dl' : Dl}, dl.SameImages dl' → dl.NoLoadReturns lib (Option.some h) →
        dl'.NoLoadReturns lib (Option.some h) := by
      rintro dl dl' hd ⟨m, hm, hl⟩
      obtain ⟨m', hm', hl', _⟩ := hd.some hm
      exact ⟨m', hm', hl'.trans hl⟩
    exact ⟨himp hd.symm, himp hd⟩

theorem opened_image (hd : dl.SameImages dl') (lib : LibId) (h : Handle) (serial : Nat)
    (noDelete : Bool) : (dl'.opened lib h serial noDelete).image =
      (dl.opened lib h serial noDelete).image := by
  unfold opened
  cases hm : dl.lookup h with
  | none => rw [hd.none hm]
  | some m =>
    obtain ⟨m', hm', _, hi⟩ := hd.some hm
    rw [hm']
    exact hi

end Dl.SameImages

/-- The same Loader over another linker. -/
structure Traced.Over (t u : Traced) : Prop where
  world : u.world = { t.world with dl := u.world.dl }
  calls : u.calls = t.calls

namespace Traced.Over

open World (DlopenResult Op)

variable {env : Env} {t u : Traced} {hp : DlHandlePtr}

theorem map {f : World → World} (h : Over t u)
    (hf : ∀ w dl, f { w with dl := dl } = { f w with dl := dl }) : Over (t.map f) (u.map f) where
  world := by
    rw [map_world, map_world, h.world, hf]
  calls := h.calls

theorem held_iff (h : Over t u) : u.world.Held hp ↔ t.world.Held hp := by
  rw [h.world]
  exact Iff.rfl

theorem impl (h : Over t u) : u.world.impl = t.world.impl := by rw [h.world]

theorem thrown (h : Over t u) : u.world.thrown = t.world.thrown := by rw [h.world]

theorem dlclose (h : Over t u) (hd : Handle) : Over (t.dlclose hd) (u.dlclose hd) where
  world := by
    unfold Traced.dlclose
    rw [h.world]
  calls := congrArg (List.cons _) h.calls

theorem dlopen (h : Over t u) (lib : LibId) (hd : Handle) (noDelete : Bool) :
    Over (t.dlopen lib hd noDelete) (u.dlopen lib hd noDelete) where
  world := by
    unfold Traced.dlopen
    rw [h.world]
  calls := by
    have hnext : u.world.next = t.world.next := by rw [h.world]
    unfold Traced.dlopen
    rw [hnext, h.calls]

theorem release (h : Over t u) (hp : DlHandlePtr) : Over (t.release hp) (u.release hp) := by
  unfold Traced.release
  by_cases hheld : t.world.Held hp
  · rw [if_pos hheld, if_pos (h.held_iff.mpr hheld)]
    exact h
  · rw [if_neg hheld, if_neg fun hh => hheld (h.held_iff.mp hh)]
    exact h.dlclose hp.handle

theorem setHandle (h : Over t u) (name : String) (hp : DlHandlePtr) :
    Over (t.setHandle name hp) (u.setHandle name hp) := by
  have hset := h.map (f := fun w => { w with impl := { w.impl with
    pluginToDlHandlePtrs := w.impl.pluginToDlHandlePtrs.insert name hp } }) fun _ _ => rfl
  unfold Traced.setHandle
  rw [h.impl]
  cases t.world.impl.pluginToDlHandlePtrs.lookup name with
  | none => exact hset
  | some old => exact hset.release old

theorem eraseHandle (h : Over t u) (name : String) :
    Over (t.eraseHandle name) (u.eraseHandle name) := by
  have herase := h.map (f := fun w => { w with impl := { w.impl with
    pluginToDlHandlePtrs := w.impl.pluginToDlHandlePtrs.erase name } }) fun _ _ => rfl
  unfold Traced.eraseHandle
  rw [h.impl]
  cases t.world.impl.pluginToDlHandlePtrs.lookup name with
  | none => exact h
  | some old => exact herase.release old

theorem eraseHandles (h : Over t u) (order : List String) :
    Over (order.foldl Traced.eraseHandle t) (order.foldl Traced.eraseHandle u) := by
  induction order generalizing t u with
  | nil => exact h
  | cons name order ih => exact ih (h.eraseHandle name)

theorem dropLocal (h : Over t u) (hp : DlHandlePtr) : Over (t.dropLocal hp) (u.dropLocal hp) :=
  (h.map (f := fun w => { w with locals := w.locals.erase hp }) fun _ _ => rfl).release hp

theorem destroyInstance (h : Over t u) (block : Nat) :
    Over (t.destroyInstance block) (u.destroyInstance block) := by
  have herase := h.map (f := fun w => { w with instances := w.instances.erase block })
    fun _ _ => rfl
  have hinst : u.world.instances = t.world.instances := by rw [h.world]
  unfold Traced.destroyInstance
  rw [hinst]
  cases t.world.instances.lookup block with
  | none => exact h
  | some i =>
    cases hhp : i.dlHandlePtr with
    | none =>
      simp only [hhp]
      exact herase
    | some hp =>
      simp only [hhp]
      exact herase.release hp

/-! ### Loading -/

theorem openLib (env : Env) (h : Over t u) (hd : t.world.dl.SameImages u.world.dl) (path : String)
    (noDelete : Bool) (res : DlopenResult) :
    (u.openLib env path noDelete res).1 = (t.openLib env path noDelete res).1 ∧
    Over (t.openLib env path noDelete res).2 (u.openLib env path noDelete res).2 := by
  have hnext : u.world.next = t.world.next := by rw [h.world]
  cases hres : res.handle with
  | none =>
    simp only [Traced.openLib, hres, true_and]
    exact h
  | some hd' =>
    cases hlib : env.resolve path with
    | none =>
      simp only [Traced.openLib, hres, hlib, true_and]
      exact h
    | some lib =>
      have hopen := (h.dlopen lib hd' noDelete).map
        (f := fun w => { w with next := w.next + 2 }) fun _ _ => rfl
      cases herr : res.error with
      | true =>
        simp only [Traced.openLib, hres, hlib, herr, if_true, true_and]
        exact hopen
      | false =>
        have hfilter : ((u.world.impl.dlHandlePtrMap.lookup hd').filter
            fun old => u.world.Held old) =
            (t.world.impl.dlHandlePtrMap.lookup hd').filter fun old => t.world.Held old := by
          rw [h.world]
          rfl
        cases hold : (t.world.impl.dlHandlePtrMap.lookup hd').filter
            fun old => t.world.Held old with
        | some old =>
          rw [openLib_reused hlib hres herr hold, openLib_reused hlib hres herr (hfilter.trans hold)]
          exact ⟨rfl, (hopen.dlclose hd').map
            (f := fun w => { w with locals := old :: w.locals }) fun _ _ => rfl⟩
        | none =>
          have himage := hd.opened_image lib hd' t.world.next noDelete
          rw [openLib_created hlib hres herr hold rfl,
            openLib_created hlib hres herr (hfilter.trans hold) rfl, hnext, himage]
          exact ⟨rfl, hopen.map (f := fun w => { w with
            impl := { w.impl with dlHandlePtrMap := w.impl.dlHandlePtrMap.insert hd' _ }
            locals := _ :: w.locals }) fun _ _ => rfl⟩

theorem addPlugins (env : Env) (hp : DlHandlePtr) (h : Over t u) (names : Finset String)
    (infos : List (Info CodePtr)) :
    (infos.foldl (addPlugin env hp) (u, names)).2 =
      (infos.foldl (addPlugin env hp) (t, names)).2 ∧
    Over (infos.foldl (addPlugin env hp) (t, names)).1
      (infos.foldl (addPlugin env hp) (u, names)).1 := by
  induction infos generalizing t u names with
  | nil => exact ⟨rfl, h⟩
  | cons info infos ih =>
    have hadd := (h.map (f := fun w => w.addInfo (World.finishInfo env info)) fun _ _ => rfl)
    exact ih (hadd.setHandle _ hp) _

theorem loadLib (h : Over t u) (hd : t.world.dl.SameImages u.world.dl) (path : String)
    (noDelete : Bool) (res : DlopenResult) (infos : List (Info Symbol)) :
    Over (t.loadLib env path noDelete res infos).2 (u.loadLib env path noDelete res infos).2 := by
  obtain ⟨hptr, hopen⟩ := h.openLib env hd path noDelete res
  unfold Traced.loadLib
  generalize t.openLib env path noDelete res = r at *
  generalize u.openLib env path noDelete res = r' at *
  obtain ⟨hp, t₁⟩ := r
  obtain ⟨hp', u₁⟩ := r'
  obtain rfl : hp' = hp := hptr
  cases hp' with
  | none => exact hopen
  | some hp =>
    obtain ⟨hnames, hadd⟩ := hopen.addPlugins env hp ∅ (World.relocate hp infos)
    simp only [hnames]
    exact (hadd.map (f := fun w => { w with impl := { w.impl with
      dlHandleToPluginMap := w.impl.dlHandleToPluginMap.insert hp.handle _ } })
      fun _ _ => rfl).dropLocal hp

/-! ### Forgetting -/

theorem forgetPlugin (h : Over t u) (name : String) :
    Over (t.forgetPlugin name) (u.forgetPlugin name) := by
  have hforget := h.map (f := fun w => w.forgetInfo name) fun w dl => by
    unfold World.forgetInfo
    cases w.impl.filePlugins.forgetInfo name <;> rfl
  unfold Traced.forgetPlugin
  rw [h.thrown]
  split
  · exact h
  simp only
  rw [hforget.thrown]
  split
  · exact hforget
  · exact hforget.eraseHandle name

theorem forgetPlugins (h : Over t u) (order : List String) :
    Over (order.foldl Traced.forgetPlugin t) (order.foldl Traced.forgetPlugin u) := by
  induction order generalizing t u with
  | nil => exact h
  | cons name order ih => exact ih (h.forgetPlugin name)

theorem forgetHandle (h : Over t u) (hd : Handle) (order : List String) :
    Over (t.forgetHandle hd order).2 (u.forgetHandle hd order).2 := by
  have hfold := h.forgetPlugins order
  unfold Traced.forgetHandle
  rw [h.impl]
  split
  · exact h
  simp only
  rw [hfold.thrown]
  split
  · exact hfold
  · exact hfold.map (f := fun w => { w with impl := { w.impl with
      dlHandleToPluginMap := w.impl.dlHandleToPluginMap.erase hd } }) fun _ _ => rfl

/-! ### Instantiating -/

theorem instantiate_on (env : Env) (w : World) (dl : Dl) (s : String) (instance_ : Ptr) :
    (World.instantiate env { w with dl := dl } s instance_).2 =
      { (w.instantiate env s instance_).2 with dl := dl } := by
  have hcreate : ∀ (w : World) info hp allowNull,
      (World.create env { w with dl := dl } info hp allowNull instance_).2 =
        { (w.create env info hp allowNull instance_).2 with dl := dl } := by
    intro w info hp allowNull
    unfold World.create
    simp only
    generalize Plugin.empty.create env.cast info hp allowNull w.next instance_ = made
    cases made.2 <;> rfl
  unfold World.instantiate
  simp only
  split
  · rename_i hne
    have hne : w.lookupFilePlugin s ≠ "" := hne
    rw [if_pos hne]
    exact hcreate w _ _ false
  rename_i hempty
  have hempty : ¬ w.lookupFilePlugin s ≠ "" := hempty
  rw [if_neg hempty]
  split
  · exact hcreate { w with next := w.next + 1 } _ none true
  · rfl

theorem after (env : Env) {op : Op} (h : Over t u) (hd : t.world.dl.SameImages u.world.dl)
    (hop : op.OfLoader) : Over (t.after env op) (u.after env op) := by
  cases op with
  | loadLib path noDelete res infos => exact h.loadLib hd path noDelete res infos
  | forgetLibrary path res order =>
    simp only [Traced.after, Traced.forgetLibrary]
    split
    · exact ((h.dlopen _ _ false).dlclose _).forgetHandle _ order
    · exact h
  | forgetLibraryOfPlugin s order =>
    have hlookup : u.world.lookupPlugin env s = t.world.lookupPlugin env s := by
      rw [h.world]
      rfl
    simp only [Traced.after, Traced.forgetLibraryOfPlugin]
    rw [hlookup, h.impl]
    split
    · exact h
    · exact h.forgetHandle _ order
  | instantiate s instance_ =>
    exact h.map (f := fun w => (w.instantiate env s instance_).2)
      fun w dl => instantiate_on env w dl s instance_
  | destroyInstance block => exact h.destroyInstance block
  | destroyLoader order =>
    exact (h.map (f := World.clearTables) fun _ _ => rfl).eraseHandles order
  | otherOpen lib hd => exact absurd hop id
  | otherClose hd => exact absurd hop id

end Traced.Over

/-- Whether an operation can take place is a matter of the open libraries, not of counts. -/
theorem World.enabled_on {env : Env} {w : World} {dl : Dl} (hd : w.dl.SameImages dl)
    {op : World.Op} (hop : op.OfLoader) (hen : w.Enabled env op) :
    World.Enabled env { w with dl := dl } op := by
  cases op with
  | loadLib path noDelete res infos =>
    obtain ⟨ha, hr, hvec⟩ := hen
    refine ⟨ha, ?_, hvec⟩
    intro h hh
    obtain ⟨lib, hlib, hmay⟩ := hr h hh
    exact ⟨lib, hlib, hd.mayReturn_iff.mpr hmay⟩
  | forgetLibrary path res order =>
    obtain ⟨ha, hr, hord⟩ := hen
    refine ⟨ha, ?_, hord⟩
    unfold World.NoLoadMayReturn at hr ⊢
    split at hr
    · exact hr
    · exact hd.noLoadReturns_iff.mpr hr
  | forgetLibraryOfPlugin s order => exact hen
  | instantiate s instance_ => exact hen
  | destroyInstance block => exact hen
  | destroyLoader order => exact hen
  | otherOpen lib h => exact absurd hop id
  | otherClose h => exact absurd hop id

/-! ### The order of the calls -/

namespace Traced

variable {env : Env} {t t' t'' : Traced} {hp : DlHandlePtr}

/-- Between `t` and `t'` the Loader only closed handles. -/
def Closes (t t' : Traced) : Prop := ∃ hs : List Handle, t'.calls = hs.map .dlclose ++ t.calls

theorem Closes.of_calls (h : t'.calls = t.calls) : Closes t t' := ⟨[], h⟩

theorem Closes.trans (h : Closes t t') (h' : Closes t' t'') : Closes t t'' := by
  obtain ⟨hs, he⟩ := h
  obtain ⟨hs', he'⟩ := h'
  exact ⟨hs' ++ hs, by rw [he', he, List.map_append, List.append_assoc]⟩

theorem dlclose_closes (t : Traced) (h : Handle) : Closes t (t.dlclose h) := ⟨[h], rfl⟩

theorem release_closes (t : Traced) (hp : DlHandlePtr) : Closes t (t.release hp) := by
  unfold release
  split
  · exact .of_calls rfl
  · exact dlclose_closes t hp.handle

theorem setHandle_closes (t : Traced) (name : String) (hp : DlHandlePtr) :
    Closes t (t.setHandle name hp) := by
  unfold setHandle
  split
  · exact .of_calls rfl
  · exact .trans (.of_calls rfl) (release_closes _ _)

theorem eraseHandle_closes (t : Traced) (name : String) : Closes t (t.eraseHandle name) := by
  unfold eraseHandle
  split
  · exact .of_calls rfl
  · exact .trans (.of_calls rfl) (release_closes _ _)

theorem eraseHandles_closes (order : List String) (t : Traced) :
    Closes t (order.foldl eraseHandle t) := by
  induction order generalizing t with
  | nil => exact .of_calls rfl
  | cons name order ih => exact (eraseHandle_closes t name).trans (ih _)

theorem destroyInstance_closes (t : Traced) (block : Nat) :
    Closes t (t.destroyInstance block) := by
  unfold destroyInstance
  split
  · exact .of_calls rfl
  simp only
  split
  · exact .of_calls rfl
  · exact .trans (.of_calls rfl) (release_closes _ _)

theorem addPlugins_closes (infos : List (Info CodePtr)) (st : Traced × Finset String) :
    Closes st.1 (infos.foldl (addPlugin env hp) st).1 := by
  induction infos generalizing st with
  | nil => exact .of_calls rfl
  | cons info infos ih =>
    have hadd : Closes st.1 (addPlugin env hp st info).1 :=
      .trans (.of_calls rfl) (setHandle_closes _ _ hp)
    exact hadd.trans (ih _)

/-- `LoadLib` opens the library first, if there is one. -/
theorem loadLib_closes {path : String} {noDelete : Bool} {res : World.DlopenResult}
    (infos : List (Info Symbol)) {lib : LibId} {h : Handle} (hres : res.handle = some h)
    (hlib : env.resolve path = some lib) :
    Closes (t.dlopen lib h noDelete) (t.loadLib env path noDelete res infos).2 := by
  have hopen : Closes (t.dlopen lib h noDelete) (t.openLib env path noDelete res).2 := by
    simp only [openLib, hres, hlib]
    split
    · exact .of_calls rfl
    split
    · exact .trans (.of_calls rfl) ((dlclose_closes _ h).trans (.of_calls rfl))
    · exact .of_calls rfl
  unfold loadLib
  split
  · rename_i t₁ he
    rw [he] at hopen
    exact hopen
  · rename_i hp t₁ he
    rw [he] at hopen
    have hadd : Closes t₁ ((World.relocate hp infos).foldl (addPlugin env hp) (t₁, ∅)).1 :=
      addPlugins_closes (World.relocate hp infos) (t₁, ∅)
    exact hopen.trans (hadd.trans (.trans (.of_calls rfl) (release_closes _ hp)))

theorem forgetPlugin_closes (t : Traced) (name : String) : Closes t (t.forgetPlugin name) := by
  unfold forgetPlugin
  split
  · exact .of_calls rfl
  simp only
  split
  · exact .of_calls rfl
  · exact .trans (.of_calls rfl) (eraseHandle_closes _ name)

theorem forgetHandle_closes (t : Traced) (h : Handle) (order : List String) :
    Closes t (t.forgetHandle h order).2 := by
  have hfold : ∀ t : Traced, Closes t (order.foldl forgetPlugin t) := by
    induction order with
    | nil => exact fun t => .of_calls rfl
    | cons name order ih => exact fun t => (forgetPlugin_closes t name).trans (ih _)
  unfold forgetHandle
  split
  · exact .of_calls rfl
  simp only
  split
  · exact hfold t
  · exact (hfold t).trans (.of_calls rfl)

end Traced

end GzPlugin
