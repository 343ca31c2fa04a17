import GzPlugin.Runs
import GzPlugin.Tables

/-!
# What an operation can do

One lemma for every function of the Loader, and from these the effects that a step can
have on the tables and on the living instances.
-/

namespace GzPlugin

open FiniteMaps

set_option autoImplicit false

namespace World

open Implementation

variable {env : Env} {w w' w'' : World} {hp : DlHandlePtr}

/-- Nothing changed but the linker and the tables. -/
structure Around (w w' : World) : Prop where
  alive : w'.alive = w.alive
  instances : w'.instances = w.instances
  locals : w'.locals = w.locals
  thrown : w'.thrown = w.thrown
  next : w.next ≤ w'.next

theorem Around.refl (w : World) : Around w w := ⟨rfl, rfl, rfl, rfl, Nat.le_refl _⟩

theorem Around.trans (h : Around w w') (h' : Around w' w'') : Around w w'' where
  alive := h'.alive.trans h.alive
  instances := h'.instances.trans h.instances
  locals := h'.locals.trans h.locals
  thrown := h'.thrown.trans h.thrown
  next := h.next.trans h'.next

theorem eraseHandle_impl (w : World) (name : String) : (w.eraseHandle name).impl =
    { w.impl with pluginToDlHandlePtrs := w.impl.pluginToDlHandlePtrs.erase name } := by
  unfold eraseHandle
  split
  · rename_i hnone
    have he : w.impl.pluginToDlHandlePtrs.erase name = w.impl.pluginToDlHandlePtrs := by
      apply Finmap.ext_lookup
      intro n
      rw [lookup_erase_eq]
      split
      · rename_i hn
        rw [hn, hnone]
      · rfl
    rw [he]
  · rw [release_impl]

theorem eraseHandle_around (w : World) (name : String) : Around w (w.eraseHandle name) := by
  unfold eraseHandle
  split
  · exact Around.refl w
  · constructor <;> simp

theorem setHandle_impl (w : World) (name : String) (hp : DlHandlePtr) :
    (w.setHandle name hp).impl =
      { w.impl with pluginToDlHandlePtrs := w.impl.pluginToDlHandlePtrs.insert name hp } := by
  unfold setHandle
  split
  · rfl
  · rw [release_impl]

theorem setHandle_around (w : World) (name : String) (hp : DlHandlePtr) :
    Around w (w.setHandle name hp) := by
  unfold setHandle
  split
  · exact ⟨rfl, rfl, rfl, rfl, Nat.le_refl _⟩
  · constructor <;> simp

/-! ### Loading -/

theorem addPlugin_added (w : World) (names : Finset String) (hp : DlHandlePtr)
    (info : Info Symbol) : Added env hp [info] w.impl
      (addPlugin env hp (w, names) (info.mapCode (CodePtr.mk hp.image))).1.impl := by
  have himpl : (addPlugin env hp (w, names) (info.mapCode (CodePtr.mk hp.image))).1.impl =
      { w.impl with
        filePlugins := (w.impl.filePlugins.addInfo ⟨w.next, env.stored hp.image info⟩).1
        pluginToDlHandlePtrs :=
          w.impl.pluginToDlHandlePtrs.insert (env.demangle info.name) hp } :=
    setHandle_impl _ _ _
  rw [himpl]
  constructor
  · intro name
    simp only [lookup_insert_eq, List.mem_singleton, exists_eq_left, @eq_comm _ name]
  · intro name ptr hl
    rw [Registry.addInfo_plugins, if_neg]
    · exact hl
    · rintro ⟨rfl, hn⟩
      exact hn (Finmap.mem_of_lookup_eq_some hl)
  · intro name ptr hl
    rw [Registry.addInfo_plugins] at hl
    split at hl
    · rename_i hn
      cases hl
      exact Or.inr ⟨hn.1 ▸ hn.2, info, List.mem_singleton.mpr rfl, hn.1.symm, rfl⟩
    · exact Or.inl hl
  · intro name
    simp only [Registry.mem_addInfo_plugins, List.mem_singleton, exists_eq_left]
    exact or_comm.trans (or_congr Iff.rfl eq_comm)
  · intro name a
    simp only [Registry.mem_addInfo_names, List.mem_singleton, exists_eq_left]
    exact or_comm.trans (or_congr Iff.rfl (and_congr Iff.rfl eq_comm))

theorem addPlugin_around (st : World × Finset String) (info : Info CodePtr) :
    Around st.1 (addPlugin env hp st info).1 := by
  have hadd : Around st.1 (st.1.addInfo (finishInfo env info)) :=
    ⟨rfl, rfl, rfl, rfl, Nat.le_succ _⟩
  exact hadd.trans (setHandle_around _ _ _)

theorem addPlugin_recorded (st : World × Finset String) (info : Info CodePtr) :
    (addPlugin env hp st info).1.impl.dlHandleToPluginMap = st.1.impl.dlHandleToPluginMap := by
  simp only [addPlugin, setHandle_impl]
  rfl

theorem addPlugin_linked (st : World × Finset String) (h : st.1.Linked) (hmem : hp ∈ st.1.locals)
    (info : Info CodePtr) : (addPlugin env hp st info).1.Linked :=
  setHandle_linked (addInfo_linked h _) _ (Or.inr (Or.inr hmem))

theorem addPlugins_spec (env : Env) (infos : List (Info Symbol)) (names : Finset String) (h : w.Linked)
    (hmem : hp ∈ w.locals) :
    Added env hp infos w.impl
      ((relocate hp infos).foldl (addPlugin env hp) (w, names)).1.impl ∧
    Around w ((relocate hp infos).foldl (addPlugin env hp) (w, names)).1 ∧
    ((relocate hp infos).foldl (addPlugin env hp) (w, names)).1.impl.dlHandleToPluginMap =
      w.impl.dlHandleToPluginMap ∧
    ((relocate hp infos).foldl (addPlugin env hp) (w, names)).1.Linked ∧
    ∀ n, n ∈ ((relocate hp infos).foldl (addPlugin env hp) (w, names)).2 ↔
      n ∈ names ∨ ∃ i ∈ infos, env.demangle i.name = n := by
  induction infos generalizing w names with
  | nil => exact ⟨Added.nil env hp w.impl, Around.refl w, rfl, h, by simp [relocate]⟩
  | cons info infos ih =>
    have har : Around w (addPlugin env hp (w, names) (info.mapCode (CodePtr.mk hp.image))).1 :=
      addPlugin_around (w, names) _
    obtain ⟨hadd, har', hrec, hlink, hnames⟩ := ih
      (insert (env.demangle info.name) names)
      (addPlugin_linked (w, names) h hmem _) (by rw [har.locals]; exact hmem)
    refine ⟨(addPlugin_added w names hp info).append hadd, har.trans har',
      hrec.trans (addPlugin_recorded (w, names) _), hlink, ?_⟩
    intro n
    refine (hnames n).trans ?_
    simp only [Finset.mem_insert, List.mem_cons, exists_eq_or_imp, @eq_comm _ n, or_assoc]
    exact or_left_comm

theorem handle_of_held {lib : LibId} {hd : Handle} (h : w.Linked) (hr : w.dl.MayReturn lib hd)
    {serial : Nat} (hheld : w.Held hp) (himage : hp.image = .mapped lib serial) :
    hp.handle = hd := by
  obtain ⟨m, hm, hi, _⟩ := h.mapped hheld
  obtain ⟨n, hn⟩ := h.ordered.image hm
  have hlib : m.lib = lib := by
    rw [hi, himage] at hn
    cases hn
    rfl
  unfold Dl.MayReturn at hr
  split at hr
  · rename_i m' hm'
    exact h.ordered.handle hm hm' (by rw [hlib, hr])
  · exact absurd ⟨_, m, hm, hlib⟩ hr

theorem openLib_reused {path : String} {noDelete : Bool} {res : DlopenResult} {lib : LibId}
    {h : Handle} (hlib : env.resolve path = some lib) (hres : res.handle = some h)
    (herr : res.error = false)
    (hold : ((w.impl.dlHandlePtrMap.lookup h).filter fun old => w.Held old) = some hp) :
    w.openLib env path noDelete res = (some hp, { w with
      dl := (w.dl.dlopen lib h w.next noDelete).dlclose h
      next := w.next + 2
      locals := hp :: w.locals }) := by
  simp only [openLib, hlib, hres, herr, Bool.false_eq_true, if_false]
  split
  · rename_i old hsome
    cases hold.symm.trans hsome
    rfl
  · rename_i hnone
    cases hold.symm.trans hnone

theorem openLib_created {path : String} {noDelete : Bool} {res : DlopenResult} {lib : LibId}
    {h : Handle} (hlib : env.resolve path = some lib) (hres : res.handle = some h)
    (herr : res.error = false)
    (hnone : ((w.impl.dlHandlePtrMap.lookup h).filter fun old => w.Held old) = none)
    (hhp : hp = ⟨w.next + 1, h, (w.dl.opened lib h w.next noDelete).image⟩) :
    w.openLib env path noDelete res = (some hp, { w with
      dl := w.dl.dlopen lib h w.next noDelete
      next := w.next + 2
      impl := { w.impl with dlHandlePtrMap := w.impl.dlHandlePtrMap.insert h hp }
      locals := hp :: w.locals }) := by
  simp only [openLib, hlib, hres, herr, Bool.false_eq_true, if_false]
  split
  · rename_i old hsome
    cases hnone.symm.trans hsome
  · rw [hhp]

/-- `Implementation::LoadLib` found a library and returned `hp`. -/
structure Opened (env : Env) (w : World) (path : String) (res : DlopenResult) (lib : LibId)
    (hp : DlHandlePtr) (w' : World) : Prop where
  resolved : env.resolve path = some lib
  handle : res.handle = some hp.handle
  noError : res.error = false
  image : ∃ serial, hp.image = .mapped lib serial
  reuses : ∀ {hp' serial}, w.Held hp' → hp'.image = .mapped lib serial → hp' = hp
  linked : w'.Linked
  locals : w'.locals = hp :: w.locals
  plugins : w'.impl.filePlugins = w.impl.filePlugins
  handles : w'.impl.pluginToDlHandlePtrs = w.impl.pluginToDlHandlePtrs
  recorded : w'.impl.dlHandleToPluginMap = w.impl.dlHandleToPluginMap
  alive : w'.alive = w.alive
  instances : w'.instances = w.instances
  thrown : w'.thrown = w.thrown
  next : w.next ≤ w'.next

theorem Opened.unique {path : String} {res : DlopenResult} {lib : LibId}
    (h : Opened env w path res lib hp w') {hp' : DlHandlePtr} (hheld : w.Held hp')
    (he : hp'.handle = hp.handle) : hp' = hp := by
  have hheld' : w'.Held hp' := by
    rcases hheld with hh | hh | hh
    · exact Or.inl (h.handles ▸ hh)
    · exact Or.inr (Or.inl (h.instances ▸ hh))
    · exact Or.inr (Or.inr (h.locals ▸ List.mem_cons_of_mem hp hh))
  have hlocal : w'.Held hp := Or.inr (Or.inr (h.locals ▸ List.mem_cons_self))
  exact h.linked.unique hheld' hlocal he

theorem openLib_cases {path : String} (noDelete : Bool) {res : DlopenResult} (h : w.Linked)
    (ha : w.alive) (hr : w.DlopenMayReturn env path res) :
    (∃ w', w.openLib env path noDelete res = (none, w') ∧ w'.Linked ∧ w'.impl = w.impl ∧
      Around w w' ∧ ∀ lib hd, env.resolve path = some lib → res.handle = some hd →
        res.error = true) ∨
    ∃ lib hp w', w.openLib env path noDelete res = (some hp, w') ∧
      Opened env w path res lib hp w' := by
  have hlink := openLib_linked noDelete h ha hr
  unfold openLib at hlink ⊢
  split at hlink
  · rename_i hd lib hhd hlib
    obtain ⟨lib', hlib', hmay⟩ := hr hd hhd
    have hsame : lib' = lib := by
      rw [Option.mem_def, hlib] at hlib'
      exact (Option.some.inj hlib').symm
    subst hsame
    have himage := h.ordered.opened_image hmay w.next noDelete
    have hreuse : ∀ {hp serial}, w.Held hp → hp.image = .mapped lib' serial →
        w.impl.dlHandlePtrMap.lookup hd = some hp := by
      intro hp serial hheld himg
      rw [← handle_of_held h hmay hheld himg]
      exact h.weak ha hheld
    simp only at hlink ⊢
    by_cases herr : res.error = true
    · simp only [herr, if_true] at hlink ⊢
      exact Or.inl ⟨_, rfl, hlink, rfl, ⟨rfl, rfl, rfl, rfl, by simp⟩, fun _ _ _ _ => trivial⟩
    · simp only [herr, if_false, Bool.false_eq_true] at hlink ⊢
      have herr : res.error = false := by simpa using herr
      split at hlink
      · rename_i old hold
        obtain ⟨hold, hheld⟩ := Option.filter_eq_some_iff.mp hold
        have hheld : w.Held old := of_decide_eq_true hheld
        have hkey := h.keyed hold
        have hold_image : old.image = (w.dl.opened lib' hd w.next noDelete).image := by
          obtain ⟨m, hm, himg, _⟩ := h.mapped hheld
          rw [hkey] at hm
          rw [Dl.opened_of_open hm, ← himg]
        refine Or.inr ⟨lib', old, _, rfl, ?_⟩
        have hsame : ∀ {hp' serial}, w.Held hp' → hp'.image = .mapped lib' serial →
            hp' = old := by
          intro hp' serial hheld' himg
          have := hreuse hheld' himg
          rw [hold] at this
          exact (Option.some.inj this).symm
        exact ⟨hlib, hkey ▸ hhd, herr, hold_image ▸ himage, hsame, hlink, rfl, rfl, rfl, rfl, rfl, rfl,
          rfl, by simp⟩
      · rename_i hnone
        refine Or.inr ⟨lib', _, _, rfl, ?_⟩
        have hsame : ∀ {hp' serial}, w.Held hp' → hp'.image = .mapped lib' serial →
            hp' = ⟨w.next + 1, hd, (w.dl.opened lib' hd w.next noDelete).image⟩ := by
          intro hp' serial hheld' himg
          simp only [hreuse hheld' himg, Option.filter, decide_eq_true_eq, ite_eq_right_iff,
            reduceCtorEq] at hnone
          exact absurd hheld' hnone
        exact ⟨hlib, hhd, herr, himage, hsame, hlink, rfl, rfl, rfl, rfl, rfl, rfl, rfl, by simp⟩
  · rename_i hnone
    refine Or.inl ⟨w, rfl, h, rfl, Around.refl w, ?_⟩
    intro lib hd hlib hhd
    exact absurd hlib (hnone hd lib hhd)

theorem mem_pluginNames {lib : LibId} {infos : List (Info Symbol)}
    (hvec : Enumerates infos (env.allInfo lib)) {name : String} :
    name ∈ env.pluginNames lib ↔ ∃ i ∈ infos, env.demangle i.name = name := by
  simp only [Env.mem_pluginNames, hvec.mem_iff]
  constructor
  · rintro ⟨key, i, hi, hn⟩
    exact ⟨i, ⟨key, hi⟩, hn⟩
  · rintro ⟨i, ⟨key, hi⟩, hn⟩
    exact ⟨key, i, hi, hn⟩

theorem registered_of_enumerates {lib : LibId} {infos : List (Info Symbol)}
    (hvec : Enumerates infos (env.allInfo lib)) : ∀ i ∈ infos, i.Registered := by
  intro i hi
  obtain ⟨n, hn⟩ := (hvec.mem_iff i).mp hi
  exact (env.allInfo_keyed lib n i hn).2

/-- `LoadLib` loaded the library `lib` through the handle `hp`. -/
structure Loaded (env : Env) (w : World) (lib : LibId) (hp : DlHandlePtr)
    (infos : List (Info Symbol)) (w' : World) : Prop where
  image : ∃ serial, hp.image = .mapped lib serial
  reuses : ∀ {hp' serial}, w.Held hp' → hp'.image = .mapped lib serial → hp' = hp
  unique : ∀ {hp'}, w.Held hp' → hp'.handle = hp.handle → hp' = hp
  enumerates : Enumerates infos (env.allInfo lib)
  added : Added env hp infos w.impl w'.impl
  recorded : w'.impl.dlHandleToPluginMap =
    w.impl.dlHandleToPluginMap.insert hp.handle (env.pluginNames lib)
  around : Around w w'
  linked : w'.Linked

def Op.loads (env : Env) : Op → Option LibId
  | .loadLib path _ res _ =>
    if res.handle.isSome ∧ res.error = false then env.resolve path else none
  | _ => none

theorem Opened.loaded {path : String} {noDelete : Bool} {res : DlopenResult} {lib : LibId}
    {infos : List (Info Symbol)} {w₁ : World} (ho : Opened env w path res lib hp w₁)
    (he : w.openLib env path noDelete res = (some hp, w₁))
    (hvec : LoadedInOrder env path infos) :
    (w.loadLib env path noDelete res infos).1 = env.pluginNames lib ∧
      Loaded env w lib hp infos (w.loadLib env path noDelete res infos).2 := by
  have hvec := hvec lib ho.resolved
  have hmem : hp ∈ w₁.locals := by rw [ho.locals]; exact List.mem_cons_self
  obtain ⟨hadd, har, hrec, hlink, hnames⟩ := addPlugins_spec env infos ∅ ho.linked hmem
  have hset : ((relocate hp infos).foldl (addPlugin env hp) (w₁, ∅)).2 =
      env.pluginNames lib := by
    ext n
    rw [hnames, mem_pluginNames hvec]
    simp
  simp only [loadLib, he]
  refine ⟨hset, ho.image, ho.reuses, ho.unique, hvec, ?_, ?_, ?_, ?_⟩
  · exact hadd.of_eq ho.plugins.symm (by simp [dropLocal]) ho.handles.symm (by simp [dropLocal])
  · simp [dropLocal, hrec, ho.recorded, hset]
  · constructor
    · simp [dropLocal, har.alive, ho.alive]
    · simp [dropLocal, har.instances, ho.instances]
    · simp [dropLocal, har.locals, ho.locals]
    · simp [dropLocal, har.thrown, ho.thrown]
    · simpa [dropLocal] using ho.next.trans har.next
  · apply dropLocal_linked
    · exact hlink
    · exact har.locals ▸ hmem

theorem loadLib_cases {path : String} (noDelete : Bool) {res : DlopenResult}
    {infos : List (Info Symbol)} (h : w.Linked) (ha : w.alive)
    (hr : w.DlopenMayReturn env path res) (hvec : LoadedInOrder env path infos) :
    ((Op.loadLib path noDelete res infos).loads env = none ∧
      (w.loadLib env path noDelete res infos).1 = ∅ ∧
      (w.loadLib env path noDelete res infos).2.impl = w.impl ∧
      Around w (w.loadLib env path noDelete res infos).2 ∧
      (w.loadLib env path noDelete res infos).2.Linked) ∨
    ∃ lib hp, (Op.loadLib path noDelete res infos).loads env = some lib ∧
      (w.loadLib env path noDelete res infos).1 = env.pluginNames lib ∧
      Loaded env w lib hp infos (w.loadLib env path noDelete res infos).2 := by
  rcases openLib_cases noDelete h ha hr with
    ⟨w₁, he, hlink, himpl, har, herr⟩ | ⟨lib, hp, w₁, he, ho⟩
  · have hl : w.loadLib env path noDelete res infos = (∅, w₁) := by simp only [loadLib, he]
    rw [hl]
    refine Or.inl ⟨?_, rfl, himpl, har, hlink⟩
    simp only [Op.loads]
    split
    · rename_i hsome
      obtain ⟨hd, hhd⟩ := Option.isSome_iff_exists.mp hsome.1
      by_contra hne
      obtain ⟨lib, hlib⟩ := Option.ne_none_iff_exists'.mp hne
      rw [herr lib hd hlib hhd] at hsome
      cases hsome.2
    · rfl
  · have hop : (Op.loadLib path noDelete res infos).loads env = some lib := by
      simp [Op.loads, ho.handle, ho.noError, ho.resolved]
    exact Or.inr ⟨lib, hp, hop, ho.loaded he hvec⟩

/-! ### Forgetting -/

/-- On a well-formed registry one round of the loop removes the name from both maps. -/
theorem forgetPlugin_spec (name : String) (hw : w.impl.filePlugins.WellFormed)
    (hth : w.thrown = false) (h : w.Linked) :
    Removed {name} w.impl (w.forgetPlugin name).impl ∧
    (w.forgetPlugin name).impl.filePlugins.WellFormed ∧
    (w.forgetPlugin name).impl.dlHandleToPluginMap = w.impl.dlHandleToPluginMap ∧
    Around w (w.forgetPlugin name) ∧ (w.forgetPlugin name).Linked := by
  obtain ⟨r, hr, hplugins, hnames⟩ := hw.forgetInfo name
  have he : w.forgetPlugin name =
      { w with impl := { w.impl with filePlugins := r } }.eraseHandle name := by
    simp [forgetPlugin, forgetInfo, hth, hr]
  rw [he]
  refine ⟨?_, ?_, ?_, ?_, ?_⟩
  · rw [eraseHandle_impl]
    constructor
    · intro n
      simp only [lookup_erase_eq, Finset.mem_singleton]
    · intro n
      simp only [hplugins, Finset.mem_singleton]
    · intro n a
      simp only [hnames, Finset.mem_singleton]
      constructor
      · rintro ⟨hn, hnot⟩
        exact ⟨hn, fun ⟨hname, hptr⟩ => hnot ⟨hname, hname ▸ hptr⟩⟩
      · rintro ⟨hn, hnot⟩
        exact ⟨hn, fun ⟨hname, hptr⟩ => hnot ⟨hname, by rw [hname]; exact hptr⟩⟩
  · rw [eraseHandle_impl]
    exact hw.of_forgetInfo hr
  · rw [eraseHandle_impl]
  · refine Around.trans ?_ (eraseHandle_around _ name)
    exact ⟨rfl, rfl, rfl, rfl, Nat.le_refl _⟩
  · apply eraseHandle_linked
    exact h

theorem forgetPlugins_spec (order : List String) (hw : w.impl.filePlugins.WellFormed)
    (hth : w.thrown = false) (h : w.Linked) :
    Removed order.toFinset w.impl (order.foldl forgetPlugin w).impl ∧
    (order.foldl forgetPlugin w).impl.dlHandleToPluginMap = w.impl.dlHandleToPluginMap ∧
    Around w (order.foldl forgetPlugin w) ∧ (order.foldl forgetPlugin w).Linked := by
  induction order generalizing w with
  | nil => exact ⟨Removed.empty w.impl, rfl, Around.refl w, h⟩
  | cons name order ih =>
    obtain ⟨hrem, hw', hrec, har, hlink⟩ := forgetPlugin_spec name hw hth h
    obtain ⟨hrem', hrec', har', hlink'⟩ := ih hw' (har.thrown.trans hth) hlink
    refine ⟨?_, hrec'.trans hrec, har.trans har', hlink'⟩
    rw [List.toFinset_cons, Finset.insert_eq]
    exact hrem.union hrem'

/-- The plugins `names` recorded for the handle `hd` were forgotten. -/
structure Forgot (w : World) (hd : Handle) (names : Finset String) (w' : World) : Prop where
  known : w.impl.dlHandleToPluginMap.lookup hd = some names
  removed : Removed names w.impl w'.impl
  recorded : w'.impl.dlHandleToPluginMap = w.impl.dlHandleToPluginMap.erase hd
  around : Around w w'
  linked : w'.Linked

theorem forgetHandle_none {hd : Handle} (order : List String)
    (h : w.impl.dlHandleToPluginMap.lookup hd = none) : w.forgetHandle hd order = (false, w) := by
  simp [forgetHandle, h]

theorem forgetHandle_some {hd : Handle} {order : List String} {names : Finset String}
    (hl : w.impl.dlHandleToPluginMap.lookup hd = some names) (hord : w.WalkedInOrder hd order)
    (hw : w.impl.filePlugins.WellFormed) (hth : w.thrown = false) (h : w.Linked) :
    (w.forgetHandle hd order).1 = true ∧ Forgot w hd names (w.forgetHandle hd order).2 := by
  obtain ⟨hrem, hrec, har, hlink⟩ := forgetPlugins_spec order hw hth h
  have hset : order.toFinset = names := by
    rw [← Finset.val_toFinset names, ← hord names hl]
    rfl
  have hth' : (order.foldl forgetPlugin w).thrown = false := har.thrown.trans hth
  simp only [forgetHandle, hl, hth', Bool.false_eq_true, if_false, true_and]
  constructor
  · exact hl
  · rw [← hset]
    exact hrem.of_eq rfl rfl
  · rw [hrec]
  · exact ⟨har.alive, har.instances, har.locals, hth.symm, har.next⟩
  · exact hlink

/-! ### Instantiating -/

/-- An object that the state can make: from a stored `Info` and the handle stored under the
same name, or from the static registry. -/
def Creates (env : Env) (w : World) (i : PluginWithDlHandle) : Prop :=
  (∃ name ptr hp, w.impl.filePlugins.plugins.lookup name = some ptr ∧
    w.impl.pluginToDlHandlePtrs.lookup name = some hp ∧
    i.dlHandlePtr = some hp ∧ i.deleter = ptr.info.deleter) ∨
  ∃ name info, env.statics.infos.lookup name = some info ∧
    i.dlHandlePtr = none ∧ i.deleter = info.deleter

/-- Only living instances changed, by ending or by being made. -/
structure Quiet (env : Env) (w w' : World) : Prop where
  impl : w'.impl = w.impl
  alive : w'.alive = w.alive
  instances : ∀ {block i}, w'.instances.lookup block = some i →
    w.instances.lookup block = some i ∨ w.Creates env i
  locals : w'.locals = w.locals
  thrown : w'.thrown = w.thrown
  next : w.next ≤ w'.next

theorem Around.quiet (h : Around w w') (himpl : w'.impl = w.impl) : Quiet env w w' where
  impl := himpl
  alive := h.alive
  instances hi := Or.inl (h.instances ▸ hi)
  locals := h.locals
  thrown := h.thrown
  next := h.next

theorem create_cases (env : Env) (w : World) (info : Option (ConstInfoPtr CodePtr)) (dl : Option DlHandlePtr)
    (allowNull : Bool) (instance_ : Ptr) :
    ((w.create env info dl allowNull instance_).2 = { w with next := w.next + 1 }) ∨
    ∃ ptr, info = some ptr ∧ (dl.isNone → allowNull) ∧
      (w.create env info dl allowNull instance_).2 =
        { w with
          instances := w.instances.insert w.next ⟨dl, instance_, ptr.info.deleter⟩
          next := w.next + 1 } := by
  cases info with
  | none => exact Or.inl rfl
  | some ptr =>
    cases dl with
    | none =>
      cases allowNull with
      | false => exact Or.inl rfl
      | true => exact Or.inr ⟨ptr, rfl, fun _ => rfl, rfl⟩
    | some hp => exact Or.inr ⟨ptr, rfl, (fun h => nomatch h), rfl⟩

theorem insertInstance_spec {i : PluginWithDlHandle} (hc : w.Creates env i) (h : w.Linked)
    {next : Nat} (hnext : w.next ≤ next) {block : Nat} :
    Quiet env w { w with instances := w.instances.insert block i, next := next } ∧
    Linked { w with instances := w.instances.insert block i, next := next } := by
  constructor
  · refine ⟨rfl, rfl, ?_, rfl, rfl, hnext⟩
    intro block i' hi'
    rw [lookup_insert_eq] at hi'
    split at hi'
    · cases hi'
      exact Or.inr hc
    · exact Or.inl hi'
  · refine Linkage.mono h ?_
    rintro hp (hh | hh | hh)
    · exact Or.inl hh
    · rcases hh.of_insert with hi | hh
      · rcases hc with ⟨name, _, hp', _, hl, hi', _⟩ | ⟨_, _, _, hnone, _⟩
        · rw [hi] at hi'
          cases hi'
          exact held_of_handle hl
        · rw [hi] at hnone
          cases hnone
      · exact Or.inr (Or.inl hh)
    · exact Or.inr (Or.inr hh)

theorem instantiate_quiet (env : Env) (s : String) (instance_ : Ptr) (h : w.Linked) :
    Quiet env w (w.instantiate env s instance_).2 ∧
    (w.instantiate env s instance_).2.Linked := by
  have hnext : Quiet env w { w with next := w.next + 1 } :=
    ⟨rfl, rfl, Or.inl, rfl, rfl, Nat.le_succ _⟩
  have hnext' : Quiet env w { w with next := w.next + 1 + 1 } :=
    ⟨rfl, rfl, Or.inl, rfl, rfl, Nat.le_add_right w.next 2⟩
  unfold instantiate
  simp only
  split
  · rcases create_cases env w
        (w.getInfoForFilePlugin (w.lookupFilePlugin s))
        (w.getPluginDlHandlePtr (w.lookupFilePlugin s)) false instance_ with
      he | ⟨ptr, hinfo, hdl, he⟩
    · rw [he]
      exact ⟨hnext, h⟩
    · rw [he]
      cases hhp : w.getPluginDlHandlePtr (w.lookupFilePlugin s) with
      | none => exact absurd (hdl (by rw [hhp]; rfl)) (by decide)
      | some hp =>
        exact insertInstance_spec (Or.inl ⟨_, ptr, hp, hinfo, hhp, rfl, rfl⟩) h (Nat.le_succ _)
  split
  · rcases create_cases env { w with next := w.next + 1 }
        (getInfoForStaticPlugin env w.next (lookupStaticPlugin env s)) none true
        instance_ with he | ⟨ptr, hinfo, _, he⟩
    · rw [he]
      exact ⟨hnext', h⟩
    · rw [he]
      obtain ⟨info, hstored, rfl⟩ := Option.map_eq_some_iff.mp hinfo
      exact insertInstance_spec (Or.inr ⟨_, info, hstored, rfl, rfl⟩) h (Nat.le_add_right _ 2)
  · exact ⟨⟨rfl, rfl, Or.inl, rfl, rfl, Nat.le_refl _⟩, h⟩

theorem destroyInstance_quiet (w : World) (block : Nat) :
    Quiet env w (w.destroyInstance block) := by
  have hinst : ∀ {b i}, (w.instances.erase block).lookup b = some i →
      w.instances.lookup b = some i ∨ w.Creates env i := by
    intro b i hi
    rw [lookup_erase_eq] at hi
    split at hi
    · cases hi
    · exact Or.inl hi
  unfold destroyInstance
  split
  · exact (Around.refl w).quiet rfl
  split
  · exact ⟨rfl, rfl, hinst, rfl, rfl, Nat.le_refl _⟩
  · constructor
    · simp
    · simp
    · simpa using @hinst
    · simp
    · simp
    · simp

/-! ### Destruction of the Loader -/

theorem eraseHandles_spec (order : List String) (h : w.Linked) :
    Around w (order.foldl eraseHandle w) ∧ (order.foldl eraseHandle w).Linked ∧
    (∀ name, (order.foldl eraseHandle w).impl.pluginToDlHandlePtrs.lookup name =
      if name ∈ order then none else w.impl.pluginToDlHandlePtrs.lookup name) ∧
    (order.foldl eraseHandle w).impl = { w.impl with
      pluginToDlHandlePtrs := (order.foldl eraseHandle w).impl.pluginToDlHandlePtrs } := by
  induction order generalizing w with
  | nil => exact ⟨Around.refl w, h, by simp, rfl⟩
  | cons name order ih =>
    obtain ⟨har, hlink, hl, himpl⟩ := ih (eraseHandle_linked h name)
    refine ⟨(eraseHandle_around w name).trans har, hlink, ?_, ?_⟩
    · intro n
      rw [List.foldl_cons, hl, eraseHandle_impl]
      simp only [lookup_erase_eq, List.mem_cons]
      by_cases hn : n = name <;> by_cases ho : n ∈ order <;> simp [hn, ho]
    · rw [List.foldl_cons, himpl, eraseHandle_impl]

theorem destroyLoader_spec {order : List String} (h : w.Linked)
    (hord : (order : Multiset String) = w.impl.pluginToDlHandlePtrs.keys.val) :
    (w.destroyLoader order).impl = .empty ∧ (w.destroyLoader order).Linked ∧
    (w.destroyLoader order).alive = false ∧
    (w.destroyLoader order).instances = w.instances ∧
    (w.destroyLoader order).locals = w.locals ∧ (w.destroyLoader order).thrown = w.thrown ∧
    w.next ≤ (w.destroyLoader order).next := by
  have hdead : w.clearTables.Linked := h.dead
  obtain ⟨har, hlink, hl, himpl⟩ := eraseHandles_spec order hdead
  have hempty : (w.destroyLoader order).impl.pluginToDlHandlePtrs = ∅ := by
    apply Finmap.ext_lookup
    intro name
    refine (hl name).trans ?_
    rw [Finmap.lookup_empty, ite_eq_left_iff, Finmap.lookup_eq_none]
    intro hn hm
    apply hn
    rw [← Multiset.mem_coe, hord]
    exact Finmap.mem_keys.mpr hm
  refine ⟨?_, hlink, har.alive, har.instances, har.locals, har.thrown, har.next⟩
  refine himpl.trans ?_
  rw [show (order.foldl eraseHandle _).impl.pluginToDlHandlePtrs = ∅ from hempty]
  rfl

/-! ### Steps -/

def forgottenHandle (env : Env) (w : World) : Op → Option Handle
  | .forgetLibrary _ res _ => res
  | .forgetLibraryOfPlugin s _ =>
    (w.impl.pluginToDlHandlePtrs.lookup (w.lookupPlugin env s)).map (·.handle)
  | _ => none

def forgottenNames (env : Env) (w : World) (op : Op) : Option (Finset String) :=
  (w.forgottenHandle env op).bind fun hd => w.impl.dlHandleToPluginMap.lookup hd

/-- The invariant of the Loader between two operations. -/
structure Sound (env : Env) (w : World) : Prop where
  linked : w.Linked
  tables : Tables env w.impl
  locals : w.locals = []
  notThrown : w.thrown = false

theorem init_sound (env : Env) : Sound env init := ⟨init_linked, Tables.empty env, rfl, rfl⟩

/-- What an operation can do to the tables and to the living instances. -/
inductive Effect (env : Env) (w : World) : Op → World → Prop where
  | loaded {op : Op} {w' : World} (lib : LibId) (hp : DlHandlePtr) (infos : List (Info Symbol))
      (hop : op.loads env = some lib) (h : Loaded env w lib hp infos w') : Effect env w op w'
  | forgot {op : Op} {w' : World} (hd : Handle) (names : Finset String)
      (hop : w.forgottenHandle env op = some hd) (h : Forgot w hd names w') : Effect env w op w'
  | kept {op : Op} {w' : World} (hload : op.loads env = none)
      (hforget : w.forgottenNames env op = none) (h : Quiet env w w') : Effect env w op w'
  | destroyed {order : List String} {w' : World} (himpl : w'.impl = .empty)
      (halive : w'.alive = false) (hinst : w'.instances = w.instances) :
      Effect env w (.destroyLoader order) w'

theorem Sound.of_quiet (h : Sound env w) (hq : Quiet env w w') (hlink : w'.Linked) :
    Sound env w' :=
  ⟨hlink, hq.impl ▸ h.tables, hq.locals.trans h.locals, hq.thrown.trans h.notThrown⟩

theorem Sound.of_loaded {lib : LibId} {infos : List (Info Symbol)} (h : Sound env w)
    (hl : Loaded env w lib hp infos w') : Sound env w' where
  linked := hl.linked
  tables := h.tables.added hl.added (registered_of_enumerates hl.enumerates)
  locals := hl.around.locals.trans h.locals
  notThrown := hl.around.thrown.trans h.notThrown

theorem Sound.of_forgot {hd : Handle} {names : Finset String} (h : Sound env w)
    (hf : Forgot w hd names w') : Sound env w' where
  linked := hf.linked
  tables := h.tables.removed hf.removed
  locals := hf.around.locals.trans h.locals
  notThrown := hf.around.thrown.trans h.notThrown

theorem forgetHandle_sound (op : Op) {hd : Handle} {order : List String} (h : Sound env w)
    (hop : w.forgottenHandle env op = some hd) (hload : op.loads env = none)
    (hord : w.WalkedInOrder hd order) :
    Sound env (w.forgetHandle hd order).2 ∧ Effect env w op (w.forgetHandle hd order).2 := by
  cases hl : w.impl.dlHandleToPluginMap.lookup hd with
  | none =>
    rw [forgetHandle_none order hl]
    have hq : Quiet env w w := (Around.refl w).quiet rfl
    exact ⟨h, .kept hload (by simp [forgottenNames, hop, hl]) hq⟩
  | some names =>
    obtain ⟨_, hf⟩ := forgetHandle_some hl hord h.tables.registry h.notThrown h.linked
    exact ⟨h.of_forgot hf, .forgot hd names hop hf⟩

theorem noLoad_linked {lib : LibId} {hd : Handle} (h : w.Linked)
    (hr : w.dl.NoLoadReturns lib (some hd)) :
    Linked { w with dl := (w.dl.dlopen lib hd w.next false).dlclose hd } := by
  obtain ⟨m, hm, hl⟩ := hr
  refine Linkage.dlopen_dlclose h ?_ w.next false
  unfold Dl.MayReturn
  rw [Option.mem_def.mp hm]
  exact hl

theorem forgetLibrary_sound {path : String} {res : Option Handle} {order : List String}
    (h : Sound env w) (hr : w.NoLoadMayReturn env path res)
    (hord : ∀ hd ∈ res, w.WalkedInOrder hd order) :
    Sound env (w.after env (.forgetLibrary path res order)) ∧
    Effect env w (.forgetLibrary path res order)
      (w.after env (.forgetLibrary path res order)) := by
  have hidle : Quiet env w w := (Around.refl w).quiet rfl
  cases res with
  | none => exact ⟨h, .kept rfl rfl hidle⟩
  | some hd =>
    cases hlib : env.resolve path with
    | none => simp [NoLoadMayReturn, hlib] at hr
    | some lib =>
      simp only [NoLoadMayReturn, hlib] at hr
      simp only [after, forgetLibrary, hlib]
      have hq : Quiet env w { w with dl := (w.dl.dlopen lib hd w.next false).dlclose hd } :=
        ⟨rfl, rfl, Or.inl, rfl, rfl, Nat.le_refl _⟩
      obtain ⟨hS, heff⟩ := forgetHandle_sound (.forgetLibrary path (some hd) order)
        (h.of_quiet hq (noLoad_linked h.linked hr)) rfl rfl (hord hd rfl)
      refine ⟨hS, ?_⟩
      cases heff with
      | loaded lib hp infos hop _ => cases hop
      | forgot hd names hop hf =>
        have har := hf.around
        exact .forgot hd names hop ⟨hf.known, hf.removed, hf.recorded,
          ⟨har.alive, har.instances, har.locals, har.thrown, har.next⟩, hf.linked⟩
      | kept hload hforget hk =>
        exact .kept hload hforget
          ⟨hk.impl, hk.alive, hk.instances, hk.locals, hk.thrown, hk.next⟩

theorem step_sound {op : Op} (h : Sound env w) (hs : step env w op = some w') :
    Sound env w' ∧ Effect env w op w' := by
  obtain ⟨hen, rfl⟩ := step_eq_some.mp hs
  cases op with
  | loadLib path noDelete res infos =>
    obtain ⟨ha, hr, hvec⟩ := hen
    rcases loadLib_cases noDelete h.linked ha hr hvec with
      ⟨hop, _, himpl, har, hlink⟩ | ⟨lib, hp, hop, _, hl⟩
    · exact ⟨h.of_quiet (har.quiet himpl) hlink, .kept hop rfl (har.quiet himpl)⟩
    · exact ⟨h.of_loaded hl, .loaded lib hp infos hop hl⟩
  | forgetLibrary path res order =>
    obtain ⟨_, hr, hord⟩ := hen
    exact forgetLibrary_sound h hr hord
  | forgetLibraryOfPlugin s order =>
    obtain ⟨_, hord⟩ := hen
    simp only [after, forgetLibraryOfPlugin]
    split
    · rename_i hnone
      refine ⟨h, .kept rfl ?_ ((Around.refl w).quiet rfl)⟩
      simp [forgottenNames, forgottenHandle, hnone]
    · rename_i hp hsome
      exact forgetHandle_sound _ h (by simp [forgottenHandle, hsome]) rfl (hord hp hsome)
  | instantiate s instance_ =>
    obtain ⟨hq, hlink⟩ := instantiate_quiet env s instance_ h.linked
    exact ⟨h.of_quiet hq hlink, .kept rfl rfl hq⟩
  | destroyInstance block =>
    have hq : Quiet env w (w.destroyInstance block) := destroyInstance_quiet w block
    exact ⟨h.of_quiet hq (destroyInstance_linked h.linked block), .kept rfl rfl hq⟩
  | destroyLoader order =>
    obtain ⟨himpl, hlink, halive, hinst, hloc, hth, _⟩ := destroyLoader_spec h.linked hen.2
    refine ⟨⟨hlink, ?_, hloc.trans h.locals, hth.trans h.notThrown⟩,
      .destroyed himpl halive hinst⟩
    change Tables env (w.destroyLoader order).impl
    rw [himpl]
    exact Tables.empty env
  | otherOpen lib hd =>
    have hq : Quiet env w { w with dl := w.dl.otherOpen lib hd w.next, next := w.next + 1 } :=
      ⟨rfl, rfl, Or.inl, rfl, rfl, Nat.le_succ _⟩
    exact ⟨h.of_quiet hq (Linkage.otherOpen h.linked hen w.next), .kept rfl rfl hq⟩
  | otherClose hd =>
    have hq : Quiet env w { w with dl := w.dl.otherClose hd } :=
      ⟨rfl, rfl, Or.inl, rfl, rfl, Nat.le_refl _⟩
    exact ⟨h.of_quiet hq (Linkage.otherClose h.linked hd), .kept rfl rfl hq⟩

theorem step_stored {op : Op} {name : String} {ptr : ConstInfoPtr CodePtr} (h : Sound env w)
    (hs : step env w op = some w') (hptr : w'.impl.filePlugins.plugins.lookup name = some ptr) :
    w.impl.filePlugins.plugins.lookup name = some ptr ∨ ∃ lib serial key i,
      (env.allInfo lib).lookup key = some i ∧ ptr.info = env.stored (.mapped lib serial) i := by
  cases (step_sound h hs).2 with
  | loaded lib hp infos hop hl =>
    rcases hl.added.stored hptr with hold | ⟨_, i, hi, _, he⟩
    · exact Or.inl hold
    · obtain ⟨key, hkey⟩ := (hl.enumerates.mem_iff i).mp hi
      obtain ⟨serial, himage⟩ := hl.image
      exact Or.inr ⟨lib, serial, key, i, hkey, himage ▸ he⟩
  | forgot hd names hop hf =>
    rw [hf.removed.plugins] at hptr
    split at hptr
    · cases hptr
    · exact Or.inl hptr
  | kept _ _ hq =>
    rw [hq.impl] at hptr
    exact Or.inl hptr
  | destroyed himpl _ _ =>
    simp [himpl, Implementation.empty, Registry.empty] at hptr

theorem reachable_sound (h : Runs.Reachable (step env) init w) : Sound env w :=
  h.invariant (init_sound env) fun hS hs => (step_sound hS hs).1

end World

end GzPlugin
