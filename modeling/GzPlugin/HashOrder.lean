import GzPlugin.Agreement
import GzPlugin.Operations
import GzPlugin.Teardown

/-!
# The order of the hash containers

The Loader walks an `unordered_map` of plugins when it loads a library, and an
`unordered_set` of names when it forgets one. Two runs with the same calls, in which these
containers are walked in different orders, end in states that differ at most in the
addresses of the stored `Info`s, if the names of a library stay different when demangled, and if
no library brings a plugin name of another one.
-/

namespace GzPlugin

open FiniteMaps Runs Implementation

set_option autoImplicit false

theorem Info.mapCode_id {Code : Type} (info : Info Code) : info.mapCode id = info := by
  have hsame : mapValues id info.interfaces = info.interfaces := by
    apply Finmap.ext_lookup
    intro interface
    rw [lookup_mapValues, Option.map_id, id]
  unfold Info.mapCode
  rw [hsame]
  rfl

/-- The same `Info` is stored under every name, and every alias lists the same names. -/
structure Registry.Alike (r r' : Registry CodePtr) : Prop where
  infos : ∀ name, (r'.plugins.lookup name).map (·.info) = (r.plugins.lookup name).map (·.info)
  names : ∀ a, r'.aliases.names a = r.aliases.names a

namespace Registry.Alike

variable {r r' : Registry CodePtr}

theorem refl (r : Registry CodePtr) : Alike r r := ⟨fun _ => rfl, fun _ => rfl⟩

theorem symm (h : Alike r r') : Alike r' r :=
  ⟨fun name => (h.infos name).symm, fun a => (h.names a).symm⟩

theorem mem_iff (h : Alike r r') {name : String} : name ∈ r'.plugins ↔ name ∈ r.plugins := by
  rw [← Finmap.lookup_isSome, ← Finmap.lookup_isSome, ← Option.isSome_map (f := (·.info)),
    h.infos, Option.isSome_map]

theorem lookup (h : Alike r r') {name : String} {ptr : ConstInfoPtr CodePtr}
    (hptr : r.plugins.lookup name = some ptr) :
    ∃ ptr', r'.plugins.lookup name = some ptr' ∧ ptr'.info = ptr.info := by
  have hi := h.infos name
  rw [hptr, Option.map_some, Option.map_eq_some_iff] at hi
  exact hi

theorem answers (h : Alike r r') (hr : r.WellFormed) (hr' : r'.WellFormed) :
    RegistryView.SameAnswers id r.view r'.view := by
  refine RegistryView.sameAnswers_of_getInfo hr.coherent hr'.coherent ?_ fun a => (h.names a).symm
  intro name
  have hid : (Info.mapCode id : Info CodePtr → Info CodePtr) = id := funext Info.mapCode_id
  rw [hid, Option.map_id, id, view_getInfo, view_getInfo, h.infos]

end Registry.Alike

namespace Implementation

variable {env : Env} {d₁ d₁' d₂ d₂' : Implementation}

/-- The same registrations, added in two orders. -/
theorem Added.alike {hp : DlHandlePtr} {infos infos' : List (Info Symbol)}
    (ha : Added env hp infos d₁ d₁') (ha' : Added env hp infos' d₂ d₂')
    (hmem : ∀ i, i ∈ infos' ↔ i ∈ infos)
    (hinj : ∀ i ∈ infos, ∀ i' ∈ infos, env.demangle i.name = env.demangle i'.name → i = i')
    (h : d₁.filePlugins.Alike d₂.filePlugins) : d₁'.filePlugins.Alike d₂'.filePlugins := by
  constructor
  · intro name
    cases hold : d₁.filePlugins.plugins.lookup name with
    | some ptr =>
      obtain ⟨ptr', hold', he⟩ := h.lookup hold
      rw [ha.kept hold, ha'.kept hold', Option.map_some, Option.map_some, he]
    | none =>
      have hnot : name ∉ d₁.filePlugins.plugins := Finmap.lookup_eq_none.mp hold
      have hnot' : name ∉ d₂.filePlugins.plugins := fun hm => hnot (h.mem_iff.mp hm)
      cases hnew : d₁'.filePlugins.plugins.lookup name with
      | none =>
        have habsent : ¬ ∃ i ∈ infos, env.demangle i.name = name := fun hex =>
          Finmap.lookup_eq_none.mp hnew (ha.known.mpr (Or.inr hex))
        have hnew' : d₂'.filePlugins.plugins.lookup name = none := by
          rw [Finmap.lookup_eq_none, ha'.known, not_or]
          simp only [hmem]
          exact ⟨hnot', habsent⟩
        rw [hnew']
      | some ptr =>
        rcases ha.stored hnew with hcon | ⟨_, i, hi, hname, he⟩
        · rw [hold] at hcon
          cases hcon
        · have hm : name ∈ d₂'.filePlugins.plugins :=
            ha'.known.mpr (Or.inr ⟨i, (hmem i).mpr hi, hname⟩)
          obtain ⟨ptr', hnew'⟩ := Finmap.mem_iff.mp hm
          rcases ha'.stored hnew' with hcon | ⟨_, i', hi', hname', he'⟩
          · exact absurd (Finmap.mem_of_lookup_eq_some hcon) hnot'
          · have hsame : i = i' := hinj i hi i' ((hmem i').mp hi') (hname.trans hname'.symm)
            rw [hnew', Option.map_some, Option.map_some, he, he', hsame]
  · intro a
    ext name
    rw [ha'.listed, ha.listed, h.names]
    simp only [hmem]

theorem Removed.alike {names : Finset String} (hr : Removed names d₁ d₁')
    (hr' : Removed names d₂ d₂') (h : d₁.filePlugins.Alike d₂.filePlugins) :
    d₁'.filePlugins.Alike d₂'.filePlugins := by
  constructor
  · intro name
    rw [hr.plugins, hr'.plugins]
    split
    · rfl
    · exact h.infos name
  · intro a
    ext name
    have hptr : (∃ ptr, d₂.filePlugins.plugins.lookup name = some ptr ∧ a ∈ ptr.info.aliases) ↔
        ∃ ptr, d₁.filePlugins.plugins.lookup name = some ptr ∧ a ∈ ptr.info.aliases := by
      constructor
      · rintro ⟨ptr, hptr, hm⟩
        obtain ⟨ptr', hptr', he⟩ := h.symm.lookup hptr
        exact ⟨ptr', hptr', he ▸ hm⟩
      · rintro ⟨ptr, hptr, hm⟩
        obtain ⟨ptr', hptr', he⟩ := h.lookup hptr
        exact ⟨ptr', hptr', he ▸ hm⟩
    rw [hr'.listed, hr.listed, h.names, hptr]

end Implementation

namespace World

variable {env : Env} {w w' w₁ w₁' w₂ w₂' : World} {hp : DlHandlePtr} {r : Registry CodePtr}

/-- The operation without the orders that the containers chose. -/
def Op.unordered : Op → Op
  | .loadLib path noDelete res _ => .loadLib path noDelete res []
  | .forgetLibrary path res _ => .forgetLibrary path res []
  | .forgetLibraryOfPlugin s _ => .forgetLibraryOfPlugin s []
  | .destroyLoader _ => .destroyLoader []
  | op => op

def withPlugins (w : World) (r : Registry CodePtr) : World :=
  { w with impl := { w.impl with filePlugins := r } }

/-- The same state, but for the addresses of the stored `Info`s. -/
structure Alike (w w' : World) : Prop where
  rest : w' = w.withPlugins w'.impl.filePlugins
  registry : w.impl.filePlugins.Alike w'.impl.filePlugins

theorem Alike.refl (w : World) : Alike w w := ⟨rfl, .refl _⟩

/-! ### Functions that do not look at the registry -/

theorem release_withPlugins (w : World) (r : Registry CodePtr) (hp : DlHandlePtr) :
    (w.withPlugins r).release hp = (w.release hp).withPlugins r := by
  unfold release
  split
  · rename_i hheld
    have hheld : w.Held hp := hheld
    rw [if_pos hheld]
  · rename_i hnot
    have hnot : ¬ w.Held hp := hnot
    rw [if_neg hnot]
    rfl

theorem destroyInstance_withPlugins (w : World) (r : Registry CodePtr) (block : Nat) :
    (w.withPlugins r).destroyInstance block = (w.destroyInstance block).withPlugins r := by
  simp only [destroyInstance, withPlugins]
  cases w.instances.lookup block with
  | none => rfl
  | some i =>
    cases hhp : i.dlHandlePtr with
    | none => simp only [hhp]
    | some hp =>
      simp only [hhp]
      exact release_withPlugins { w with instances := w.instances.erase block } r hp

theorem openLib_withPlugins (env : Env) (w : World) (r : Registry CodePtr) (path : String)
    (noDelete : Bool) (res : DlopenResult) :
    (w.withPlugins r).openLib env path noDelete res =
      ((w.openLib env path noDelete res).1,
        (w.openLib env path noDelete res).2.withPlugins r) := by
  cases hres : res.handle with
  | none => simp only [openLib, hres]
  | some h =>
    cases hlib : env.resolve path with
    | none => simp only [openLib, hres, hlib]
    | some lib =>
      cases herr : res.error with
      | true =>
        simp only [openLib, hres, hlib, herr, if_true]
        rfl
      | false =>
        cases hold : (w.impl.dlHandlePtrMap.lookup h).filter fun old => w.Held old with
        | some old =>
          have hold' : ((w.withPlugins r).impl.dlHandlePtrMap.lookup h).filter
              (fun old => (w.withPlugins r).Held old) = some old := hold
          rw [openLib_reused hlib hres herr hold, openLib_reused hlib hres herr hold']
          rfl
        | none =>
          have hold' : ((w.withPlugins r).impl.dlHandlePtrMap.lookup h).filter
              (fun old => (w.withPlugins r).Held old) = none := hold
          rw [openLib_created hlib hres herr hold rfl, openLib_created hlib hres herr hold' rfl]
          rfl

theorem create_withPlugins (env : Env) (w : World) (r : Registry CodePtr)
    {info info' : Option (ConstInfoPtr CodePtr)} (dl : Option DlHandlePtr) (allowNull : Bool)
    (instance_ : Ptr) (he : info'.map (·.info) = info.map (·.info)) :
    ((w.withPlugins r).create env info' dl allowNull instance_).2 =
      (w.create env info dl allowNull instance_).2.withPlugins r := by
  cases info with
  | none =>
    have hnone : info' = none := by simpa using he
    rw [hnone]
    rfl
  | some ptr =>
    have he : info'.map (·.info) = some ptr.info := he
    obtain ⟨ptr', hptr', he⟩ := Option.map_eq_some_iff.mp he
    have hdeleter : ptr'.info.deleter = ptr.info.deleter := congrArg Info.deleter he
    rw [hptr']
    cases dl with
    | none =>
      cases allowNull with
      | false => rfl
      | true => exact congrArg (fun deleter => { w.withPlugins r with
          instances := w.instances.insert w.next ⟨none, instance_, deleter⟩
          next := w.next + 1 }) hdeleter
    | some hp => exact congrArg (fun deleter => { w.withPlugins r with
        instances := w.instances.insert w.next ⟨some hp, instance_, deleter⟩
        next := w.next + 1 }) hdeleter

/-! ### Walking the containers -/

theorem eraseHandle_next (w : World) (name : String) : (w.eraseHandle name).next = w.next := by
  unfold eraseHandle
  split
  · rfl
  · exact release_next _ _

theorem setHandle_next (w : World) (name : String) (hp : DlHandlePtr) :
    (w.setHandle name hp).next = w.next := by
  unfold setHandle
  split
  · rfl
  · exact release_next _ _

theorem addPlugins_weak (env : Env) (hp : DlHandlePtr) (infos : List (Info CodePtr))
    (st : World × Finset String) :
    (infos.foldl (addPlugin env hp) st).1.impl.dlHandlePtrMap = st.1.impl.dlHandlePtrMap ∧
    (infos.foldl (addPlugin env hp) st).1.next = st.1.next + infos.length := by
  induction infos generalizing st with
  | nil => exact ⟨rfl, rfl⟩
  | cons info infos ih =>
    obtain ⟨hweak, hnext⟩ := ih (addPlugin env hp st info)
    constructor
    · rw [List.foldl_cons, hweak, addPlugin, setHandle_impl]
      rfl
    · rw [List.foldl_cons, hnext, addPlugin, setHandle_next, List.length_cons]
      exact Nat.add_right_comm st.1.next 1 infos.length

theorem addPlugins_reclaims (env : Env) (infos : List (Info CodePtr)) (st : World × Finset String)
    (h : st.1.Linked) (hmem : hp ∈ st.1.locals) :
    Reclaims st.1 (infos.foldl (addPlugin env hp) st).1 := by
  induction infos generalizing st with
  | nil => exact .refl st.1
  | cons info infos ih =>
    have hfirst : Reclaims st.1 (addPlugin env hp st info).1 :=
      setHandle_reclaims (w := st.1.addInfo (finishInfo env info)) _ (Or.inr (Or.inr hmem))
    have hmem' : hp ∈ (addPlugin env hp st info).1.locals := by
      rw [(addPlugin_around st info).locals]
      exact hmem
    exact hfirst.trans h (ih _ (addPlugin_linked st h hmem info) hmem')

theorem forgetPlugin_weak (name : String) (hw : w.impl.filePlugins.WellFormed)
    (hth : w.thrown = false) :
    (w.forgetPlugin name).impl.dlHandlePtrMap = w.impl.dlHandlePtrMap ∧
    (w.forgetPlugin name).next = w.next := by
  obtain ⟨r, hr, _, _⟩ := hw.forgetInfo name
  have he : w.forgetPlugin name =
      { w with impl := { w.impl with filePlugins := r } }.eraseHandle name := by
    simp [forgetPlugin, forgetInfo, hth, hr]
  rw [he, eraseHandle_impl, eraseHandle_next]
  exact ⟨rfl, rfl⟩

theorem forgetPlugins_weak (order : List String) (hw : w.impl.filePlugins.WellFormed)
    (hth : w.thrown = false) (h : w.Linked) :
    (order.foldl forgetPlugin w).impl.dlHandlePtrMap = w.impl.dlHandlePtrMap ∧
    (order.foldl forgetPlugin w).next = w.next := by
  induction order generalizing w with
  | nil => exact ⟨rfl, rfl⟩
  | cons name order ih =>
    obtain ⟨_, hw', _, har, hlink⟩ := forgetPlugin_spec name hw hth h
    obtain ⟨hweak, hnext⟩ := forgetPlugin_weak name hw hth
    obtain ⟨hweak', hnext'⟩ := ih hw' (har.thrown.trans hth) hlink
    exact ⟨hweak'.trans hweak, hnext'.trans hnext⟩

theorem forgetHandle_weak (hS : Sound env w) (hd : Handle) (order : List String) :
    (w.forgetHandle hd order).2.impl.dlHandlePtrMap = w.impl.dlHandlePtrMap ∧
    (w.forgetHandle hd order).2.next = w.next := by
  have hfold := forgetPlugins_weak order hS.tables.registry hS.notThrown hS.linked
  unfold forgetHandle
  split
  · exact ⟨rfl, rfl⟩
  simp only
  split
  · exact hfold
  · exact hfold

theorem eraseHandles_next (order : List String) (w : World) :
    (order.foldl eraseHandle w).next = w.next := by
  induction order generalizing w with
  | nil => rfl
  | cons name order ih => rw [List.foldl_cons, ih, eraseHandle_next]

/-! ### The same operation on both sides -/

/-- The plugins of a library differ in their demangled names. -/
theorem distinct_of_injOn {lib : LibId} {infos : List (Info Symbol)}
    (hinj : Set.InjOn env.demangle {name | name ∈ env.allInfo lib})
    (hvec : Enumerates infos (env.allInfo lib)) :
    ∀ i ∈ infos, ∀ i' ∈ infos, env.demangle i.name = env.demangle i'.name → i = i' := by
  intro i hi i' hi' hname
  have hkeyed := env.allInfo_keyed lib
  obtain ⟨key, hkey⟩ := (hvec.mem_iff i).mp hi
  obtain ⟨key', hkey'⟩ := (hvec.mem_iff i').mp hi'
  rw [(hkeyed key i hkey).1, (hkeyed key' i' hkey').1] at hname
  have hsame : key = key' := hinj (Finmap.mem_of_lookup_eq_some hkey)
    (Finmap.mem_of_lookup_eq_some hkey') hname
  rw [hsame, hkey'] at hkey
  exact (Option.some.inj hkey).symm

namespace Alike

variable {infos infos' : List (Info Symbol)} {order order' : List String}

theorem of_fields (hr : w.impl.filePlugins.Alike w'.impl.filePlugins) (hdl : w'.dl = w.dl)
    (hhandles : w'.impl.pluginToDlHandlePtrs = w.impl.pluginToDlHandlePtrs)
    (hweak : w'.impl.dlHandlePtrMap = w.impl.dlHandlePtrMap)
    (hrec : w'.impl.dlHandleToPluginMap = w.impl.dlHandleToPluginMap)
    (halive : w'.alive = w.alive) (hinst : w'.instances = w.instances)
    (hlocals : w'.locals = w.locals) (hnext : w'.next = w.next)
    (hthrown : w'.thrown = w.thrown) : Alike w w' := by
  refine ⟨?_, hr⟩
  obtain ⟨dl, ⟨handles, plugins, weak, recorded⟩, alive, instances, locals, next, thrown⟩ := w'
  cases hdl
  cases hhandles
  cases hweak
  cases hrec
  cases halive
  cases hinst
  cases hlocals
  cases hnext
  cases hthrown
  rfl

/-- A function that neither reads nor writes the registry. -/
theorem map {f : World → World} (h : Alike w w')
    (hf : ∀ w r, f (w.withPlugins r) = (f w).withPlugins r)
    (hplugins : (f w).impl.filePlugins = w.impl.filePlugins) : Alike (f w) (f w') := by
  rw [h.rest, hf]
  refine ⟨rfl, ?_⟩
  change (f w).impl.filePlugins.Alike w'.impl.filePlugins
  rw [hplugins]
  exact h.registry

theorem lookupFilePlugin (h : Alike w w') (hS : Sound env w) (hS' : Sound env w') (s : String) :
    w'.lookupFilePlugin s = w.lookupFilePlugin s :=
  ((h.registry.answers hS.tables.registry hS'.tables.registry).lookupPlugin s).symm

theorem lookupPlugin (h : Alike w w') (hS : Sound env w) (hS' : Sound env w') (s : String) :
    w'.lookupPlugin env s = w.lookupPlugin env s := by
  have hfile := h.lookupFilePlugin hS hS' s
  simp only [World.lookupFilePlugin] at hfile
  simp only [World.lookupPlugin, hfile]

/-- The loop of `LoadLib` over two orders of the same plugins. -/
theorem addPlugins (h : Alike w w') (hL : w.Linked) (hmem : hp ∈ w.locals)
    (hperm : infos'.Perm infos)
    (hinj : ∀ i ∈ infos, ∀ i' ∈ infos, env.demangle i.name = env.demangle i'.name → i = i') :
    Alike ((relocate hp infos).foldl (addPlugin env hp) (w, ∅)).1
      ((relocate hp infos').foldl (addPlugin env hp) (w', ∅)).1 ∧
    ((relocate hp infos').foldl (addPlugin env hp) (w', ∅)).2 =
      ((relocate hp infos).foldl (addPlugin env hp) (w, ∅)).2 := by
  obtain ⟨r, rfl⟩ : ∃ r, w' = w.withPlugins r := ⟨_, h.rest⟩
  have hL' : (w.withPlugins r).Linked := hL
  have hmem' : hp ∈ (w.withPlugins r).locals := hmem
  obtain ⟨hadd, har, hrec, hlink, hnames⟩ := addPlugins_spec env infos ∅ hL hmem
  obtain ⟨hadd', har', hrec', hlink', hnames'⟩ := addPlugins_spec env infos' ∅ hL' hmem'
  have hre := addPlugins_reclaims env (relocate hp infos) (w, ∅) hL hmem
  have hre' := addPlugins_reclaims env (relocate hp infos') (w.withPlugins r, ∅) hL' hmem'
  obtain ⟨hweak, hnext⟩ := addPlugins_weak env hp (relocate hp infos) (w, ∅)
  obtain ⟨hweak', hnext'⟩ :=
    addPlugins_weak env hp (relocate hp infos') (w.withPlugins r, ∅)
  have hiff : ∀ i, i ∈ infos' ↔ i ∈ infos := fun _ => hperm.mem_iff
  have hlength : (relocate hp infos').length = (relocate hp infos).length := by
    simp only [relocate, List.length_map, hperm.length_eq]
  have hhandles : ((relocate hp infos').foldl (addPlugin env hp)
      (w.withPlugins r, ∅)).1.impl.pluginToDlHandlePtrs =
      ((relocate hp infos).foldl (addPlugin env hp) (w, ∅)).1.impl.pluginToDlHandlePtrs := by
    apply Finmap.ext_lookup
    intro name
    rw [hadd'.handles, hadd.handles]
    simp only [hiff]
    rfl
  constructor
  · refine of_fields (hadd.alike hadd' hiff hinj h.registry) ?_ hhandles (hweak'.trans hweak.symm)
      (hrec'.trans hrec.symm) (har'.alive.trans har.alive.symm)
      (har'.instances.trans har.instances.symm) (har'.locals.trans har.locals.symm) ?_
      (har'.thrown.trans har.thrown.symm)
    · refine (hre.dl_eq hre' fun hp' => ?_).symm
      unfold Held
      rw [hhandles, har.instances, har'.instances, har.locals, har'.locals]
      rfl
    · rw [hnext', hnext, hlength]
      rfl
  · ext n
    rw [hnames', hnames]
    simp only [hiff]

theorem loadLib {path : String} {noDelete : Bool} {res : DlopenResult} (h : Alike w w')
    (hinj : ∀ lib, Set.InjOn env.demangle {name | name ∈ env.allInfo lib})
    (hS : Sound env w) (hen : w.Enabled env (.loadLib path noDelete res infos))
    (hen' : w'.Enabled env (.loadLib path noDelete res infos')) :
    Alike (w.loadLib env path noDelete res infos).2 (w'.loadLib env path noDelete res infos').2 := by
  obtain ⟨ha, hr, hvec⟩ := hen
  obtain ⟨_, _, hvec'⟩ := hen'
  have hopen := openLib_withPlugins env w w'.impl.filePlugins path noDelete res
  rw [← h.rest] at hopen
  rcases openLib_cases noDelete hS.linked ha hr with
    ⟨w₁, he, _, himpl, _, _⟩ | ⟨lib, hp, w₁, he, ho⟩
  · rw [he] at hopen
    simp only [World.loadLib, he, hopen]
    refine ⟨rfl, ?_⟩
    rw [himpl]
    exact h.registry
  · rw [he] at hopen
    have hinfos := hvec lib ho.resolved
    have hperm : infos'.Perm infos :=
      Multiset.coe_eq_coe.mp ((hvec' lib ho.resolved).trans hinfos.symm)
    have hdistinct := distinct_of_injOn (hinj lib) hinfos
    have hmem : hp ∈ w₁.locals := by
      rw [ho.locals]
      exact List.mem_cons_self
    have hfirst : Alike w₁ (w₁.withPlugins w'.impl.filePlugins) := by
      refine ⟨rfl, ?_⟩
      rw [ho.plugins]
      exact h.registry
    obtain ⟨hadded, hnames⟩ := hfirst.addPlugins ho.linked hmem hperm hdistinct
    simp only [World.loadLib, he, hopen, hnames]
    have hrecorded := hadded.map (f := fun w => { w with impl := { w.impl with
      dlHandleToPluginMap := w.impl.dlHandleToPluginMap.insert hp.handle
        ((relocate hp infos).foldl (addPlugin env hp) (w₁, ∅)).2 } }) (fun _ _ => rfl) rfl
    refine hrecorded.map (f := fun w => w.dropLocal hp) (fun w r => ?_) ?_
    · exact release_withPlugins { w with locals := w.locals.erase hp } r hp
    · simp only [dropLocal, release_impl]

theorem forgetHandle (h : Alike w w') (hS : Sound env w) (hS' : Sound env w') (hd : Handle)
    (hord : w.WalkedInOrder hd order) (hord' : w'.WalkedInOrder hd order') :
    Alike (w.forgetHandle hd order).2 (w'.forgetHandle hd order').2 := by
  obtain ⟨r, rfl⟩ : ∃ r, w' = w.withPlugins r := ⟨_, h.rest⟩
  cases hl : w.impl.dlHandleToPluginMap.lookup hd with
  | none =>
    rw [forgetHandle_none order hl, forgetHandle_none (w := w.withPlugins r) order' hl]
    exact h
  | some names =>
    have hl' : (w.withPlugins r).impl.dlHandleToPluginMap.lookup hd = some names := hl
    obtain ⟨_, hf⟩ :=
      forgetHandle_some hl hord hS.tables.registry hS.notThrown hS.linked
    obtain ⟨_, hf'⟩ :=
      forgetHandle_some hl' hord' hS'.tables.registry hS'.notThrown hS'.linked
    have hre := forgetHandle_reclaims hS hd order
    have hre' := forgetHandle_reclaims hS' hd order'
    obtain ⟨hweak, hnext⟩ := forgetHandle_weak hS hd order
    obtain ⟨hweak', hnext'⟩ := forgetHandle_weak hS' hd order'
    have hhandles : ((w.withPlugins r).forgetHandle hd order').2.impl.pluginToDlHandlePtrs =
        (w.forgetHandle hd order).2.impl.pluginToDlHandlePtrs := by
      apply Finmap.ext_lookup
      intro name
      rw [hf'.removed.handles, hf.removed.handles]
      rfl
    have har := hf.around
    have har' := hf'.around
    refine of_fields (hf.removed.alike hf'.removed h.registry) ?_ hhandles
      (hweak'.trans hweak.symm) (hf'.recorded.trans hf.recorded.symm)
      (har'.alive.trans har.alive.symm) (har'.instances.trans har.instances.symm)
      (har'.locals.trans har.locals.symm) (hnext'.trans hnext.symm)
      (har'.thrown.trans har.thrown.symm)
    refine (hre.dl_eq hre' fun hp' => ?_).symm
    unfold Held
    rw [hhandles, har.instances, har'.instances, har.locals, har'.locals]
    rfl

theorem destroyLoader (h : Alike w w') (hS : Sound env w) (hS' : Sound env w')
    (hord : (order : Multiset String) = w.impl.pluginToDlHandlePtrs.keys.val)
    (hord' : (order' : Multiset String) = w'.impl.pluginToDlHandlePtrs.keys.val) :
    Alike (w.destroyLoader order) (w'.destroyLoader order') := by
  obtain ⟨r, rfl⟩ : ∃ r, w' = w.withPlugins r := ⟨_, h.rest⟩
  obtain ⟨himpl, _, halive, hinst, hloc, hth, _⟩ := destroyLoader_spec hS.linked hord
  obtain ⟨himpl', _, halive', hinst', hloc', hth', _⟩ := destroyLoader_spec hS'.linked hord'
  have hre := destroyLoader_reclaims order hS.linked
  have hre' := destroyLoader_reclaims order' hS'.linked
  have hnext : (w.destroyLoader order).next = w.next := eraseHandles_next order w.clearTables
  have hnext' : ((w.withPlugins r).destroyLoader order').next = w.next :=
    eraseHandles_next order' (w.withPlugins r).clearTables
  refine of_fields ?_ ?_ (by rw [himpl, himpl']) (by rw [himpl, himpl']) (by rw [himpl, himpl'])
    (halive'.trans halive.symm) (hinst'.trans hinst.symm) (hloc'.trans hloc.symm)
    (hnext'.trans hnext.symm) (hth'.trans hth.symm)
  · rw [himpl, himpl']
    exact .refl _
  · refine (hre.dl_eq hre' fun hp => ?_).symm
    unfold Held
    rw [himpl, himpl', hinst, hinst', hloc, hloc']
    rfl

theorem instantiate (h : Alike w w') (hS : Sound env w) (hS' : Sound env w') (s : String)
    (instance_ : Ptr) :
    Alike (w.instantiate env s instance_).2 (w'.instantiate env s instance_).2 := by
  have hlookup := h.lookupFilePlugin hS hS' s
  have hinfo : (w'.getInfoForFilePlugin (w.lookupFilePlugin s)).map (·.info) =
      (w.getInfoForFilePlugin (w.lookupFilePlugin s)).map (·.info) := h.registry.infos _
  have hkept : ∀ {w₁ : World}, w₁.impl = w.impl → Alike w₁ (w₁.withPlugins w'.impl.filePlugins) := by
    intro w₁ himpl
    refine ⟨rfl, ?_⟩
    rw [himpl]
    exact h.registry
  have himpl : ∀ {w₁ : World} (info : Option (ConstInfoPtr CodePtr)) (dl : Option DlHandlePtr)
      (allowNull : Bool), (w₁.create env info dl allowNull instance_).2.impl = w₁.impl := by
    intro w₁ info dl allowNull
    rcases create_cases env w₁ info dl allowNull instance_ with he | ⟨_, _, _, he⟩ <;> rw [he]
  unfold World.instantiate
  rw [hlookup]
  simp only
  split
  · have hcreate := create_withPlugins env w w'.impl.filePlugins
      (w.getPluginDlHandlePtr (w.lookupFilePlugin s)) false instance_ hinfo
    have hptr : w'.getPluginDlHandlePtr (w.lookupFilePlugin s) =
        w.getPluginDlHandlePtr (w.lookupFilePlugin s) := by
      rw [h.rest]
      rfl
    rw [← h.rest] at hcreate
    rw [hptr, hcreate]
    exact hkept (himpl _ _ _)
  split
  · have hstatic : (getInfoForStaticPlugin env w.next (lookupStaticPlugin env s)).map (·.info) = _ :=
      rfl
    have hcreate := create_withPlugins env { w with next := w.next + 1 } w'.impl.filePlugins none true
      instance_ hstatic
    have hnext : { w' with next := w'.next + 1 } =
        { w with next := w.next + 1 }.withPlugins w'.impl.filePlugins := by
      rw [h.rest]
      rfl
    have haddr : w'.next = w.next := by
      rw [h.rest]
      rfl
    rw [hnext, haddr, hcreate]
    exact hkept (himpl _ _ _)
  · exact h

/-- The same operation, with other orders of the containers. -/
theorem next {op op' : Op} {v v' : World}
    (hinj : ∀ lib, Set.InjOn env.demangle {name | name ∈ env.allInfo lib})
    (hF : Filing env w) (hF' : Filing env w') (h : Alike w w') (hop : op.unordered = op'.unordered)
    (hs : step env w op = some v) (hs' : step env w' op' = some v') : Alike v v' := by
  obtain ⟨hen, rfl⟩ := step_eq_some.mp hs
  obtain ⟨hen', rfl⟩ := step_eq_some.mp hs'
  cases op with
  | loadLib path noDelete res infos =>
    cases op' with
    | loadLib _ _ _ infos' =>
      cases hop
      exact h.loadLib hinj hF.sound hen hen'
    | _ => cases hop
  | forgetLibrary path res order =>
    cases op' with
    | forgetLibrary _ _ order' =>
      cases hop
      cases res with
      | none => exact h
      | some hd =>
        have he := forgetLibrary_eq hF.used hen.2.1 order
        have he' := forgetLibrary_eq hF'.used hen'.2.1 order'
        simp only [after, he, he']
        exact h.forgetHandle hF.sound hF'.sound hd (hen.2.2 hd rfl) (hen'.2.2 hd rfl)
    | _ => cases hop
  | forgetLibraryOfPlugin s order =>
    cases op' with
    | forgetLibraryOfPlugin _ order' =>
      cases hop
      have hlookup := h.lookupPlugin hF.sound hF'.sound s
      have hhandles : w'.impl.pluginToDlHandlePtrs = w.impl.pluginToDlHandlePtrs := by
        rw [h.rest]
        rfl
      have hord' := hen'.2
      simp only [after, forgetLibraryOfPlugin]
      rw [hlookup, hhandles] at hord' ⊢
      cases hhp : w.impl.pluginToDlHandlePtrs.lookup (w.lookupPlugin env s) with
      | none => exact h
      | some hp =>
        exact h.forgetHandle hF.sound hF'.sound hp.handle (hen.2 hp hhp) (hord' hp hhp)
    | _ => cases hop
  | instantiate s instance_ =>
    cases op' with
    | instantiate _ _ =>
      cases hop
      exact h.instantiate hF.sound hF'.sound s instance_
    | _ => cases hop
  | destroyInstance block =>
    cases op' with
    | destroyInstance _ =>
      cases hop
      exact h.map (f := fun w => w.destroyInstance block)
        (fun w r => destroyInstance_withPlugins w r block)
        (congrArg (·.filePlugins) (destroyInstance_impl w block))
    | _ => cases hop
  | destroyLoader order =>
    cases op' with
    | destroyLoader order' => exact h.destroyLoader hF.sound hF'.sound hen.2 hen'.2
    | _ => cases hop
  | otherOpen lib hd =>
    cases op' with
    | otherOpen _ _ =>
      cases hop
      exact h.map (f := fun w => w.after env (.otherOpen lib hd)) (fun _ _ => rfl) rfl
    | _ => cases hop
  | otherClose hd =>
    cases op' with
    | otherClose _ =>
      cases hop
      exact h.map (f := fun w => w.after env (.otherClose hd)) (fun _ _ => rfl) rfl
    | _ => cases hop

end Alike

/-- Two runs that make the same calls and get the same answers from the system end in the
same state, in whatever orders the hash containers were walked, and answer every query
alike. Only the addresses of the stored `Info`s may differ. If every library that is loaded owns
the registered plugins of the names it brings, neither run comes upon an `Info` whose library
was closed. -/
theorem alike_of_unordered (env : Env)
    (hinj : ∀ lib, Set.InjOn env.demangle {name | name ∈ env.allInfo lib})
    {l l' : List (Op × World)} (hrun : Run (step env) init l) (hrun' : Run (step env) init l')
    (hload : Steps (LoadsOwnNames env) init l) (hload' : Steps (LoadsOwnNames env) init l')
    (hops : l.map (fun e => e.1.unordered) = l'.map fun e => e.1.unordered) :
    Alike (last init l) (last init l') ∧
    RegistryView.SameAnswers id (last init l).impl.filePlugins.view
      (last init l').impl.filePlugins.view ∧
    Steps (DestroysMapped env) init l ∧ Steps (DestroysMapped env) init l' := by
  have hpair : Filing env (last init l) ∧ Filing env (last init l') ∧
      Alike (last init l) (last init l') := by
    refine hrun.pair (R := fun w w' => Filing env w ∧ Filing env w' ∧ Alike w w') hrun' hops
      ⟨init_filing env, init_filing env, .refl init⟩ ?_
    intro w w' op op' v v' ⟨hF, hF', h⟩ hop hs hs'
    exact ⟨hF.next hs, hF'.next hs', h.next hinj hF hF' hop hs hs'⟩
  obtain ⟨hF, hF', h⟩ := hpair
  refine ⟨h, h.registry.answers hF.sound.tables.registry hF'.sound.tables.registry, ?_, ?_⟩
  · exact (matched_of_loadsOwnNames env hrun hload).steps fun _ op hw => hw.2.destroysMapped hw.1 op
  · exact (matched_of_loadsOwnNames env hrun' hload').steps
      fun _ op hw => hw.2.destroysMapped hw.1 op

/-- A library with two plugins. -/
def pAndQ : Env :=
  twoLibraries (registrationsOf "p" p_ne ["I"] ["x"] ++ registrationsOf "q" q_ne ["I"] ["x"])
    [] []

/-- The library is loaded and forgotten with its plugins in one order. -/
def inOrder : List Op :=
  [.loadLib "a" false ⟨some 1, false⟩
    [pluginOf "p" p_ne ["I"] ["x"], pluginOf "q" q_ne ["I"] ["x"]],
    .forgetLibrary "a" (some 1) ["p", "q"]]

/-- The same in the other order. -/
def inReverse : List Op :=
  [.loadLib "a" false ⟨some 1, false⟩
    [pluginOf "q" q_ne ["I"] ["x"], pluginOf "p" p_ne ["I"] ["x"]],
    .forgetLibrary "a" (some 1) ["q", "p"]]

theorem alike_pAndQ : Alike (last init (history (step pAndQ) init inOrder))
    (last init (history (step pAndQ) init inReverse)) := by
  have hops := history_map Op.unordered
    (show (history (step pAndQ) init inOrder).length = inOrder.length by decide)
  have hops' := history_map Op.unordered
    (show (history (step pAndQ) init inReverse).length = inReverse.length by decide)
  have hsame : inOrder.map Op.unordered = inReverse.map Op.unordered := rfl
  have hinj : ∀ lib, Set.InjOn pAndQ.demangle {name | name ∈ pAndQ.allInfo lib} :=
    fun _ => Function.Injective.injOn fun _ _ h => h
  exact (alike_of_unordered pAndQ hinj (history_run _ init inOrder)
    (history_run _ init inReverse) (by decide) (by decide) (hops.trans (hsame.trans hops'.symm))).1

end World

end GzPlugin
