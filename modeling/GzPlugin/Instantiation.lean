import GzPlugin.Effects

/-!
# What LookupPlugin finds and Instantiate makes

The four ways in which a string can be resolved, and the law that whatever is resolved can
be instantiated.
-/

namespace GzPlugin

open FiniteMaps Runs

set_option autoImplicit false

namespace Plugin

/-- The wrapper of a new instance. -/
def made (cast : CodePtr → Ptr → Ptr) (block : Nat) (instance_ : Ptr)
    (info : ConstInfoPtr CodePtr) : Plugin :=
  ⟨castAll cast info.info instance_, some ⟨block, instance_⟩, some info⟩

variable (cast : CodePtr → Ptr → Ptr) (block : Nat) (instance_ : Ptr)
  (info : ConstInfoPtr CodePtr)

theorem castAll_union_cleared : castAll cast info.info instance_ ∪ empty.clear.interfaces =
    castAll cast info.info instance_ := by
  apply Finmap.ext_lookup
  intro name
  simp [lookup_union, clear, nullEntries, empty]

theorem create_made {dlHandlePtr : Option DlHandlePtr} {allowNull : Bool}
    (h : dlHandlePtr.isNone → allowNull) :
    empty.create cast (some info) dlHandlePtr allowNull block instance_ =
      (made cast block instance_ info, some ⟨dlHandlePtr, instance_, info.info.deleter⟩) := by
  have hb : (dlHandlePtr.isNone && !allowNull) = false := by
    cases hn : dlHandlePtr.isNone
    · rfl
    · simp [h hn]
  simp only [create, hb, Bool.false_eq_true, if_false, castAll_union_cleared, made]

variable {instance_}

@[simp] theorem made_isEmpty (h : instance_ ≠ 0) :
    (made cast block instance_ info).isEmpty = false := by
  simp [made, isEmpty, isSet, h]

variable (instance_)

@[simp] theorem made_name : (made cast block instance_ info).name = some info.info.name := rfl

theorem made_queryInterface (interface : String) :
    (made cast block instance_ info).queryInterface interface =
      ((info.info.interfaces.lookup interface).map fun f => cast f instance_).getD 0 := by
  simp [made, queryInterface, castAll]

end Plugin

namespace World

variable {env : Env} {w w' : World} {s : String}

theorem lookupFilePlugin_of_registered {name : String}
    (h : name ∈ w.impl.filePlugins.plugins) : w.lookupFilePlugin name = name := by
  apply RegistryView.lookupPlugin_of_known
  rw [Registry.view_getInfo, Option.isSome_map, Finmap.lookup_isSome]
  exact h

theorem lookupPlugin_of_file (h : w.lookupFilePlugin s ≠ "") :
    w.lookupPlugin env s = w.lookupFilePlugin s :=
  if_pos h

theorem lookupPlugin_of_not_file (h : w.lookupFilePlugin s = "") :
    w.lookupPlugin env s = lookupStaticPlugin env s := by
  unfold lookupFilePlugin at h
  simp only [lookupPlugin, h, ne_eq, not_true, if_false]
  split
  · rfl
  · rename_i hn
    exact (not_not.mp hn).symm

/-- The ways in which a string can be resolved, with what `Instantiate` makes of it. -/
inductive Resolution (env : Env) (w : World) (s : String) : Prop where
  | file (ptr : ConstInfoPtr CodePtr) (hp : DlHandlePtr) (hne : w.lookupFilePlugin s ≠ "")
      (hinfo : w.impl.filePlugins.plugins.lookup (w.lookupFilePlugin s) = some ptr)
      (hhandle : w.impl.pluginToDlHandlePtrs.lookup (w.lookupFilePlugin s) = some hp)
      (hmade : ∀ i, (w.instantiate env s i).1 = Plugin.made env.cast w.next i ptr)
      (hworld : ∀ i, (w.instantiate env s i).2 = { w with
        instances := w.instances.insert w.next ⟨some hp, i, ptr.info.deleter⟩
        next := w.next + 1 })
  | stale (hne : w.lookupFilePlugin s ≠ "")
      (hinfo : w.impl.filePlugins.plugins.lookup (w.lookupFilePlugin s) = none)
      (hmade : ∀ i, (w.instantiate env s i).1 = Plugin.empty)
      (hworld : ∀ i, (w.instantiate env s i).2 = { w with next := w.next + 1 })
  | static (info : Info CodePtr) (hfile : w.lookupFilePlugin s = "")
      (hne : lookupStaticPlugin env s ≠ "")
      (hinfo : env.statics.infos.lookup (lookupStaticPlugin env s) = some info)
      (hmade : ∀ i, (w.instantiate env s i).1 =
        Plugin.made env.cast (w.next + 1) i ⟨w.next, info⟩)
      (hworld : ∀ i, (w.instantiate env s i).2 = { w with
        instances := w.instances.insert (w.next + 1) ⟨none, i, info.deleter⟩
        next := w.next + 2 })
  | missing (hfile : w.lookupFilePlugin s = "") (hstatic : lookupStaticPlugin env s = "")
      (hmade : ∀ i, (w.instantiate env s i).1 = Plugin.empty)
      (hworld : ∀ i, (w.instantiate env s i).2 = w)

theorem static_known (h : lookupStaticPlugin env s ≠ "") :
    ∃ info, env.statics.infos.lookup (lookupStaticPlugin env s) = some info := by
  apply Option.isSome_iff_exists.mp
  rcases RegistryView.lookupPlugin_cases env.statics.view s with
    ⟨hk, he⟩ | ⟨_, name, hn, he⟩ | ⟨_, _, he⟩
  · rw [lookupStaticPlugin, he]
    exact hk
  · rw [lookupStaticPlugin, he]
    exact env.statics_wellFormed.known (a := s) (by
      change name ∈ env.statics.view.aliases.names s
      rw [hn]
      exact Finset.mem_singleton_self name)
  · exact absurd he h

theorem create_made {dlHandlePtr : Option DlHandlePtr} {allowNull : Bool}
    (h : dlHandlePtr.isNone → allowNull) (ptr : ConstInfoPtr CodePtr) (instance_ : Ptr) :
    w.create env (some ptr) dlHandlePtr allowNull instance_ =
      (Plugin.made env.cast w.next instance_ ptr, { w with
        instances := w.instances.insert w.next ⟨dlHandlePtr, instance_, ptr.info.deleter⟩
        next := w.next + 1 }) := by
  simp only [create, Plugin.create_made _ _ _ _ h]

theorem Sound.resolution (h : Sound env w) (s : String) : Resolution env w s := by
  by_cases hfile : w.lookupFilePlugin s = ""
  · by_cases hstatic : lookupStaticPlugin env s = ""
    · have hpair : ∀ i, w.instantiate env s i = (Plugin.empty, w) := by
        intro i
        simp [instantiate, hfile, hstatic]
      exact .missing hfile hstatic (fun i => by rw [hpair]) (fun i => by rw [hpair])
    · obtain ⟨info, hinfo⟩ := static_known hstatic
      have hget : getInfoForStaticPlugin env w.next (lookupStaticPlugin env s) =
          some ⟨w.next, info⟩ := by
        unfold getInfoForStaticPlugin
        rw [show env.statics.view.getInfo (lookupStaticPlugin env s) = some info from hinfo]
        rfl
      have hpair : ∀ i, w.instantiate env s i =
          { w with next := w.next + 1 }.create env (some ⟨w.next, info⟩) none true i := by
        intro i
        simp only [instantiate, hfile, ne_eq, not_true, if_false, hstatic, not_false_eq_true,
          if_true, hget]
      refine .static info hfile hstatic hinfo ?_ ?_
      · intro i
        rw [hpair, create_made fun _ => rfl]
      · intro i
        rw [hpair, create_made fun _ => rfl]
  · have hinst : ∀ i, w.instantiate env s i = w.create env
        (w.impl.filePlugins.plugins.lookup (w.lookupFilePlugin s))
        (w.impl.pluginToDlHandlePtrs.lookup (w.lookupFilePlugin s)) false i := by
      intro i
      simp only [instantiate]
      exact if_pos hfile
    cases hinfo : w.impl.filePlugins.plugins.lookup (w.lookupFilePlugin s) with
    | none =>
      refine .stale hfile hinfo ?_ ?_
      · intro i
        rw [hinst, hinfo]
        rfl
      · intro i
        rw [hinst, hinfo]
        rfl
    | some ptr =>
      have hkey := h.tables.keys.mp (Finmap.mem_of_lookup_eq_some hinfo)
      obtain ⟨hp, hhp⟩ := Finmap.mem_iff.mp hkey
      have hgiven : (some hp).isNone → false := fun hn => by simp at hn
      refine .file ptr hp hfile hinfo hhp ?_ ?_
      · intro i
        rw [hinst, hinfo, hhp, create_made hgiven]
      · intro i
        rw [hinst, hinfo, hhp, create_made hgiven]

end World

end GzPlugin
