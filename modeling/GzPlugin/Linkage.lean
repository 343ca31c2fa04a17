import GzPlugin.Loader

/-!
# Held handles are open

Two live `shared_ptr`s never manage the same handle value, the weak map finds the one that
does, and the library behind it stays mapped. The set of held handles is a parameter, since
a function drops references one by one.
-/

namespace GzPlugin

open FiniteMaps

set_option autoImplicit false

/-- What holds of the linker and the weak map for a set `H` of handles that are held. -/
structure Linkage (dl : Dl) (alive : Bool) (dlHandlePtrMap : Finmap fun _ : Handle => DlHandlePtr)
    (H : DlHandlePtr → Prop) : Prop where
  ordered : dl.Ordered
  mapped : ∀ {hp}, H hp →
    ∃ m, dl.lookup hp.handle = some m ∧ m.image = hp.image ∧ 0 < m.loaderRefs
  unique : ∀ {hp hp'}, H hp → H hp' → hp.handle = hp'.handle → hp = hp'
  weak : alive → ∀ {hp}, H hp → dlHandlePtrMap.lookup hp.handle = some hp
  keyed : ∀ {h hp}, dlHandlePtrMap.lookup h = some hp → hp.handle = h

namespace Linkage

variable {dl : Dl} {alive : Bool} {weak : Finmap fun _ : Handle => DlHandlePtr}
  {H H' : DlHandlePtr → Prop}

theorem mono (hL : Linkage dl alive weak H) (hsub : ∀ hp, H' hp → H hp) :
    Linkage dl alive weak H' where
  ordered := hL.ordered
  mapped h := hL.mapped (hsub _ h)
  unique h h' := hL.unique (hsub _ h) (hsub _ h')
  weak ha _ h := hL.weak ha (hsub _ h)
  keyed := hL.keyed

/-- A step of the linker that keeps what is held mapped keeps the linkage. -/
theorem of_dl (hL : Linkage dl alive weak H) {dl' : Dl} (ho : dl'.Ordered)
    (hm : ∀ {hp m}, H hp → dl.lookup hp.handle = some m → 0 < m.loaderRefs →
      ∃ m', dl'.lookup hp.handle = some m' ∧ m'.image = m.image ∧ 0 < m'.loaderRefs) :
    Linkage dl' alive weak H where
  ordered := ho
  mapped {hp} h := by
    obtain ⟨m, hl, hi, hpos⟩ := hL.mapped h
    obtain ⟨m', hl', hi', hpos'⟩ := hm h hl hpos
    exact ⟨m', hl', hi'.trans hi, hpos'⟩
  unique := hL.unique
  weak := hL.weak
  keyed := hL.keyed

theorem dlopen (hL : Linkage dl alive weak H) {lib : LibId} {h : Handle}
    (hr : dl.MayReturn lib h) (serial : Nat) (noDelete : Bool) :
    Linkage (dl.dlopen lib h serial noDelete) alive weak H := by
  apply hL.of_dl (hL.ordered.dlopen hr serial noDelete)
  intro hp m _ hm hpos
  rw [Dl.dlopen_lookup]
  by_cases he : hp.handle = h
  · rw [if_pos he, Dl.opened_of_open (he ▸ hm)]
    exact ⟨_, rfl, rfl, Nat.succ_pos _⟩
  · rw [if_neg he]
    exact ⟨m, hm, rfl, hpos⟩

theorem dlclose (hL : Linkage dl alive weak H) {h : Handle}
    (hne : ∀ hp, H hp → hp.handle ≠ h) : Linkage (dl.dlclose h) alive weak H := by
  apply hL.of_dl (hL.ordered.of_extends (Dl.dlclose_extends dl h))
  intro hp m hH hm hpos
  rw [Dl.dlclose_lookup_ne dl (hne hp hH)]
  exact ⟨m, hm, rfl, hpos⟩

theorem dlopen_dlclose (hL : Linkage dl alive weak H) {lib : LibId} {h : Handle}
    (hr : dl.MayReturn lib h) (serial : Nat) (noDelete : Bool) :
    Linkage ((dl.dlopen lib h serial noDelete).dlclose h) alive weak H := by
  apply hL.of_dl
    ((hL.ordered.dlopen hr serial noDelete).of_extends (Dl.dlclose_extends _ h))
  intro hp m _ hm hpos
  by_cases he : hp.handle = h
  · rw [he] at hm ⊢
    rw [Dl.dlopen_dlclose_lookup hm hpos]
    exact ⟨_, rfl, rfl, hpos⟩
  · rw [Dl.dlclose_lookup_ne _ he, Dl.dlopen_lookup, if_neg he]
    exact ⟨m, hm, rfl, hpos⟩

theorem otherOpen (hL : Linkage dl alive weak H) {lib : LibId} {h : Handle}
    (hr : dl.MayReturn lib h) (serial : Nat) :
    Linkage (dl.otherOpen lib h serial) alive weak H := by
  apply hL.of_dl (hL.ordered.otherOpen hr serial)
  intro hp m _ hm hpos
  by_cases he : hp.handle = h
  · rw [he] at hm ⊢
    simp only [Dl.otherOpen, hm, lookup_insert_eq, if_true]
    exact ⟨_, rfl, rfl, hpos⟩
  · rw [Dl.otherOpen_lookup_ne _ _ _ he]
    exact ⟨m, hm, rfl, hpos⟩

theorem otherClose (hL : Linkage dl alive weak H) (h : Handle) :
    Linkage (dl.otherClose h) alive weak H := by
  apply hL.of_dl (hL.ordered.of_extends (Dl.otherClose_extends dl h))
  intro hp m _ hm hpos
  by_cases he : hp.handle = h
  · rw [he] at hm ⊢
    simp only [Dl.otherClose, hm, Dl.put_lookup, if_true]
    exact ⟨_, if_pos (Or.inl hpos), rfl, hpos⟩
  · rw [Dl.otherClose_lookup_ne _ he]
    exact ⟨m, hm, rfl, hpos⟩

theorem insert (hL : Linkage dl alive weak H) (hp : DlHandlePtr)
    (hfree : ∀ hp', H hp' → hp'.handle ≠ hp.handle)
    (hm : ∃ m, dl.lookup hp.handle = some m ∧ m.image = hp.image ∧ 0 < m.loaderRefs) :
    Linkage dl alive (weak.insert hp.handle hp) (fun hp' => hp' = hp ∨ H hp') where
  ordered := hL.ordered
  mapped := by
    rintro hp' (rfl | h)
    · exact hm
    · exact hL.mapped h
  unique := by
    rintro hp₁ hp₂ (rfl | h₁) (rfl | h₂) he
    · rfl
    · exact absurd he.symm (hfree hp₂ h₂)
    · exact absurd he (hfree hp₁ h₁)
    · exact hL.unique h₁ h₂ he
  weak := by
    rintro ha hp' (rfl | h)
    · exact Finmap.lookup_insert _
    · rw [lookup_insert_eq, if_neg (hfree hp' h)]
      exact hL.weak ha h
  keyed {h hp'} hl := by
    rw [lookup_insert_eq] at hl
    split at hl
    · rename_i he
      cases hl
      exact he.symm
    · exact hL.keyed hl

theorem dead (hL : Linkage dl alive weak H) : Linkage dl false ∅ H where
  ordered := hL.ordered
  mapped := hL.mapped
  unique := hL.unique
  weak ha := absurd ha (by decide)
  keyed hl := by simp at hl

end Linkage

namespace World

/-! ### Releasing a handle changes the linker only -/

variable (w : World) (hp : DlHandlePtr)

@[simp] theorem release_impl : (w.release hp).impl = w.impl := by unfold release; split <;> rfl
@[simp] theorem release_alive : (w.release hp).alive = w.alive := by unfold release; split <;> rfl
@[simp] theorem release_instances : (w.release hp).instances = w.instances := by
  unfold release; split <;> rfl
@[simp] theorem release_locals : (w.release hp).locals = w.locals := by
  unfold release; split <;> rfl
@[simp] theorem release_next : (w.release hp).next = w.next := by unfold release; split <;> rfl
@[simp] theorem release_thrown : (w.release hp).thrown = w.thrown := by
  unfold release; split <;> rfl

variable {w hp}

def Linked (w : World) : Prop := Linkage w.dl w.alive w.impl.dlHandlePtrMap w.Held

/-- A held handle is one of those in `H`. -/
def HeldIn (H : DlHandlePtr → Prop) (w : World) : Prop := ∀ hp, w.Held hp → H hp

theorem release_linked {H : DlHandlePtr → Prop} (hin : w.HeldIn H) (hH : H hp)
    (hL : Linkage w.dl w.alive w.impl.dlHandlePtrMap H) : (w.release hp).Linked := by
  have hL' : w.Linked := hL.mono hin
  unfold release
  split
  · exact hL'
  · rename_i hnot
    apply hL'.dlclose
    intro hp' hheld he
    have hsame := hL.unique (hin hp' hheld) hH he
    exact hnot (hsame ▸ hheld)

theorem held_of_handle {name : String} (h : w.impl.pluginToDlHandlePtrs.lookup name = some hp) :
    w.Held hp :=
  Or.inl ⟨name, hp, h, rfl⟩

theorem held_of_instance {block : Nat} {i : PluginWithDlHandle}
    (h : w.instances.lookup block = some i) (hi : i.dlHandlePtr = some hp) : w.Held hp :=
  Or.inr (Or.inl ⟨block, i, h, hi⟩)

/-! ### Who holds a handle -/

theorem held_of_erase_handle {name : String}
    (h : Held { w with impl := { w.impl with
      pluginToDlHandlePtrs := w.impl.pluginToDlHandlePtrs.erase name } } hp) : w.Held hp := by
  rcases h with hh | hh
  · exact Or.inl hh.of_erase
  · exact Or.inr hh

theorem held_iff_of_handle {name : String} {old : DlHandlePtr}
    (h : w.impl.pluginToDlHandlePtrs.lookup name = some old) :
    w.Held hp ↔ hp = old ∨ Held { w with impl := { w.impl with
      pluginToDlHandlePtrs := w.impl.pluginToDlHandlePtrs.erase name } } hp := by
  unfold Held
  rw [has_of_lookup h, has_erase, or_assoc, eq_comm]

theorem held_insert_handle {name : String} {new : DlHandlePtr} :
    Held { w with impl := { w.impl with
      pluginToDlHandlePtrs := w.impl.pluginToDlHandlePtrs.insert name new } } hp ↔
    hp = new ∨ Held { w with impl := { w.impl with
      pluginToDlHandlePtrs := w.impl.pluginToDlHandlePtrs.erase name } } hp := by
  unfold Held
  rw [has_insert, has_erase, or_assoc, eq_comm]

/-- Where a held handle takes the place of another one, that one is all that can go. -/
theorem held_iff_insert_handle {name : String} {old new : DlHandlePtr} (hnew : w.Held new)
    (h : w.impl.pluginToDlHandlePtrs.lookup name = some old) :
    w.Held hp ↔ hp = old ∨ Held { w with impl := { w.impl with
      pluginToDlHandlePtrs := w.impl.pluginToDlHandlePtrs.insert name new } } hp := by
  rw [held_insert_handle]
  constructor
  · intro hh
    exact ((held_iff_of_handle h).mp hh).imp_right Or.inr
  · rintro (he | rfl | hh)
    · exact (held_iff_of_handle h).mpr (Or.inl he)
    · exact hnew
    · exact held_of_erase_handle hh

theorem held_iff_insert_new {name : String} {new : DlHandlePtr} (hnew : w.Held new)
    (h : name ∉ w.impl.pluginToDlHandlePtrs) :
    w.Held hp ↔ Held { w with impl := { w.impl with
      pluginToDlHandlePtrs := w.impl.pluginToDlHandlePtrs.insert name new } } hp := by
  rw [held_insert_handle]
  constructor
  · rintro (hh | hh)
    · exact Or.inr (Or.inl (has_erase.mpr ((has_of_not_mem h).mp hh)))
    · exact Or.inr (Or.inr hh)
  · rintro (rfl | hh)
    · exact hnew
    · exact held_of_erase_handle hh

theorem held_iff_of_instance {block : Nat} {i : PluginWithDlHandle}
    (h : w.instances.lookup block = some i) :
    w.Held hp ↔
      i.dlHandlePtr = some hp ∨ Held { w with instances := w.instances.erase block } hp := by
  unfold Held
  rw [has_of_lookup h, has_erase, or_assoc]
  exact or_left_comm

theorem held_iff_of_local {hp' : DlHandlePtr} (hmem : hp' ∈ w.locals) :
    w.Held hp ↔ hp = hp' ∨ Held { w with locals := w.locals.erase hp' } hp := by
  by_cases he : hp = hp'
  · rw [he]
    exact iff_of_true (Or.inr (Or.inr hmem)) (Or.inl rfl)
  · unfold Held
    rw [List.mem_erase_of_ne he, or_iff_right he]

theorem held_cons_local {hp' : DlHandlePtr} :
    Held { w with locals := hp' :: w.locals } hp ↔ hp = hp' ∨ w.Held hp := by
  unfold Held
  rw [List.mem_cons]
  constructor
  · rintro (hh | hh | hh | hh)
    · exact Or.inr (Or.inl hh)
    · exact Or.inr (Or.inr (Or.inl hh))
    · exact Or.inl hh
    · exact Or.inr (Or.inr (Or.inr hh))
  · rintro (hh | hh | hh | hh)
    · exact Or.inr (Or.inr (Or.inl hh))
    · exact Or.inl hh
    · exact Or.inr (Or.inl hh)
    · exact Or.inr (Or.inr (Or.inr hh))

theorem init_linked : init.Linked where
  ordered := Dl.empty_ordered
  mapped h := by simp [Held, init, Implementation.empty] at h
  unique h := by simp [Held, init, Implementation.empty] at h
  weak _ _ h := by simp [Held, init, Implementation.empty] at h
  keyed h := by simp [init, Implementation.empty] at h

/-! ### The functions that let go of handles -/

theorem eraseHandle_linked (h : w.Linked) (name : String) : (w.eraseHandle name).Linked := by
  unfold eraseHandle
  split
  · exact h
  · exact release_linked (H := w.Held) (fun _ => held_of_erase_handle) (held_of_handle ‹_›) h

theorem setHandle_linked (h : w.Linked) (name : String) (hheld : w.Held hp) :
    (w.setHandle name hp).Linked := by
  have hin : HeldIn w.Held { w with impl := { w.impl with
      pluginToDlHandlePtrs := w.impl.pluginToDlHandlePtrs.insert name hp } } := by
    intro hp' hh
    rcases held_insert_handle.mp hh with rfl | hh
    · exact hheld
    · exact held_of_erase_handle hh
  unfold setHandle
  split
  · exact Linkage.mono h hin
  · rename_i old hold
    exact release_linked (H := w.Held) hin (held_of_handle hold) h

theorem dropLocal_linked (h : w.Linked) (hmem : hp ∈ w.locals) : (w.dropLocal hp).Linked := by
  have hiff : ∀ hp', w.Held hp' ↔ _ := fun _ => held_iff_of_local hmem
  exact release_linked (H := w.Held) (fun hp' hh => (hiff hp').mpr (Or.inr hh))
    ((hiff hp).mpr (Or.inl rfl)) h

theorem destroyInstance_linked (h : w.Linked) (block : Nat) : (w.destroyInstance block).Linked := by
  unfold destroyInstance
  split
  · exact h
  · rename_i i hi
    have hin : HeldIn w.Held { w with instances := w.instances.erase block } :=
      fun _ hh => (held_iff_of_instance hi).mpr (Or.inr hh)
    split
    · exact Linkage.mono h hin
    · rename_i hp hhp
      exact release_linked (H := w.Held) hin (held_of_instance hi hhp) h

theorem addInfo_linked (h : w.Linked) (info : Info CodePtr) : (w.addInfo info).Linked := h

/-! ### Loading -/

/-- What `LoadLib` does before it looks at the plugins: it fails, or it holds the handle in
a local variable. -/
theorem openLib_linked {env : Env} {path : String} (noDelete : Bool) {res : DlopenResult}
    (h : w.Linked) (ha : w.alive) (hr : w.DlopenMayReturn env path res) :
    (w.openLib env path noDelete res).2.Linked := by
  unfold openLib
  split
  · rename_i hd lib hhd hlib
    obtain ⟨lib', hlib', hmay⟩ := hr hd hhd
    have he : lib' = lib := by
      rw [Option.mem_def, hlib] at hlib'
      exact (Option.some.inj hlib').symm
    subst he
    have hopen := Linkage.dlopen h hmay w.next noDelete
    simp only
    split
    · exact hopen
    split
    · rename_i old hold
      obtain ⟨_, hheld⟩ := Option.filter_eq_some_iff.mp hold
      have hheld : w.Held old := of_decide_eq_true hheld
      refine (Linkage.dlopen_dlclose h hmay w.next noDelete).mono ?_
      intro hp hh
      rcases (held_cons_local (w := w)).mp hh with rfl | hh
      · exact hheld
      · exact hh
    · rename_i hnone
      have hfree : ∀ hp', w.Held hp' → hp'.handle ≠ hd := by
        rintro hp' hh rfl
        have hw := h.weak ha hh
        simp only [hw, Option.filter, decide_eq_true_eq, ite_eq_right_iff, reduceCtorEq] at hnone
        exact hnone hh
      refine (hopen.insert ⟨w.next + 1, hd, (w.dl.opened lib' hd w.next noDelete).image⟩
        hfree ⟨_, by rw [Dl.dlopen_lookup, if_pos rfl], rfl, ?_⟩).mono ?_
      · unfold Dl.opened
        split
        · exact Nat.succ_pos _
        · exact Nat.one_pos
      · exact fun _ hh => (held_cons_local (w := w)).mp hh
  · exact h

end World

end GzPlugin
