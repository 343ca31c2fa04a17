import GzPlugin.Holders
import GzPlugin.Trace

/-!
# dlopen and dlclose balance

Of every handle that some `shared_ptr` manages, exactly one `dlopen` is outstanding, and of
no other handle. The set of managed handles is again a parameter, since a function closes a
handle after it has dropped the last pointer to it.
-/

namespace GzPlugin

open FiniteMaps Runs

set_option autoImplicit false

namespace DlCall

variable {calls : List DlCall} {h h' : Handle}

/-- The calls of `dlopen` that gave out the handle, minus the calls of `dlclose` on it. -/
def balance (calls : List DlCall) (h : Handle) : Int :=
  (calls.countP (opens h) : Int) - calls.countP (closes h)

/-- No `dlclose` was called on a handle of which no `dlopen` was outstanding. -/
def Warranted (calls : List DlCall) : Prop :=
  ∀ later h earlier, calls = later ++ .dlclose h :: earlier → 0 < balance earlier h

theorem balance_dlopen (calls : List DlCall) (lib : LibId) (h' : Handle) (serial : Nat)
    (noDelete : Bool) (h : Handle) : balance (.dlopen lib h' serial noDelete :: calls) h =
      balance calls h + if h' = h then 1 else 0 := by
  simp only [balance, List.countP_cons, opens, closes, decide_eq_true_eq, Bool.false_eq_true,
    if_false]
  split <;> omega

theorem balance_dlclose (calls : List DlCall) (h' h : Handle) :
    balance (.dlclose h' :: calls) h = balance calls h - if h' = h then 1 else 0 := by
  simp only [balance, List.countP_cons, opens, closes, decide_eq_true_eq, Bool.false_eq_true,
    if_false]
  split <;> omega

theorem warranted_nil : Warranted [] := by
  intro later h earlier he
  simp at he

theorem Warranted.dlopen (hw : Warranted calls) (lib : LibId) (h : Handle) (serial : Nat)
    (noDelete : Bool) : Warranted (.dlopen lib h serial noDelete :: calls) := by
  intro later h' earlier he
  cases later with
  | nil => simp at he
  | cons c later =>
    rw [List.cons_append, List.cons.injEq] at he
    exact hw later h' earlier he.2

theorem Warranted.dlclose (hw : Warranted calls) (hpos : 0 < balance calls h) :
    Warranted (.dlclose h :: calls) := by
  intro later h' earlier he
  cases later with
  | nil =>
    rw [List.nil_append, List.cons.injEq, DlCall.dlclose.injEq] at he
    rw [← he.1, ← he.2]
    exact hpos
  | cons c later =>
    rw [List.cons_append, List.cons.injEq] at he
    exact hw later h' earlier he.2

end DlCall

open DlCall

/-- The calls leave one `dlopen` outstanding for the handles in `H`, and none for others. -/
structure Settled (calls : List DlCall) (H : DlHandlePtr → Prop) : Prop where
  held : ∀ {hp}, H hp → balance calls hp.handle = 1
  free : ∀ {h}, (∀ hp, H hp → hp.handle ≠ h) → balance calls h = 0
  warranted : Warranted calls

namespace Settled

variable {calls : List DlCall} {H H' : DlHandlePtr → Prop}

theorem congr (hs : Settled calls H) (he : ∀ hp, H hp ↔ H' hp) : Settled calls H' where
  held h := hs.held ((he _).mpr h)
  free h := hs.free fun hp hH => h hp ((he hp).mp hH)
  warranted := hs.warranted

theorem nonneg (hs : Settled calls H) (h : Handle) : 0 ≤ balance calls h := by
  by_cases hH : ∃ hp, H hp ∧ hp.handle = h
  · obtain ⟨hp, hheld, rfl⟩ := hH
    have := hs.held hheld
    omega
  · have := hs.free fun hp hheld he => hH ⟨hp, hheld, he⟩
    omega

theorem dlopen_dlclose (hs : Settled calls H) (lib : LibId) (h : Handle) (serial : Nat)
    (noDelete : Bool) :
    Settled (.dlclose h :: .dlopen lib h serial noDelete :: calls) H := by
  have hbal : ∀ h', balance (.dlclose h :: .dlopen lib h serial noDelete :: calls) h' =
      balance calls h' := by
    intro h'
    rw [balance_dlclose, balance_dlopen]
    omega
  constructor
  · intro hp hH
    rw [hbal]
    exact hs.held hH
  · intro h' hfree
    rw [hbal]
    exact hs.free hfree
  · apply (hs.warranted.dlopen lib h serial noDelete).dlclose
    rw [balance_dlopen, if_pos rfl]
    have := hs.nonneg h
    omega

theorem dlopen (hs : Settled calls H) (hp : DlHandlePtr)
    (hfree : ∀ hp', H hp' → hp'.handle ≠ hp.handle) (lib : LibId) (serial : Nat)
    (noDelete : Bool) :
    Settled (.dlopen lib hp.handle serial noDelete :: calls) fun hp' => hp' = hp ∨ H hp' := by
  constructor
  · rintro hp' (rfl | hH)
    · rw [balance_dlopen, if_pos rfl, hs.free hfree]
      rfl
    · rw [balance_dlopen, if_neg fun he => hfree hp' hH he.symm, hs.held hH]
      rfl
  · intro h hne
    have hold : balance calls h = 0 := hs.free fun hp' hH => hne hp' (Or.inr hH)
    rw [balance_dlopen, if_neg (hne hp (Or.inl rfl)), hold]
    rfl
  · exact hs.warranted.dlopen lib hp.handle serial noDelete

theorem dlclose (hs : Settled calls H) {hp : DlHandlePtr} (hH : H hp) (hH' : ∀ hp', H' hp' → H hp')
    (hcover : ∀ hp', H hp' → hp' = hp ∨ H' hp') (hgone : ∀ hp', H' hp' → hp'.handle ≠ hp.handle) :
    Settled (.dlclose hp.handle :: calls) H' := by
  constructor
  · intro hp' hheld
    rw [balance_dlclose, if_neg fun he => hgone hp' hheld he.symm, hs.held (hH' hp' hheld)]
    rfl
  · intro h hfree
    by_cases he : hp.handle = h
    · rw [balance_dlclose, if_pos he, ← he, hs.held hH]
      rfl
    · rw [balance_dlclose, if_neg he, hs.free]
      · rfl
      · intro hp' hheld
        rcases hcover hp' hheld with heq | hheld'
        · rw [heq]
          exact he
        · exact hfree hp' hheld'
  · apply hs.warranted.dlclose
    rw [hs.held hH]
    exact Int.one_pos

end Settled

namespace World

variable {env : Env} {w w' : World} {hp hp' : DlHandlePtr}

theorem held_insertInstance {block next : Nat} {i : PluginWithDlHandle}
    (hn : block ∉ w.instances) (hi : ∀ hp, i.dlHandlePtr = some hp → w.Held hp)
    (hp : DlHandlePtr) :
    w.Held hp ↔ Held { w with instances := w.instances.insert block i, next := next } hp := by
  constructor
  · intro hh
    rcases hh with hh | hh | hh
    · exact Or.inl hh
    · exact Or.inr (Or.inl (has_insert.mpr (Or.inr ((has_of_not_mem hn).mp hh))))
    · exact Or.inr (Or.inr hh)
  · intro hh
    rcases hh with hh | hh | hh
    · exact Or.inl hh
    · rcases hh.of_insert with he | hh
      · exact hi hp he
      · exact Or.inr (Or.inl hh)
    · exact Or.inr (Or.inr hh)

/-- The numbers of living instances have been used up. -/
def Numbered (w : World) : Prop := ∀ block ∈ w.instances, block < w.next

theorem Numbered.not_mem (h : w.Numbered) {block : Nat} (hle : w.next ≤ block) :
    block ∉ w.instances := by
  intro hm
  have := h block hm
  omega

theorem Numbered.insert (h : w.Numbered) {block : Nat} (hle : w.next ≤ block)
    (i : PluginWithDlHandle) :
    Numbered { w with instances := w.instances.insert block i, next := block + 1 } := by
  intro block' hm
  rcases Finmap.mem_insert.mp hm with rfl | hm
  · exact Nat.lt_succ_self _
  · have := h block' hm
    exact Nat.lt_succ_of_lt (Nat.lt_of_lt_of_le this hle)

theorem Numbered.next_step {op : Op} (h : w.Numbered) (hS : Sound env w)
    (hs : step env w op = some w') : w'.Numbered := by
  have hsame : w'.instances = w.instances ∧ w.next ≤ w'.next → w'.Numbered := by
    intro hw block hm
    rw [hw.1] at hm
    exact Nat.lt_of_lt_of_le (h block hm) hw.2
  by_cases hop : Process.OnLoader op
  · exact hsame (loader_instances hS hop hs)
  · obtain ⟨_, rfl⟩ := step_eq_some.mp hs
    cases op with
    | instantiate s instance_ =>
      rcases instantiate_cases hS s instance_ with ⟨_, he⟩ | ⟨block, info, i, hle, _, _, he⟩
      · exact hsame he
      · simp only [after, he]
        exact h.insert hle i
    | destroyInstance block =>
      intro block' hm
      rw [after, destroyInstance_next]
      exact h block' (mem_destroyInstance.mp hm).2
    | _ => exact absurd trivial hop

/-- A destroyed Loader has no tables. -/
def Dismantled (w : World) : Prop := w.alive = false → w.impl = .empty

theorem alive_of_loads {op : Op} {lib : LibId} (hen : w.Enabled env op)
    (hop : op.loads env = some lib) : w.alive := by
  cases op <;> first | exact hen.1 | cases hop

theorem alive_of_forgottenHandle {op : Op} {hd : Handle} (hen : w.Enabled env op)
    (hop : w.forgottenHandle env op = some hd) : w.alive := by
  cases op <;> first | exact hen.1 | cases hop

theorem Dismantled.next_step {op : Op} (h : w.Dismantled) (hS : Sound env w)
    (hs : step env w op = some w') : w'.Dismantled := by
  intro hdead
  have hen := (step_eq_some.mp hs).1
  cases (step_sound hS hs).2 with
  | loaded lib hp infos hop hl =>
    rw [hl.around.alive, alive_of_loads hen hop] at hdead
    cases hdead
  | forgot hd names hop hf =>
    rw [hf.around.alive, alive_of_forgottenHandle hen hop] at hdead
    cases hdead
  | kept _ _ hq =>
    rw [hq.impl]
    exact h (hq.alive ▸ hdead)
  | destroyed himpl _ _ => exact himpl

end World

namespace Traced

open World (relocate finishInfo DlopenResult Op HeldIn Around)

variable {env : Env} {t t' : Traced} {hp : DlHandlePtr}

/-- The balance of the calls made so far, for the handles held now. -/
def Even (t : Traced) : Prop := Settled t.calls t.world.Held

/-- The pointer that goes away is all that is not held afterwards. -/
theorem release_even {H : DlHandlePtr → Prop} (hL : ∀ {hp hp'}, H hp → H hp' →
      hp.handle = hp'.handle → hp = hp') (hs : Settled t.calls H)
    (hiff : ∀ hp', H hp' ↔ hp' = hp ∨ t.world.Held hp') : (t.release hp).Even := by
  have hin : HeldIn H t.world := fun hp' hh => (hiff hp').mpr (Or.inr hh)
  have hH : H hp := (hiff hp).mpr (Or.inl rfl)
  unfold Even release
  split
  · rename_i hheld
    apply hs.congr
    intro hp'
    rw [hiff, or_iff_right_of_imp]
    rintro rfl
    exact hheld
  · rename_i hnot
    refine hs.dlclose hH hin (fun hp' => (hiff hp').mp) ?_
    intro hp' hheld he
    exact hnot (hL (hin hp' hheld) hH he ▸ hheld)

theorem setHandle_even (hL : t.world.Linked) (hs : t.Even) (name : String)
    (hheld : t.world.Held hp) : (t.setHandle name hp).Even := by
  unfold setHandle
  cases hl : t.world.impl.pluginToDlHandlePtrs.lookup name with
  | none =>
    apply Settled.congr hs
    intro hp'
    exact World.held_iff_insert_new hheld (Finmap.lookup_eq_none.mp hl)
  | some old =>
    exact release_even hL.unique hs fun _ => World.held_iff_insert_handle hheld hl

theorem eraseHandle_even (hL : t.world.Linked) (hs : t.Even) (name : String) :
    (t.eraseHandle name).Even := by
  unfold eraseHandle
  cases hl : t.world.impl.pluginToDlHandlePtrs.lookup name with
  | none => exact hs
  | some old => exact release_even hL.unique hs fun _ => World.held_iff_of_handle hl

theorem dropLocal_even (hL : t.world.Linked) (hs : t.Even) (hmem : hp ∈ t.world.locals) :
    (t.dropLocal hp).Even :=
  release_even hL.unique hs fun _ => World.held_iff_of_local hmem

theorem destroyInstance_even (hL : t.world.Linked) (hs : t.Even) (block : Nat) :
    (t.destroyInstance block).Even := by
  unfold destroyInstance
  cases hi : t.world.instances.lookup block with
  | none => exact hs
  | some i =>
    cases hhp : i.dlHandlePtr with
    | none =>
      simp only [hhp]
      apply Settled.congr hs
      intro hp'
      rw [World.held_iff_of_instance hi, hhp]
      exact or_iff_right nofun
    | some hp =>
      simp only [hhp]
      refine release_even hL.unique hs fun hp' => ?_
      rw [World.held_iff_of_instance hi, hhp, Option.some.injEq, eq_comm]
      rfl

/-! ### Loading -/

/-- `dlopen` returns no handle exactly if `dlerror` reports an error. -/
def Paired (_ : Traced) : Op → Prop
  | .loadLib _ _ res _ => res.handle = none ↔ res.error = true
  | _ => True

instance (t : Traced) (op : Op) : Decidable (t.Paired op) := by
  induction op using World.Op.casesOn <;> unfold Paired <;> infer_instance

theorem openLib_even {path : String} (noDelete : Bool) {res : DlopenResult}
    (hpair : res.handle = none ↔ res.error = true) (hL : t.world.Linked) (ha : t.world.alive)
    (hs : t.Even) : (t.openLib env path noDelete res).2.Even := by
  cases hres : res.handle with
  | none => simpa only [openLib, hres] using hs
  | some h =>
    have herr : res.error = false := by
      cases herr : res.error with
      | false => rfl
      | true => cases hres.symm.trans (hpair.mpr herr)
    cases hlib : env.resolve path with
    | none => simpa only [openLib, hres, hlib] using hs
    | some lib =>
      cases hold : (t.world.impl.dlHandlePtrMap.lookup h).filter fun old => t.world.Held old with
      | some old =>
        obtain ⟨_, hheld⟩ := Option.filter_eq_some_iff.mp hold
        have hheld : t.world.Held old := of_decide_eq_true hheld
        rw [openLib_reused hlib hres herr hold]
        apply (hs.dlopen_dlclose lib h t.world.next noDelete).congr
        intro hp'
        refine Iff.trans ?_ (World.held_cons_local (w := t.world)).symm
        rw [or_iff_right_of_imp]
        rintro rfl
        exact hheld
      | none =>
        have hfree : ∀ hp', t.world.Held hp' → hp'.handle ≠ h := by
          intro hp' hh he
          have hw := hL.weak ha hh
          rw [he] at hw
          simp [hw, Option.filter, hh] at hold
        rw [openLib_created hlib hres herr hold rfl]
        have hopen := hs.dlopen
          ⟨t.world.next + 1, h, (t.world.dl.opened lib h t.world.next noDelete).image⟩ hfree lib
          t.world.next noDelete
        apply hopen.congr
        intro hp'
        exact (World.held_cons_local (w := t.world)).symm

theorem addPlugins_even (infos : List (Info CodePtr)) (names : Finset String)
    (hL : t.world.Linked) (hs : t.Even) (hmem : hp ∈ t.world.locals) :
    (infos.foldl (addPlugin env hp) (t, names)).1.Even ∧
      (infos.foldl (addPlugin env hp) (t, names)).1.world.Linked ∧
      hp ∈ (infos.foldl (addPlugin env hp) (t, names)).1.world.locals := by
  induction infos generalizing t names with
  | nil => exact ⟨hs, hL, hmem⟩
  | cons info infos ih =>
    have hL' : (t.map fun w => w.addInfo (finishInfo env info)).world.Linked := hL
    have hheld : (t.map fun w => w.addInfo (finishInfo env info)).world.Held hp :=
      Or.inr (Or.inr hmem)
    refine ih _ ?_ (setHandle_even hL' hs _ hheld) ?_
    · rw [setHandle_world]
      exact World.setHandle_linked hL' _ hheld
    · rw [setHandle_world, (World.setHandle_around _ _ _).locals]
      exact hmem

theorem loadLib_even {path : String} (noDelete : Bool) {res : DlopenResult}
    (infos : List (Info Symbol)) (hpair : res.handle = none ↔ res.error = true)
    (hL : t.world.Linked) (ha : t.world.alive) (hr : t.world.DlopenMayReturn env path res)
    (hs : t.Even) : (t.loadLib env path noDelete res infos).2.Even := by
  have hopen : (t.openLib env path noDelete res).2.Even := openLib_even noDelete hpair hL ha hs
  have hlink := World.openLib_linked noDelete hL ha hr
  have hcases := World.openLib_cases noDelete hL ha hr
  rw [openLib_world] at hlink hcases
  unfold loadLib
  split
  · rename_i t₁ he
    rw [he] at hopen
    exact hopen
  · rename_i hp t₁ he
    rw [he] at hopen hlink hcases
    have hmem : hp ∈ t₁.world.locals := by
      rcases hcases with ⟨w', hw', _⟩ | ⟨lib, hp', w', hw', ho⟩
      · cases hw'
      · cases hw'
        rw [ho.locals]
        exact List.mem_cons_self
    have hadd := @addPlugins_even env t₁ hp (relocate hp infos) ∅ hlink hopen hmem
    obtain ⟨heven, hlink', hmem'⟩ := hadd
    exact dropLocal_even hlink' heven hmem'

/-! ### Forgetting -/

theorem forgetPlugin_even (hL : t.world.Linked) (hs : t.Even) (name : String) :
    (t.forgetPlugin name).Even ∧ (t.forgetPlugin name).world.Linked := by
  have hL' : (t.map fun w => w.forgetInfo name).world.Linked := by
    change (t.world.forgetInfo name).Linked
    unfold World.forgetInfo
    split <;> exact hL
  have hs' : (t.map fun w => w.forgetInfo name).Even := by
    change Settled t.calls (t.world.forgetInfo name).Held
    unfold World.forgetInfo
    split <;> exact hs
  unfold forgetPlugin
  split
  · exact ⟨hs, hL⟩
  simp only
  split
  · exact ⟨hs', hL'⟩
  · refine ⟨eraseHandle_even hL' hs' name, ?_⟩
    rw [eraseHandle_world]
    exact World.eraseHandle_linked hL' name

theorem forgetHandle_even (hL : t.world.Linked) (hs : t.Even) (h : Handle) (order : List String) :
    (t.forgetHandle h order).2.Even := by
  have hfold : (order.foldl forgetPlugin t).Even := by
    induction order generalizing t with
    | nil => exact hs
    | cons name order ih =>
      obtain ⟨hs', hL'⟩ := forgetPlugin_even hL hs name
      exact ih hL' hs'
  unfold forgetHandle
  split
  · exact hs
  simp only
  split
  · exact hfold
  · exact hfold

theorem destroyLoader_even (hL : t.world.Linked) (hs : t.Even) (order : List String) :
    (t.destroyLoader order).Even := by
  have hfold : ∀ {t : Traced}, t.world.Linked → t.Even → (order.foldl eraseHandle t).Even := by
    intro t hL hs
    induction order generalizing t with
    | nil => exact hs
    | cons name order ih =>
      refine ih ?_ (eraseHandle_even hL hs name)
      rw [eraseHandle_world]
      exact World.eraseHandle_linked hL name
  have hdead : (t.map World.clearTables).world.Linked := hL.dead
  exact hfold hdead hs

/-! ### Runs -/

theorem instantiate_even (hS : World.Sound env t.world) (hn : t.world.Numbered) (hs : t.Even)
    (s : String) (instance_ : Ptr) :
    (t.map fun w => (w.instantiate env s instance_).2).Even := by
  unfold Even
  simp only [map_world, map_calls]
  cases hS.resolution s with
  | file ptr hp _ _ hhp _ hworld =>
    rw [hworld]
    apply hs.congr
    apply World.held_insertInstance (hn.not_mem (Nat.le_refl _))
    intro hp' he
    cases he
    exact World.held_of_handle hhp
  | stale _ _ _ hworld =>
    rw [hworld]
    exact hs
  | static info _ _ _ _ hworld =>
    rw [hworld]
    apply hs.congr
    apply World.held_insertInstance (hn.not_mem (Nat.le_succ _))
    intro hp' he
    cases he
  | missing _ _ _ hworld =>
    rw [hworld]
    exact hs

theorem forgetLibrary_even {path : String} {res : Option Handle} (hL : t.world.Linked)
    (hr : t.world.NoLoadMayReturn env path res) (hs : t.Even) (order : List String) :
    (t.forgetLibrary env path res order).2.Even := by
  cases res with
  | none => exact hs
  | some h =>
    cases hlib : env.resolve path with
    | none => simpa only [forgetLibrary, hlib] using hs
    | some lib =>
      simp only [World.NoLoadMayReturn, hlib] at hr
      simp only [forgetLibrary, hlib]
      have hopen : ((t.dlopen lib h false).dlclose h).Even :=
        hs.dlopen_dlclose lib h t.world.next false
      exact forgetHandle_even (World.noLoad_linked hL hr) hopen h order

/-- What holds of a traced Loader between two operations. -/
structure Good (env : Env) (t : Traced) : Prop where
  sound : World.Sound env t.world
  numbered : t.world.Numbered
  dismantled : t.world.Dismantled
  even : t.Even

theorem init_good (env : Env) : Good env init where
  sound := World.init_sound env
  numbered := by
    intro block hm
    exact absurd hm Finmap.notMem_empty
  dismantled hdead := by cases hdead
  even := by
    constructor
    · intro hp hheld
      simp [init, World.Held, World.init, Implementation.empty] at hheld
    · exact fun _ => rfl
    · exact warranted_nil

theorem Good.next {op : Op} (h : Good env t) (hpair : t.Paired op)
    (hs : step env t op = some t') : Good env t' := by
  have hw : World.step env t.world op = some t'.world := by
    rw [← step_world, hs, Option.map_some]
  refine ⟨(World.step_sound h.sound hw).1, h.numbered.next_step h.sound hw,
    h.dismantled.next_step h.sound hw, ?_⟩
  obtain ⟨hen, rfl⟩ := step_eq_some.mp hs
  have hL := h.sound.linked
  cases op with
  | loadLib path noDelete res infos =>
    obtain ⟨ha, hr, _⟩ := hen
    exact loadLib_even noDelete infos hpair hL ha hr h.even
  | forgetLibrary path res order => exact forgetLibrary_even hL hen.2.1 h.even order
  | forgetLibraryOfPlugin s order =>
    simp only [after, forgetLibraryOfPlugin]
    split
    · exact h.even
    · exact forgetHandle_even hL h.even _ order
  | instantiate s instance_ => exact instantiate_even h.sound h.numbered h.even s instance_
  | destroyInstance block => exact destroyInstance_even hL h.even block
  | destroyLoader order => exact destroyLoader_even hL h.even order
  | otherOpen lib hd => exact h.even
  | otherClose hd => exact h.even

/-- What this Loader owes to the dynamic linker. -/
structure Balanced (t : Traced) : Prop where
  held : ∀ hp, t.world.Held hp → balance t.calls hp.handle = 1
  free : ∀ h, (¬ ∃ hp, t.world.Held hp ∧ hp.handle = h) → balance t.calls h = 0
  unique : ∀ hp hp', t.world.Held hp → t.world.Held hp' → hp.handle = hp'.handle → hp = hp'
  warranted : Warranted t.calls
  gone : t.world.alive = false → t.world.instances = ∅ → ∀ h, balance t.calls h = 0

theorem Good.balanced (h : Good env t) : Balanced t where
  held _ hheld := h.even.held hheld
  free _ hfree := h.even.free fun hp hheld he => hfree ⟨hp, hheld, he⟩
  unique _ _ hheld hheld' := h.sound.linked.unique hheld hheld'
  warranted := h.even.warranted
  gone := by
    intro hdead hinst hd
    apply h.even.free
    intro hp hheld
    simp [World.Held, h.dismantled hdead, hinst, h.sound.locals, Implementation.empty] at hheld

/-- In every run in which `dlerror` reports an error exactly if `dlopen` returned no handle,
`dlopen` and `dlclose` balance in every state reached. A program that calls into a closed library
reaches the states before that call. -/
theorem balanced_of_paired (env : Env) {l : List (Op × Traced)} (hrun : Run (step env) init l)
    (hpair : Steps Paired init l) : States Balanced init l :=
  (hrun.states hpair (init_good env) fun hp h hs => h.next hp hs).imp fun _ h => h.balanced

/-- An instance outlives the library, which is loaded once more, and then the Loader. -/
def outliving : List Op :=
  [.loadLib "a" false ⟨some 1, false⟩ [pluginOf "p" p_ne ["I"] ["x"]],
    .instantiate "p" 5, .forgetLibrary "a" (some 1) ["p"],
    .loadLib "a" false ⟨some 1, false⟩ [pluginOf "p" p_ne ["I"] ["x"]],
    .destroyLoader ["p"], .destroyInstance 3]

theorem balanced_outliving : States Balanced init (history (step sharedName) init outliving) :=
  balanced_of_paired sharedName (history_run _ init outliving) (by decide)

end Traced

end GzPlugin
