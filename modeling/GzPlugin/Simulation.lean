import GzPlugin.Holders

/-!
# The Loader inside the process

The world of a process takes the steps of the Loader, so that what holds of the Loader
holds of it.
-/

namespace GzPlugin

open FiniteMaps

set_option autoImplicit false

namespace Process

variable {env : Env} {p p' p'' : Process} {op : World.Op} {v u : Var} {pl other : Plugin}

/-! ### The Loader leaves the references alone -/

structure Frame (p p' : Process) : Prop where
  plugins : p'.plugins = p.plugins
  shared : p'.shared = p.shared
  weaks : p'.weaks = p.weaks
  fromThis : p'.fromThis = p.fromThis
  log : LogsInfos p.log p'.log

namespace Frame

theorem refl (p : Process) : Frame p p := ⟨rfl, rfl, rfl, rfl, .refl _⟩

theorem trans (h : Frame p p') (h' : Frame p' p'') : Frame p p'' where
  plugins := h'.plugins.trans h.plugins
  shared := h'.shared.trans h.shared
  weaks := h'.weaks.trans h.weaks
  fromThis := h'.fromThis.trans h.fromThis
  log := h.log.trans h'.log

theorem setWorld (p : Process) (w : World) : Frame p { p with world := w } :=
  ⟨rfl, rfl, rfl, rfl, .refl _⟩

theorem destroyInfo (p : Process) (info : Info CodePtr) : Frame p (p.destroyInfo info) :=
  ⟨rfl, rfl, rfl, rfl, destroyInfo_logs p info⟩

theorem releaseInfo (p : Process) (info : Option (ConstInfoPtr CodePtr)) :
    Frame p (p.releaseInfo info) :=
  ⟨releaseInfo_plugins p info, releaseInfo_shared p info, releaseInfo_weaks p info,
    releaseInfo_fromThis p info, releaseInfo_logs p info⟩

theorem foldl {σ α : Type} (process : σ → Process) {f : σ → α → σ}
    (hf : ∀ s a, Frame (process s) (process (f s a))) (l : List α) (s : σ) :
    Frame (process s) (process (l.foldl f s)) := by
  induction l generalizing s with
  | nil => exact refl _
  | cons a l ih => exact (hf s a).trans (ih (f s a))

theorem addPlugin (env : Env) (hp : DlHandlePtr) (st : Process × Finset String) (info : Info CodePtr) :
    Frame st.1 (addPlugin env hp st info).1 := by
  refine trans ?_ (setWorld _ _)
  split
  · exact setWorld st.1 _
  · exact (setWorld st.1 _).trans (destroyInfo _ _)

theorem forgetPlugin (p : Process) (forget : String) : Frame p (p.forgetPlugin forget) := by
  unfold Process.forgetPlugin
  split
  · exact refl p
  simp only
  split
  · exact setWorld p _
  · exact ((setWorld p _).trans (releaseInfo _ _)).trans (setWorld _ _)

theorem forgetHandle (p : Process) (hd : Handle) (order : List String) :
    Frame p (p.forgetHandle hd order) := by
  have hfold : Frame p (order.foldl Process.forgetPlugin p) := foldl id forgetPlugin order p
  unfold Process.forgetHandle
  split
  · exact refl p
  simp only
  split
  · exact hfold
  · exact hfold.trans (setWorld _ _)

end Frame

theorem loader_frame (env : Env) (p : Process) (op : World.Op) : Frame p (p.loader env op) := by
  cases op with
  | loadLib path noDelete res loadedPlugins =>
    simp only [loader, loadLib]
    split
    · exact .setWorld p _
    · rename_i hp world _
      have hadd := Frame.foldl Prod.fst (Frame.addPlugin env hp)
        (World.relocate hp loadedPlugins) ({ p with world := world }, ∅)
      refine Frame.trans ?_ (.setWorld _ _)
      refine Frame.trans ?_ (.foldl id Frame.destroyInfo _ _)
      exact ((Frame.setWorld p world).trans hadd).trans (.setWorld _ _)
  | forgetLibrary path res order =>
    simp only [loader, forgetLibrary]
    split
    · exact (Frame.setWorld p _).trans (.forgetHandle _ _ _)
    · exact .refl p
  | forgetLibraryOfPlugin s order =>
    simp only [loader, forgetLibraryOfPlugin]
    split
    · exact .refl p
    · exact .forgetHandle p _ _
  | destroyLoader order =>
    refine Frame.trans ?_ (.setWorld _ _)
    exact (Frame.setWorld p _).trans (.foldl id (fun p _ => .releaseInfo p _) order _)
  | instantiate s instance_ => exact .setWorld p _
  | destroyInstance block => exact .setWorld p _
  | otherOpen lib h => exact .setWorld p _
  | otherClose h => exact .setWorld p _

/-! ### The Loader inside the process is the Loader -/

theorem addPlugin_world (env : Env) (hp : DlHandlePtr) (st : Process × Finset String) (info : Info CodePtr) :
    ((addPlugin env hp st info).1.world, (addPlugin env hp st info).2) =
      World.addPlugin env hp (st.1.world, st.2) info := by
  simp only [addPlugin]
  split <;> rfl

theorem addPlugins_world (env : Env) (hp : DlHandlePtr) (st : Process × Finset String)
    (infos : List (Info CodePtr)) :
    infos.foldl (World.addPlugin env hp) (st.1.world, st.2) =
      ((infos.foldl (addPlugin env hp) st).1.world, (infos.foldl (addPlugin env hp) st).2) := by
  induction infos generalizing st with
  | nil => rfl
  | cons info infos ih => rw [List.foldl_cons, ← addPlugin_world, ih]; rfl

theorem foldl_world {α : Type} {f : Process → α → Process}
    (hf : ∀ p a, (f p a).world = p.world) (l : List α) (p : Process) :
    (l.foldl f p).world = p.world := by
  induction l generalizing p with
  | nil => rfl
  | cons a l ih => exact (ih (f p a)).trans (hf p a)

theorem forgetPlugin_world (p : Process) (forget : String) :
    (p.forgetPlugin forget).world = p.world.forgetPlugin forget := by
  simp only [forgetPlugin, World.forgetPlugin]
  split
  · rfl
  split
  · rfl
  · simp only [releaseInfo_world]

theorem forgetHandle_world (p : Process) (hd : Handle) (order : List String) :
    (p.forgetHandle hd order).world = (p.world.forgetHandle hd order).2 := by
  have hfold : order.foldl World.forgetPlugin p.world = (order.foldl forgetPlugin p).world :=
    List.foldl_hom Process.world fun p forget => (forgetPlugin_world p forget).symm
  unfold forgetHandle World.forgetHandle
  cases p.world.impl.dlHandleToPluginMap.lookup hd with
  | none => rfl
  | some names =>
    simp only [hfold]
    cases (order.foldl forgetPlugin p).world.thrown <;> rfl

theorem loader_world (env : Env) (p : Process) (op : World.Op) :
    (p.loader env op).world = p.world.after env op := by
  cases op with
  | loadLib path noDelete res loadedPlugins =>
    simp only [loader, loadLib, World.after, World.loadLib]
    cases p.world.openLib env path noDelete res with
    | mk opened world =>
      cases opened with
      | none => rfl
      | some hp =>
        have hadd := addPlugins_world env hp ({ p with world := world }, ∅)
          (World.relocate hp loadedPlugins)
        simp only at hadd ⊢
        rw [hadd, foldl_world (f := destroyInfo) (fun _ _ => rfl)]
  | forgetLibrary path res order =>
    simp only [loader, forgetLibrary, World.after, World.forgetLibrary]
    cases res with
    | none => rfl
    | some hd =>
      cases env.resolve path with
      | none => rfl
      | some lib => exact forgetHandle_world _ _ _
  | forgetLibraryOfPlugin s order =>
    simp only [loader, forgetLibraryOfPlugin, World.after, World.forgetLibraryOfPlugin]
    cases p.world.impl.pluginToDlHandlePtrs.lookup (p.world.lookupPlugin env s) with
    | none => rfl
    | some hp => exact forgetHandle_world _ _ _
  | destroyLoader order =>
    simp only [loader, destroyLoader, World.after, World.destroyLoader]
    rw [foldl_world (fun _ _ => releaseInfo_world _ _)]
  | instantiate s instance_ => rfl
  | destroyInstance block => rfl
  | otherOpen lib h => rfl
  | otherClose h => rfl

/-! ### Operations that only refer -/

/-- The operation lets go of no variable and of no interface pointer, and makes no instance. -/
def Op.OnlyRefers : Op → Prop
  | .loader _ | .instantiate _ _ _ _ | .assign _ _ | .clear _ | .destroy _ | .dropShared _ => False
  | _ => True

/-- What such an operation leaves alone. The log can show that a lock failed. -/
structure Refers (p p' : Process) : Prop where
  world : p'.world = p.world
  log : p'.log = p.log ∨ p'.log = p.log ++ [.infoNull]

theorem share_refers (p : Process) (i : Nat) (instance_ : Option InstancePtr) :
    Refers p (p.share i instance_) := by
  cases instance_ with
  | none => exact ⟨rfl, Or.inl rfl⟩
  | some ptr => exact ⟨rfl, Or.inl rfl⟩

theorem lock_refers (env : Env) (p : Process) (v : Var) (weak : WeakPluginPtr) :
    Refers p (p.lock env v weak) := by
  rw [lock_eq]
  refine ⟨rfl, ?_⟩
  cases p.lockFails weak with
  | false => exact Or.inl (List.append_nil p.log)
  | true => exact Or.inr rfl

theorem after_refers (env : Env) (p : Process) {op : Op} (hop : op.OnlyRefers) :
    Refers p (p.after env op) := by
  cases op with
  | construct v specInterfaces => exact ⟨rfl, Or.inl rfl⟩
  | copyConstruct v specInterfaces u =>
    simp only [after, copyConstruct]
    split <;> exact ⟨rfl, Or.inl rfl⟩
  | queryInterfaceSharedPtr i v interface =>
    rw [after, queryInterfaceSharedPtr_eq]
    exact share_refers p i _
  | shareInstance i v =>
    rw [after, shareInstance_eq]
    exact share_refers p i _
  | assignWeak x v =>
    simp only [after, assignWeak]
    split <;> exact ⟨rfl, Or.inl rfl⟩
  | dropWeak x => exact ⟨rfl, Or.inl rfl⟩
  | lock v x =>
    simp only [after]
    split
    · exact ⟨rfl, Or.inl rfl⟩
    · exact lock_refers env p v _
  | pluginFromThis v block =>
    simp only [after]
    split
    · exact ⟨rfl, Or.inl rfl⟩
    · exact lock_refers env p v _
  | _ => exact absurd hop id

/-! ### The world takes a step of the Loader, or none -/

/-- The library that an operation loads. -/
def Op.loads (env : Env) : Op → Option LibId
  | .loader op => op.loads env
  | _ => none

theorem releaseInstance_step (env : Env) (p : Process) (instance_ : Option InstancePtr) :
    (p.releaseInstance instance_).world = p.world ∨ ∃ block,
      World.step env p.world (.destroyInstance block) =
        some (p.releaseInstance instance_).world := by
  rcases releaseInstance_cases p instance_ with ⟨he, _⟩ | ⟨ptr, i, _, _, hi, he⟩
  · rw [he]
    exact Or.inl rfl
  · rw [he]
    exact Or.inr ⟨ptr.block, World.step_eq_some.mpr ⟨Finmap.mem_of_lookup_eq_some hi, rfl⟩⟩

theorem clear_world (hl : p.plugins.lookup v = some pl) : (p.clear v).world =
    ((p.setPlugin v { pl with loadedInstancePtr := none }).releaseInstance
      pl.loadedInstancePtr).world := by
  simp [clear, hl, setPlugin]

theorem clear_step (env : Env) (p : Process) (v : Var) :
    (p.clear v).world = p.world ∨ ∃ block,
      World.step env p.world (.destroyInstance block) = some (p.clear v).world := by
  cases hl : p.plugins.lookup v with
  | none =>
    left
    simp only [clear, hl]
  | some pl =>
    rw [clear_world hl]
    exact releaseInstance_step env (p.setPlugin v _) pl.loadedInstancePtr

theorem assign_world (p : Process) (v u : Var) : (p.assign v u).world = (p.clear v).world := by
  simp only [assign]
  split <;> rfl

theorem destroy_step (env : Env) (p : Process) (v : Var) :
    (p.destroy v).world = p.world ∨ ∃ block,
      World.step env p.world (.destroyInstance block) = some (p.destroy v).world := by
  cases hl : p.plugins.lookup v with
  | none =>
    left
    simp only [destroy, hl]
  | some pl =>
    simp only [destroy, hl]
    have hworld : (((p.setPlugin v { pl with info := none }).releaseInfo pl.info).erasePlugin
        v).world = p.world := releaseInfo_world _ _
    rw [← hworld]
    exact releaseInstance_step env _ pl.loadedInstancePtr

theorem loads_of_not_onLoader {op : World.Op} (h : ¬ OnLoader op) : op.loads env = none := by
  cases op <;> first | rfl | exact absurd trivial h

/-- What a step does to the Loader and the linker is a step there, or nothing. -/
theorem step_world {op : Op} (hs : step env p op = some p') :
    p'.world = p.world ∨ ∃ o, World.step env p.world o = some p'.world ∧
      (op = .loader o ∨ ¬ OnLoader o) := by
  obtain ⟨hen, rfl⟩ := step_eq_some.mp hs
  have hrefers : op.OnlyRefers → Refers p (p.after env op) := after_refers env p
  have hend : ∀ {w : World},
      (w = p.world ∨ ∃ block, World.step env p.world (.destroyInstance block) = some w) →
      w = p.world ∨ ∃ o, World.step env p.world o = some w ∧ (op = .loader o ∨ ¬ OnLoader o) := by
    intro w hw
    rcases hw with he | ⟨block, hstep⟩
    · exact Or.inl he
    · exact Or.inr ⟨_, hstep, Or.inr id⟩
  cases op with
  | loader o =>
    refine Or.inr ⟨o, World.step_eq_some.mpr ⟨hen.2, ?_⟩, Or.inl rfl⟩
    exact (loader_world env p o).symm
  | instantiate v specInterfaces s instance_ =>
    obtain ⟨new, fromThis, he, _⟩ := instantiate_eq env p v specInterfaces s instance_
    refine Or.inr ⟨.instantiate s instance_, World.step_eq_some.mpr ⟨hen.2, ?_⟩, Or.inr id⟩
    rw [after, he]
    rfl
  | assign v u =>
    rw [after, assign_world]
    exact hend (clear_step env p v)
  | clear v => exact hend (clear_step env p v)
  | destroy v => exact hend (destroy_step env p v)
  | dropShared i => exact hend (releaseInstance_step env { p with shared := _ } _)
  | _ => exact Or.inl (hrefers trivial).world

theorem step_sound {op : Op} (h : World.Sound env p.world) (hs : step env p op = some p') :
    World.Sound env p'.world := by
  rcases step_world hs with he | ⟨o, hstep, _⟩
  · rw [he]
    exact h
  · exact (World.step_sound h hstep).1

end Process

end GzPlugin
