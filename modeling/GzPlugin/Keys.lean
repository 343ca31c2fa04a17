import GzPlugin.Custody
import GzPlugin.Possession

/-!
# PluginPtrs as keys

`Hash` and the comparisons of `PluginPtr` look at the address of the instance, so that pointers
can be kept in sets and maps. If living instances have different addresses, they tell instances
apart, and what they tell of two pointers lasts until one of the two is written.
-/

namespace GzPlugin

open FiniteMaps Runs UniquePointers

set_option autoImplicit false

namespace Plugin

/-- The control block of the instance. -/
def block (pl : Plugin) : Option Nat := pl.loadedInstancePtr.map (·.block)

theorem get_of_weak {pl other : Plugin} (h : other.weak = pl.weak) : other.get = pl.get := by
  have hinst : other.loadedInstancePtr = pl.loadedInstancePtr :=
    congrArg WeakPluginPtr.instance_ h
  rw [get, get, hinst]

end Plugin

/-- `Instantiate` hands out the address of the instance it makes. -/
theorem World.Sound.instantiate_addressed {env : Env} {w : World} (h : Sound env w) (s : String)
    (instance_ : Ptr) : ∀ ptr ∈ (w.instantiate env s instance_).1.weak.instance_,
      ptr.block < (w.instantiate env s instance_).2.next ∧
        ∀ i ∈ (w.instantiate env s instance_).2.instances.lookup ptr.block,
          i.loadedInstance = ptr.get := by
  cases h.resolution s with
  | file info hp _ _ _ hmade hworld =>
    rw [hmade, hworld]
    intro ptr hptr
    cases hptr
    refine ⟨Nat.lt_succ_self _, ?_⟩
    intro i hi
    rw [Finmap.lookup_insert] at hi
    cases hi
    rfl
  | static info _ _ _ hmade hworld =>
    rw [hmade, hworld]
    intro ptr hptr
    cases hptr
    refine ⟨Nat.lt_succ_self _, ?_⟩
    intro i hi
    rw [Finmap.lookup_insert] at hi
    cases hi
    rfl
  | stale _ _ hmade _ =>
    rw [hmade]
    intro ptr hptr
    cases hptr
  | missing _ _ hmade _ =>
    rw [hmade]
    intro ptr hptr
    cases hptr

namespace Process

variable {env : Env} {p p' : Process} {v u : Var} {pl other : Plugin}

/-- A reference to an instance that is still alive has its address. -/
def Addressed (p : Process) (weak : WeakPluginPtr) : Prop :=
  ∀ ptr ∈ weak.instance_, ptr.block < p.world.next ∧
    ∀ i ∈ p.world.instances.lookup ptr.block, i.loadedInstance = ptr.get

theorem addressed_next {op : Op} (hall : AllRefs p.Addressed p) (h : Consistent env p)
    (hs : step env p op = some p') : AllRefs p'.Addressed p' := by
  have hle := step_next_le h hs
  have hold : ∀ weak, p.Addressed weak → p'.Addressed weak := by
    intro weak hw ptr hptr
    obtain ⟨hlt, haddr⟩ := hw ptr hptr
    exact ⟨hlt.trans_le hle, fun i hi => haddr i (step_old_instance h hs hlt hi)⟩
  apply hall.next_of_instantiate h hs
  · intro ptr hptr
    cases hptr
  · exact hold
  · intro weak _ hw
    apply hold
    intro ptr hptr
    exact hw ptr (Option.filter_eq_some_iff.mp hptr).1
  · intro v specInterfaces s instance_ he
    obtain ⟨_, rfl⟩ := step_eq_some.mp hs
    rw [he]
    obtain ⟨new, fromThis, hafter, _⟩ := instantiate_eq env p v specInterfaces s instance_
    rw [after, hafter]
    exact h.sound.instantiate_addressed s instance_

/-- What the comparisons of pointers rest on. -/
structure Identified (env : Env) (p : Process) : Prop where
  genuine : Genuine env p
  addressed : AllRefs p.Addressed p

theorem init_identified (env : Env) : Identified env init := ⟨init_genuine env, init_allRefs _⟩

theorem weakStep_identified {op : WeakOp} (h : Identified env p)
    (hs : weakStep env p op = some p') : Identified env p' := by
  refine ⟨weakStep_genuine h.genuine hs, ?_⟩
  cases op with
  | plain op => exact addressed_next h.addressed h.genuine.consistent hs
  | copyWeak x y =>
    obtain ⟨w, hw, rfl⟩ := Option.map_eq_some_iff.mp hs
    refine ⟨h.addressed.plugins, ?_⟩
    intro weak hr
    rcases hr with ⟨x', hx⟩ | hthis
    · rw [lookup_insert_eq] at hx
      split at hx
      · cases hx
        exact h.addressed.recorded (Or.inl ⟨y, hw⟩)
      · exact h.addressed.recorded (Or.inl ⟨x', hx⟩)
    · exact h.addressed.recorded (Or.inr hthis)

/-- The address of an instance that is alive. -/
def address (p : Process) (block : Nat) : Option Ptr :=
  (p.world.instances.lookup block).map (·.loadedInstance)

/-- Two objects that live at the same time have different addresses. -/
def DistinctAddresses (p : Process) : Prop :=
  ∀ block ∈ p.world.instances.keys, ∀ block' ∈ p.world.instances.keys,
    p.address block = p.address block' → block = block'

instance (p : Process) : Decidable p.DistinctAddresses := by
  unfold DistinctAddresses
  infer_instance

theorem Identified.get_eq (h : Identified env p) (hl : p.plugins.lookup v = some pl)
    {ptr : InstancePtr} (hptr : pl.loadedInstancePtr = some ptr) :
    pl.get = ptr.get ∧ ptr.get ≠ 0 ∧ ptr.block ∈ p.world.instances.keys ∧
      p.address ptr.block = some ptr.get := by
  have hheld : p.InstanceHeld ptr.block := Or.inl ⟨v, pl, hl, ptr, hptr, rfl⟩
  obtain ⟨i, hi⟩ := Finmap.mem_iff.mp ((h.genuine.consistent.alive ptr.block).mpr hheld)
  refine ⟨?_, ?_, ?_, ?_⟩
  · rw [Plugin.get, hptr]
    rfl
  · exact (h.genuine.refs.plugins (ref_eq hl)).notNull hptr
  · exact Finmap.mem_keys.mpr (Finmap.mem_of_lookup_eq_some hi)
  · rw [address, hi, Option.map_some, (h.addressed.plugins (ref_eq hl) ptr hptr).2 i hi]

theorem Identified.get_eq_iff (h : Identified env p) (hd : p.DistinctAddresses)
    (hl : p.plugins.lookup v = some pl) (ho : p.plugins.lookup u = some other) :
    pl.get = other.get ↔ pl.block = other.block := by
  cases hptr : pl.loadedInstancePtr with
  | none =>
    have hget : pl.get = 0 := by simp [Plugin.get, hptr]
    cases hptr' : other.loadedInstancePtr with
    | none =>
      have hget' : other.get = 0 := by simp [Plugin.get, hptr']
      exact iff_of_true (hget.trans hget'.symm) (by simp [Plugin.block, hptr, hptr'])
    | some ptr' =>
      obtain ⟨hget', hne, _, _⟩ := h.get_eq ho hptr'
      refine iff_of_false ?_ (by simp [Plugin.block, hptr, hptr'])
      rw [hget, hget']
      exact hne.symm
  | some ptr =>
    obtain ⟨hget, hne, hmem, haddr⟩ := h.get_eq hl hptr
    cases hptr' : other.loadedInstancePtr with
    | none =>
      have hget' : other.get = 0 := by simp [Plugin.get, hptr']
      refine iff_of_false ?_ (by simp [Plugin.block, hptr, hptr'])
      rw [hget, hget']
      exact hne
    | some ptr' =>
      obtain ⟨hget', _, hmem', haddr'⟩ := h.get_eq ho hptr'
      simp only [Plugin.block, hptr, hptr', Option.map_some, Option.some.injEq]
      rw [hget, hget']
      constructor
      · intro he
        apply hd _ hmem _ hmem'
        rw [haddr, haddr', he]
      · intro hb
        rw [hb, haddr'] at haddr
        exact (Option.some.inj haddr).symm

end Process

namespace Pointers

variable {env : Env} {s s' : Pointers} {op : Op} {answer : Answer} {a b : Nat} {v u : Var}
  {pl other : Plugin}

/-! ### What is written -/

/-- The `PluginPtr` objects that an operation overwrites, moves from or ends. -/
def Op.writes : Op → List Nat
  | .copyAssign a _ | .assignNull a | .clear a | .destroy a => [a]
  | .moveConstruct _ b => [b]
  | .moveAssign a b => [a, b]
  | _ => []

theorem get_spared (hen : s.Enabled env op) (hv : s.ptrs.get a = some v) (hw : a ∉ op.writes) :
    (op.ptrs.apply s.ptrs).get a = some v := by
  have hmem : a ∈ s.ptrs := Finmap.mem_of_lookup_eq_some (Owners.get_eq_some.mp hv)
  have hmake : ∀ {c u}, c ∉ s.ptrs → (s.ptrs.make c u).get a = some v := by
    intro c u hc
    have hne : a ≠ c := fun he => hc (he ▸ hmem)
    rw [Owners.get_make, if_neg hne, hv]
  have hmove : ∀ {c b}, a ≠ c → a ≠ b → (s.ptrs.move c b).get a = some v := by
    intro c b hc hb
    rw [Owners.get_move, if_neg hc, if_neg hb, hv]
  cases op with
  | construct | copyConstruct | instantiate | pluginFromThis | lock => exact hmake hen.1
  | moveConstruct c b =>
    apply hmove
    · exact fun he => hen.1 (he ▸ hmem)
    · exact List.ne_of_not_mem_cons hw
  | moveAssign c b =>
    apply hmove
    · exact List.ne_of_not_mem_cons hw
    · exact List.ne_of_not_mem_cons (List.not_mem_of_not_mem_cons hw)
  | destroy c =>
    change (s.ptrs.drop c).get a = some v
    rw [Owners.get_drop, if_neg (List.ne_of_not_mem_cons hw), hv]
  | _ => exact hv

theorem deleteData_ref (s : Pointers) (data : Option Nat) (v : Var) :
    (s.deleteData data).process.ref v = s.process.ref v := by
  cases data with
  | none => rfl
  | some y => rfl

theorem ref_spared (hO : s.Owned) (hen : s.Enabled env op)
    (hexec : s.exec env op = some (answer, s')) (hv : s.ptrs.get a = some v)
    (hw : a ∉ op.writes) : s'.process.ref v = s.process.ref v := by
  have hlive : v ∈ s.process.plugins := hO.ptrs.lives hv
  have hnone : (none : Option Var) ≠ some v := (Option.some_ne_none v).symm
  have hstep : ∀ {o p}, Process.step env s.process o = some p → o.overwrites ≠ some v →
      p.ref v = s.process.ref v := fun hs ho => Process.step_ref hs hlive ho
  -- the wrapper of another object is another wrapper
  have hother : ∀ {c u}, s.ptrs.get c = some u → a ≠ c → some u ≠ some v := by
    intro c u hu hne he
    cases he
    exact hne (hO.ptrs.exclusive hv hu)
  have hdelete : ∀ {ptrs r}, r ≠ some v → (∀ u, r = some u → u ∈ s.process.plugins) →
      ({ s with ptrs := ptrs }.deleteWrapper r).process.ref v = s.process.ref v := by
    intro ptrs r hne hr
    cases r with
    | none => rfl
    | some u => exact hstep (o := .destroy u) (if_pos (hr u rfl)) hne
  cases op with
  | through o =>
    cases hexec
    apply hstep (if_pos hen.2)
    cases o with
    | loader | queryInterfaceSharedPtr | shareInstance | dropShared => exact hnone
    | _ => exact absurd hen.1 id
  | construct c u specInterfaces =>
    cases hexec
    exact hstep (o := .construct u specInterfaces) (if_pos hen.2) hnone
  | copyConstruct c u specInterfaces b =>
    obtain ⟨w, hw', he⟩ := Option.bind_eq_some_iff.mp (map_nothing_eq_some hexec)
    cases he
    have hen' : s.process.Enabled env (.copyConstruct u specInterfaces w) :=
      ⟨hen.2.1, (deref_eq_some.mp hw').2⟩
    exact hstep (if_pos hen') hnone
  | instantiate c u specInterfaces name instance_ =>
    cases hexec
    exact hstep (o := .instantiate u specInterfaces name instance_) (if_pos hen.2) hnone
  | pluginFromThis c u block =>
    cases hexec
    exact hstep (o := .pluginFromThis u block) (if_pos hen.2) hnone
  | lock c u x =>
    obtain ⟨weak, hw', he⟩ := Option.bind_eq_some_iff.mp (map_nothing_eq_some hexec)
    obtain ⟨y, _, hl⟩ := data_eq_some.mp hw'
    cases he
    exact hstep (lock_step hen.2.1 hl) hnone
  | copyAssign c b =>
    obtain ⟨w, hw', hexec⟩ := Option.bind_eq_some_iff.mp (map_nothing_eq_some hexec)
    obtain ⟨u, hu, he⟩ := Option.bind_eq_some_iff.mp hexec
    cases he
    obtain ⟨hget, hmem⟩ := deref_eq_some.mp hw'
    have hen' : s.process.Enabled env (.assign w u) := ⟨hmem, (deref_eq_some.mp hu).2⟩
    exact hstep (if_pos hen') (hother hget (List.ne_of_not_mem_cons hw))
  | assignNull c | clear c =>
    obtain ⟨w, hw', he⟩ := Option.bind_eq_some_iff.mp (map_nothing_eq_some hexec)
    cases he
    obtain ⟨hget, hmem⟩ := deref_eq_some.mp hw'
    have hen' : s.process.Enabled env (.clear w) := hmem
    exact hstep (if_pos hen') (hother hget (List.ne_of_not_mem_cons hw))
  | moveAssign c b =>
    cases hexec
    apply hdelete
    · rw [Owners.replaced_eq]
      split
      · exact hnone
      · intro hget
        exact List.ne_of_not_mem_cons hw (hO.ptrs.exclusive hv hget)
    · exact fun u hu => hO.ptrs.mem_of_deleted (t := .move c b) hu
  | destroy c =>
    cases hexec
    apply hdelete
    · intro hget
      exact List.ne_of_not_mem_cons hw (hO.ptrs.exclusive hv hget)
    · exact fun u hu => hO.ptrs.lives hu
  | moveConstruct | weakConstruct | weakMoveConstruct =>
    cases hexec
    rfl
  | isEmpty | toBool | hash | compare | isExpired => rw [map_same_eq_some hexec]
  | weakMoveAssign | weakDestroy =>
    cases hexec
    exact deleteData_ref _ _ _
  | weakCopyConstruct | weakFromPlugin =>
    obtain ⟨_, _, he⟩ := Option.bind_eq_some_iff.mp (map_nothing_eq_some hexec)
    cases he
    rfl
  | weakCopyAssign | weakAssign =>
    obtain ⟨_, _, hexec⟩ := Option.bind_eq_some_iff.mp (map_nothing_eq_some hexec)
    obtain ⟨_, _, he⟩ := Option.bind_eq_some_iff.mp hexec
    cases he
    rfl

/-! ### What comparisons tell -/

/-- What `Hash` and the comparisons tell of two objects that had the wrappers `pl` and `other`. -/
structure Tells (t : Pointers) (a b : Nat) (pl other : Plugin) : Prop where
  hash : t.hash a = some pl.get ∧ t.hash b = some other.get
  compare : ∀ op, t.compare op a b = some (op.holds pl.get other.get)
  /-- Both refer to one instance, or both to none. -/
  same : t.compare .eq a b = some true ↔ pl.block = other.block

/-- The object still has a wrapper for the instance of `pl`. -/
def Refers (t : Pointers) (a : Nat) (pl : Plugin) : Prop :=
  ∃ v, t.ptrs.get a = some v ∧ t.process.ref v = some pl.weak

theorem refers_of_wrapper (h : s.wrapper a = some pl) : s.Refers a pl := by
  obtain ⟨v, hv, hl⟩ := wrapper_eq_some.mp h
  exact ⟨v, hv, Process.ref_eq hl⟩

theorem Refers.wrapper (h : s.Refers a pl) :
    ∃ now, s.wrapper a = some now ∧ now.get = pl.get := by
  obtain ⟨v, hv, href⟩ := h
  obtain ⟨now, hl, hweak⟩ := Option.map_eq_some_iff.mp href
  exact ⟨now, wrapper_eq_some.mpr ⟨v, hv, hl⟩, Plugin.get_of_weak hweak⟩

theorem Refers.next (h : s.Refers a pl) (hO : s.Owned) (hw : a ∉ op.writes)
    (hs : step env s op = some s') : s'.Refers a pl := by
  obtain ⟨v, hv, href⟩ := h
  obtain ⟨_, hen, ⟨_, rfl⟩ | ⟨answer, hexec⟩⟩ := step_cases hs
  · exact ⟨v, hv, href⟩
  · refine ⟨v, ?_, ?_⟩
    · rw [(exec_effect hO hen hexec).ptrs]
      exact get_spared hen hv hw
    · rw [ref_spared hO hen hexec hv hw, href]

theorem Refers.tells (ha : s.Refers a pl) (hb : s.Refers b other)
    (hsame : pl.get = other.get ↔ pl.block = other.block) : s.Tells a b pl other := by
  obtain ⟨p, hp, hget⟩ := ha.wrapper
  obtain ⟨q, hq, hget'⟩ := hb.wrapper
  have hcompare : ∀ op, s.compare op a b = some (op.holds pl.get other.get) := by
    intro op
    simp only [compare, hp, hq, hget, hget', Option.bind_eq_bind, Option.bind_some,
      Option.pure_def]
  refine ⟨⟨?_, ?_⟩, hcompare, ?_⟩
  · rw [hash, hp, Option.map_some, hget]
  · rw [hash, hq, Option.map_some, hget']
  · rw [hcompare, ← hsame]
    simp [Comparison.holds]

/-- `PluginPtr`s can be kept in sets and maps: if living objects have different addresses, two
pointers that were not moved from are equal exactly if they refer to the same instance, and in
every later run that writes neither of them their hashes and comparisons stay the same. -/
theorem tells_of_spared (env : Env) (h : Reachable (step env) init s)
    (hd : s.process.DistinctAddresses) (ha : s.wrapper a = some pl)
    (hb : s.wrapper b = some other) {l : List (Op × Pointers)} (hrun : Run (step env) s l)
    (hspares : Steps (fun _ op => a ∉ op.writes ∧ b ∉ op.writes) s l) :
    States (fun t => t.Tells a b pl other) s l := by
  obtain ⟨hO, hprocess⟩ := reachable_process h
  have hidentified : Process.Identified env s.process :=
    hprocess.invariant (Process.init_identified env) Process.weakStep_identified
  obtain ⟨v, _, hl⟩ := wrapper_eq_some.mp ha
  obtain ⟨u, _, ho⟩ := wrapper_eq_some.mp hb
  have hsame := hidentified.get_eq_iff hd hl ho
  have hstates : States (fun t => t.Owned ∧ t.Refers a pl ∧ t.Refers b other) s l := by
    apply hrun.states hspares ⟨hO, refers_of_wrapper ha, refers_of_wrapper hb⟩
    intro t op t' hw hI hs
    obtain ⟨hO, hra, hrb⟩ := hI
    exact ⟨(step_owned hO hs).1, hra.next hO hw.1 hs, hrb.next hO hw.2 hs⟩
  refine hstates.imp ?_
  intro t hI
  exact hI.2.1.tells hI.2.2 hsame

/-- Two instances, and a copy of the pointer to the first one. -/
def threePointers : List Op :=
  [.through (.loader (.loadLib "a" false ⟨some 1, false⟩ [pluginOf "p" p_ne ["I"] ["x"]])),
    .instantiate 0 0 [] "p" 7, .instantiate 1 1 [] "p" 9, .copyConstruct 2 2 [] 0]

def afterThreePointers : Pointers := last init (history (step sharedName) init threePointers)

/-- The library is forgotten, and the copy is moved and goes away. -/
theorem tells_threePointers : ∃ pl other, pl.block ≠ other.block ∧
    States (fun t => t.Tells 0 1 pl other) afterThreePointers
      (history (step sharedName) afterThreePointers
        [.through (.loader (.forgetLibrary "a" (some 1) ["p"])), .moveConstruct 3 2,
          .destroy 3]) :=
  ⟨_, _, by decide,
    tells_of_spared sharedName ⟨_, history_run (step sharedName) init threePointers, rfl⟩
      (by decide) rfl rfl (history_run _ _ _) (by decide)⟩

end Pointers

end GzPlugin
