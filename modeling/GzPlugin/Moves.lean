import GzPlugin.Possession

/-!
# Moved-from pointers

A moved-from `PluginPtr` or `WeakPluginPtr` is left without what nearly all of its member
functions dereference. The runs are determined in which every operation nevertheless does
what it should.
-/

namespace GzPlugin

open FiniteMaps Runs UniquePointers

set_option autoImplicit false

namespace Pointers

/-- The objects that were moved from, or took over from such an object, and were not
constructed or moved to since. -/
structure Hollow where
  ptrs : Finset Nat
  weakPtrs : Finset Nat

def Hollow.next (_ : Pointers) (h : Hollow) (op : Op) : Hollow :=
  ⟨op.ptrs.hollow h.ptrs, op.weakPtrs.hollow h.weakPtrs⟩

/-- The `PluginPtr` objects that an operation reads or changes by their wrapper. -/
def Op.uses : Op → List Nat
  | .copyConstruct _ _ _ b => [b]
  | .copyAssign a b | .compare _ a b => [a, b]
  | .assignNull a | .clear a | .isEmpty a | .toBool a | .hash a => [a]
  | .weakFromPlugin _ _ a | .weakAssign _ a => [a]
  | _ => []

/-- The same of `WeakPluginPtr` objects. -/
def Op.usesWeak : Op → List Nat
  | .weakCopyConstruct _ _ z => [z]
  | .weakCopyAssign x z => [x, z]
  | .weakAssign x _ | .lock _ _ x | .isExpired x => [x]
  | _ => []

/-- Hollow objects are only moved, moved to and destroyed. -/
def SparesHollow (st : Pointers × Hollow) (op : Op) : Prop :=
  (∀ a ∈ op.uses, a ∉ st.2.ptrs) ∧ ∀ x ∈ op.usesWeak, x ∉ st.2.weakPtrs

instance (st : Pointers × Hollow) (op : Op) : Decidable (SparesHollow st op) := by
  unfold SparesHollow; infer_instance

/-- What can be seen of an object; a hollow one should look empty. -/
def shown (st : Pointers × Hollow) (a : Nat) : Plugin :=
  if a ∈ st.2.ptrs then .empty else (st.1.wrapper a).getD .empty

def shownWeak (st : Pointers × Hollow) (x : Nat) : WeakPluginPtr :=
  if x ∈ st.2.weakPtrs then ⟨none, none⟩ else (st.1.data x).getD ⟨none, none⟩

def expected (st : Pointers × Hollow) : Op → Answer
  | .isEmpty a => .bool (shown st a).isEmpty
  | .toBool a => .bool !(shown st a).isEmpty
  | .hash a => .hash (shown st a).get
  | .compare op a b => .bool (op.holds (shown st a).get (shown st b).get)
  | .isExpired x => .bool (st.1.process.isExpired (shownWeak st x))
  | _ => .nothing

/-- The operation dereferences no null pointer, and answers as it should. -/
def Usable (env : Env) (st : Pointers × Hollow) (op : Op) : Prop :=
  ∃ s', st.1.exec env op = some (expected st op, s')

variable {env : Env} {s s' : Pointers} {st st' : Pointers × Hollow} {op : Op} {answer : Answer}
  {a x : Nat} {pl : Plugin} {weak : WeakPluginPtr}

/-- The hollow objects are those with a null pointer. -/
structure Followed (st : Pointers × Hollow) : Prop where
  owned : st.1.Owned
  ptrs : Tracks st.1.ptrs st.2.ptrs
  weakPtrs : Tracks st.1.weakPtrs st.2.weakPtrs

theorem init_followed : Followed (init, ⟨∅, ∅⟩) := ⟨init_owned, .empty, .empty⟩

/-! ### One operation -/

theorem isSome_deref (s : Pointers) (a : Nat) : (s.deref a).isSome = (s.wrapper a).isSome := by
  unfold wrapper
  cases hv : s.deref a with
  | none => rfl
  | some v => exact (Finmap.lookup_isSome.mpr (deref_eq_some.mp hv).2).symm

theorem isSome_derefWeak (s : Pointers) (x : Nat) :
    (s.derefWeak x).isSome = (s.data x).isSome := by
  unfold data
  cases hy : s.derefWeak x with
  | none => rfl
  | some y => exact (Finmap.lookup_isSome.mpr (derefWeak_eq_some.mp hy).2).symm

theorem isSome_bind_some {α β : Type} (o : Option α) (f : α → β) :
    (o.bind fun u => some (f u)).isSome = o.isSome := by
  cases o <;> rfl

theorem isSome_bind_bind {α β γ : Type} (o : Option α) (o' : Option β) (f : α → β → γ) :
    (o.bind fun u => o'.bind fun u' => some (f u u')).isSome = (o.isSome && o'.isSome) := by
  cases o <;> cases o' <;> rfl

/-- An operation crashes exactly if it needs what is not there. -/
theorem exec_isSome (s : Pointers) (op : Op) : (s.exec env op).isSome ↔
    (∀ a ∈ op.uses, (s.wrapper a).isSome) ∧ ∀ x ∈ op.usesWeak, (s.data x).isSome := by
  cases op with
  | copyConstruct | assignNull | clear =>
    simp [exec, Op.uses, Op.usesWeak, copyConstruct, assignNull, clear, isSome_bind_some,
      isSome_deref]
  | copyAssign | compare =>
    simp [exec, Op.uses, Op.usesWeak, copyAssign, compare, isSome_bind_bind, isSome_deref]
  | isEmpty | toBool | hash | isExpired =>
    simp [exec, Op.uses, Op.usesWeak, isEmpty, toBool, hash, isExpired]
  | weakCopyConstruct | weakFromPlugin | lock =>
    simp [exec, Op.uses, Op.usesWeak, weakCopyConstruct, weakFromPlugin, lock, isSome_bind_some]
  | weakCopyAssign | weakAssign =>
    simp [exec, Op.uses, Op.usesWeak, weakCopyAssign, weakAssign, isSome_bind_bind,
      isSome_derefWeak, and_comm]
  | _ => simp [exec, Op.uses, Op.usesWeak]

theorem Enabled.uses (hen : s.Enabled env op) :
    (∀ a ∈ op.uses, a ∈ s.ptrs) ∧ ∀ x ∈ op.usesWeak, x ∈ s.weakPtrs := by
  cases op <;> simp_all [Enabled, Op.uses, Op.usesWeak]

theorem Followed.isSome_wrapper (h : Followed st) (ha : a ∈ st.1.ptrs) :
    (st.1.wrapper a).isSome ↔ a ∉ st.2.ptrs := by
  rw [h.ptrs.not_mem_iff ha, ← isSome_deref, Option.isSome_iff_exists]
  refine exists_congr fun v => ?_
  rw [deref_eq_some]
  exact ⟨fun hv => hv.1, fun hv => ⟨hv, h.owned.ptrs.lives hv⟩⟩

theorem Followed.isSome_data (h : Followed st) (hx : x ∈ st.1.weakPtrs) :
    (st.1.data x).isSome ↔ x ∉ st.2.weakPtrs := by
  rw [h.weakPtrs.not_mem_iff hx, ← isSome_derefWeak, Option.isSome_iff_exists]
  refine exists_congr fun y => ?_
  rw [derefWeak_eq_some]
  exact ⟨fun hy => hy.1, fun hy => ⟨hy, h.owned.weakPtrs.lives hy⟩⟩

theorem Followed.exec_isSome_iff (h : Followed st) (hen : st.1.Enabled env op) :
    (st.1.exec env op).isSome ↔ SparesHollow st op := by
  rw [exec_isSome]
  refine and_congr ?_ ?_
  · exact forall₂_congr fun a ha => h.isSome_wrapper (hen.uses.1 a ha)
  · exact forall₂_congr fun x hx => h.isSome_data (hen.uses.2 x hx)

theorem Followed.shown_eq (h : Followed st) (hw : st.1.wrapper a = some pl) :
    shown st a = pl := by
  obtain ⟨v, hv, _⟩ := wrapper_eq_some.mp hw
  have hmem : a ∈ st.1.ptrs := Finmap.mem_of_lookup_eq_some (Owners.get_eq_some.mp hv)
  rw [shown, if_neg ((h.ptrs.not_mem_iff hmem).mpr ⟨v, hv⟩), hw, Option.getD_some]

theorem Followed.shownWeak_eq (h : Followed st) (hw : st.1.data x = some weak) :
    shownWeak st x = weak := by
  obtain ⟨y, hy, _⟩ := data_eq_some.mp hw
  have hmem : x ∈ st.1.weakPtrs := Finmap.mem_of_lookup_eq_some (Owners.get_eq_some.mp hy)
  rw [shownWeak, if_neg ((h.weakPtrs.not_mem_iff hmem).mpr ⟨y, hy⟩), hw, Option.getD_some]

theorem Followed.answer_eq (h : Followed st) (hexec : st.1.exec env op = some (answer, s')) :
    answer = expected st op := by
  cases op with
  | isEmpty a =>
    obtain ⟨b, hb, he⟩ := Option.map_eq_some_iff.mp hexec
    obtain ⟨pl, hp, rfl⟩ := Option.map_eq_some_iff.mp hb
    cases he
    rw [expected, h.shown_eq hp]
  | toBool a =>
    obtain ⟨b, hb, he⟩ := Option.map_eq_some_iff.mp hexec
    obtain ⟨empty, hempty, rfl⟩ := Option.map_eq_some_iff.mp hb
    obtain ⟨pl, hp, rfl⟩ := Option.map_eq_some_iff.mp hempty
    cases he
    rw [expected, h.shown_eq hp]
  | hash a =>
    obtain ⟨ptr, hptr, he⟩ := Option.map_eq_some_iff.mp hexec
    obtain ⟨pl, hp, rfl⟩ := Option.map_eq_some_iff.mp hptr
    cases he
    rw [expected, h.shown_eq hp]
  | compare op a b =>
    obtain ⟨_, hb, he⟩ := Option.map_eq_some_iff.mp hexec
    obtain ⟨pl, hp, hb⟩ := Option.bind_eq_some_iff.mp hb
    obtain ⟨other, ho, hb⟩ := Option.bind_eq_some_iff.mp hb
    cases hb
    cases he
    rw [expected, h.shown_eq hp, h.shown_eq ho]
  | isExpired x =>
    obtain ⟨b, hb, he⟩ := Option.map_eq_some_iff.mp hexec
    obtain ⟨weak, hw, rfl⟩ := Option.map_eq_some_iff.mp hb
    cases he
    rw [expected, h.shownWeak_eq hw]
  | copyConstruct | copyAssign | assignNull | clear | weakCopyConstruct | weakFromPlugin
  | weakCopyAssign | weakAssign | lock =>
    obtain ⟨_, _, he⟩ := Option.map_eq_some_iff.mp hexec
    cases he
    rfl
  | _ =>
    cases hexec
    rfl

theorem Followed.usable_iff (h : Followed st) (hen : st.1.Enabled env op) :
    Usable env st op ↔ SparesHollow st op := by
  rw [← h.exec_isSome_iff hen, Option.isSome_iff_exists]
  constructor
  · rintro ⟨s', hs'⟩
    exact ⟨_, hs'⟩
  · rintro ⟨⟨answer, s'⟩, hexec⟩
    exact ⟨s', by rw [← h.answer_eq hexec, hexec]⟩

theorem Followed.next (h : Followed st) (hspares : SparesHollow st op)
    (hs : lockstep (step env) Hollow.next st op = some st') : Followed st' := by
  obtain ⟨hs, hnext⟩ := lockstep_eq_some.mp hs
  obtain ⟨_, hen, ⟨hnone, _⟩ | ⟨answer, hexec⟩⟩ := step_cases hs
  · have hsome := (h.exec_isSome_iff hen).mpr hspares
    rw [hnone] at hsome
    cases hsome
  · have heffect := exec_effect h.owned hen hexec
    refine ⟨heffect.owned h.owned hen, ?_, ?_⟩
    · rw [hnext, heffect.ptrs]
      exact h.ptrs.apply hen.valid.1
    · rw [hnext, heffect.weakPtrs]
      exact h.weakPtrs.apply hen.valid.2

/-- The runs in which every operation does what it should are those that leave moved-from
objects alone, except for moving, moving to and destroying them. -/
theorem usable_iff_sparesHollow (env : Env) {l : List (Op × Pointers × Hollow)}
    (hrun : Run (lockstep (step env) Hollow.next) (init, ⟨∅, ∅⟩) l) :
    Steps (Usable env) (init, ⟨∅, ∅⟩) l ↔ Steps SparesHollow (init, ⟨∅, ∅⟩) l := by
  refine hrun.steps_iff init_followed (fun h hspares hs => h.next hspares hs) fun h hs => ?_
  exact h.usable_iff (step_cases (lockstep_eq_some.mp hs).1).2.1

/-- An object is moved from and later moved to, and another one is destroyed hollow. -/
def moveBack : List Op :=
  [.through (.loader (.loadLib "a" false ⟨some 1, false⟩ [pluginOf "p" p_ne ["I"] ["x"]])),
    .instantiate 0 0 [] "p" 7, .moveConstruct 1 0, .isEmpty 1, .moveAssign 0 1, .isEmpty 0,
    .destroy 1, .weakFromPlugin 0 0 0, .weakMoveConstruct 1 0, .isExpired 1, .weakMoveAssign 0 1,
    .isExpired 0]

theorem usable_moveBack : Steps (Usable sharedName) (init, ⟨∅, ∅⟩)
    (history (lockstep (step sharedName) Hollow.next) (init, ⟨∅, ∅⟩) moveBack) :=
  (usable_iff_sparesHollow sharedName (history_run _ _ moveBack)).mpr (by decide)

/-- `IsEmpty` of a moved-from `PluginPtr` dereferences a null pointer. -/
theorem not_usable_movedFrom : ¬ ∀ l,
    Run (lockstep (step sharedName) Hollow.next) (init, ⟨∅, ∅⟩) l →
      Steps (Usable sharedName) (init, ⟨∅, ∅⟩) l := by
  intro h
  have husable := h _ (history_run (lockstep (step sharedName) Hollow.next) (init, ⟨∅, ∅⟩)
    [.construct 0 0 [], .moveConstruct 1 0, .isEmpty 0])
  obtain ⟨_, hexec⟩ := husable.2.2.1
  exact absurd (Option.isSome_of_mem hexec) (by decide)

end Pointers

end GzPlugin
