import GzPlugin.LostProducts
import GzPlugin.Sharing

/-!
# What keeps a library open

A library that the Loader opened stays open as long as one of its plugins is registered with
it, and as long as somebody has an instance that was made from it: a `PluginPtr`, an interface
pointer, a product of a factory with its deleter, or the list of lost products. Nothing else
keeps it.
-/

namespace GzPlugin

open FiniteMaps Runs

set_option autoImplicit false

/-! ### A Loader alone -/

namespace Loaders

variable {env : Env} {w w' : World} {h : Handle}

/-- A process with no other Loader. -/
def single (w : World) : Loaders := init.put 0 w

theorem single_lookup (w : World) : (single w).loaders.lookup 0 =
    some ⟨w.impl, w.alive, w.instances, w.locals, w.thrown⟩ := by
  rw [single, put_lookup, if_pos rfl]

theorem put_single (w w' : World) : (single w).put 0 w' = single w' := by
  simp only [single, put, init, Finmap.insert_insert]

theorem mem_holders_single {i : Nat} : i ∈ (single w).holders h ↔ i = 0 ∧ w.Keeps h := by
  rw [mem_holders]
  constructor
  · rintro ⟨l, hl, hk⟩
    rw [single, put_lookup] at hl
    split at hl
    · rename_i hi
      cases hl
      exact ⟨hi, hk⟩
    · cases hl
  · rintro ⟨rfl, hk⟩
    exact ⟨_, single_lookup w, hk⟩

theorem single_shared_init (env : Env) : Shared env (single World.init) :=
  (init_shared env).construct Finmap.notMem_empty

theorem Shared.single_next {op : World.Op} (hS : Shared env (single w))
    (hpair : Traced.Paired .init op) (hs : World.step env w op = some w') :
    Shared env (single w') := by
  have hact : op.OfLoader → Shared env (single w') := by
    intro hop
    rw [← put_single w w']
    exact hS.act hop hpair (single_lookup w) hs
  obtain ⟨hen, rfl⟩ := World.step_eq_some.mp hs
  cases op with
  | otherOpen lib hd =>
    have hpaired : (single w).Paired (.otherOpen lib hd) := trivial
    exact hS.next hpaired (if_pos hen)
  | otherClose hd =>
    have hpaired : (single w).Paired (.otherClose hd) := trivial
    exact hS.next hpaired (if_pos hen)
  | _ => exact hact trivial

end Loaders

/-! ### What an operation does to the world -/

namespace Process

variable {env : Env} {p p' : Process}

theorem dropShared_step (env : Env) (p : Process) (i : Nat) :
    p.dropShared i = p ∨ step env p (.dropShared i) = some (p.dropShared i) := by
  by_cases hi : i ∈ p.shared
  · exact Or.inr (step_eq_some.mpr ⟨hi, rfl⟩)
  · left
    have hsame : p.shared.erase i = p.shared := erase_of_not_mem hi
    rw [dropShared, Finmap.lookup_eq_none.mpr hi, hsame]
    rfl

end Process

namespace Products

variable {env : Env} {s s' : Products} {op : Op}

/-- An operation of the products is made of steps of the process and of copies of references.
Only an operation on the Loader is passed on as it is. -/
theorem step_process {P : Process → Prop} (hs : step env s op = some s') (h : P s.process)
    (hstep : ∀ {p o p'}, P p → Process.step env p o = some p' →
      (∀ o', o = .loader o' → op = .process o ∧ p = s.process) → P p')
    (hshare : ∀ {k i}, k ∉ s.process.shared →
      P (s.process.share k (s.process.shared.lookup i))) : P s'.process := by
  obtain ⟨hs, _⟩ := Option.filter_eq_some_iff.mp hs
  have hdrop : ∀ {p}, P p → ∀ i, P (p.dropShared i) := by
    intro p hp i
    rcases Process.dropShared_step env p i with he | hd
    · rw [he]
      exact hp
    · apply hstep hp hd
      intro o' he
      cases he
  have hdrops : ∀ {s : Products}, P s.process → ∀ r, P (s.drop r).process := by
    intro s hp r
    cases r with
    | none => exact hp
    | some i => exact hdrop hp i
  have hrun : ∀ {o t}, s.run env o = some t → (∀ o', o ≠ .loader o') → P t.process := by
    intro o t ht ho
    obtain ⟨p, hp, rfl⟩ := Option.map_eq_some_iff.mp ht
    exact hstep h hp fun o' he => absurd he (ho o')
  cases op with
  | process o =>
    simp only [after, Option.ite_none_right_eq_some] at hs
    obtain ⟨p, hp, rfl⟩ := Option.map_eq_some_iff.mp hs.2
    exact hstep h hp fun _ _ => ⟨rfl, rfl⟩
  | construct factory =>
    simp only [after, Option.ite_none_right_eq_some, Option.some.injEq] at hs
    rw [← hs.2]
    exact h
  | lockThis q t =>
    obtain ⟨product, _, hs⟩ := Option.bind_eq_some_iff.mp hs
    split at hs
    · obtain ⟨s₁, ht, rfl⟩ := Option.map_eq_some_iff.mp hs
      have hlock : ∀ o', lockThis s.process product.factory t ≠ .loader o' := by
        intro o' he
        unfold lockThis at he
        split at he
        · cases he
        · split at he <;> cases he
      have hp : P s₁.process := hrun ht hlock
      exact hp
    · cases hs
  | assignReference q i =>
    obtain ⟨product, _, hs⟩ := Option.bind_eq_some_iff.mp hs
    split at hs
    · obtain ⟨s₁, ht, rfl⟩ := Option.map_eq_some_iff.mp hs
      have hp : P s₁.process := hrun ht fun _ => Process.Op.noConfusion
      exact hp
    · cases hs
  | returnProduct q =>
    obtain ⟨product, _, hs⟩ := Option.bind_eq_some_iff.mp hs
    split at hs
    · obtain ⟨p, hp, rfl⟩ := Option.map_eq_some_iff.mp hs
      apply hstep h hp
      intro o' he
      cases he
    · cases hs
  | productDeleter q =>
    obtain ⟨product, _, hs⟩ := Option.bind_eq_some_iff.mp hs
    split at hs <;> cases hs
    exact h
  | delete q =>
    obtain ⟨product, _, hs⟩ := Option.bind_eq_some_iff.mp hs
    split at hs <;> cases hs
    exact h
  | destroyCounter q k =>
    obtain ⟨product, _, hs⟩ := Option.bind_eq_some_iff.mp hs
    split at hs
    · split at hs
      · cases hs
      · rename_i hk
        cases hs
        cases hr : product.factoryPluginInstancePtr with
        | none => exact h
        | some i => exact hshare hk
    · cases hs
  | destroyMembers q =>
    obtain ⟨product, _, hs⟩ := Option.bind_eq_some_iff.mp hs
    split at hs <;> cases hs
    · exact hdrops (s := s.setProduct q _) h _
    · exact hdrops (s := s.eraseProduct q) h _
  | dropLocal q =>
    obtain ⟨product, _, hs⟩ := Option.bind_eq_some_iff.mp hs
    split at hs <;> cases hs
    exact hdrops (s := s.eraseProduct q) h _
  | cleanupLostProducts =>
    cases hs
    have hall : ∀ (keys : List Nat) {p}, P p → P (keys.foldl Process.dropShared p) := by
      intro keys
      induction keys with
      | nil => exact fun hp => hp
      | cons i keys ih => exact fun hp => ih (hdrop hp i)
    exact hall s.lostProducts h

/-! ### Who keeps an instance alive -/

/-- What can keep an instance alive. -/
inductive Keeper where
  | plugin (v : Var)
  | pointer (i : Nat)
  /-- A product, or the `ProductDeleter` that deletes it. -/
  | product (q : Nat)
  | lost (n : Nat)

/-- The control block that a reference is for. -/
def blockOf (s : Products) (r : Option Nat) : Option Nat :=
  (r.bind fun i => s.process.shared.lookup i).map (·.block)

/-- The instance that a keeper keeps alive. The references of products and of the list of lost
products are not counted as interface pointers. -/
def keeps (s : Products) : Keeper → Option Nat
  | .plugin v => (s.process.instanceOf v).map (·.block)
  | .pointer i => if s.Owned i then none else s.blockOf (some i)
  | .product q => s.blockOf (s.ref (.product q))
  | .lost n => s.blockOf (s.ref (.lost n))

variable {l : Ledger} {block : Nat} {h : Handle}

theorem blockOf_eq_some {r : Option Nat} : s.blockOf r = some block ↔
    ∃ i ptr, r = some i ∧ s.process.shared.lookup i = some ptr ∧ ptr.block = block := by
  rw [blockOf, Option.map_eq_some_iff]
  constructor
  · intro hr
    obtain ⟨ptr, hptr, hb⟩ := hr
    obtain ⟨i, hi, hl⟩ := Option.bind_eq_some_iff.mp hptr
    exact ⟨i, ptr, hi, hl, hb⟩
  · intro hr
    obtain ⟨i, ptr, hi, hl, hb⟩ := hr
    exact ⟨ptr, Option.bind_eq_some_iff.mpr ⟨i, hi, hl⟩, hb⟩

theorem Accounts.alive_iff (ha : Accounts env s l) :
    block ∈ s.process.world.instances ↔ ∃ k, s.keeps k = some block := by
  rw [ha.consistent.alive block]
  constructor
  · intro hheld
    rcases hheld with ⟨v, pl, hl, ptr, hptr, hb⟩ | ⟨i, ptr, hl, hb⟩
    · refine ⟨.plugin v, Option.map_eq_some_iff.mpr ⟨ptr, ?_, hb⟩⟩
      exact Option.bind_eq_some_iff.mpr ⟨pl, hl, hptr⟩
    · have href : s.blockOf (some i) = some block := blockOf_eq_some.mpr ⟨i, ptr, rfl, hl, hb⟩
      by_cases howned : s.Owned i
      · obtain ⟨o, ho⟩ := ha.owned_iff.mp howned
        rw [← ho] at href
        cases o with
        | product q => exact ⟨.product q, href⟩
        | lost n => exact ⟨.lost n, href⟩
      · exact ⟨.pointer i, (if_neg howned).trans href⟩
  · intro hk
    obtain ⟨k, hk⟩ := hk
    have hshared : ∀ r, s.blockOf r = some block → s.process.InstanceHeld block := by
      intro r hr
      obtain ⟨i, ptr, _, hl, hb⟩ := blockOf_eq_some.mp hr
      exact Or.inr ⟨i, ptr, hl, hb⟩
    cases k with
    | plugin v =>
      obtain ⟨ptr, hptr, hb⟩ := Option.map_eq_some_iff.mp hk
      obtain ⟨pl, hl, hinst⟩ := Option.bind_eq_some_iff.mp hptr
      exact Or.inl ⟨v, pl, hl, ptr, hinst, hb⟩
    | pointer i =>
      simp only [keeps] at hk
      split at hk
      · cases hk
      · exact hshared _ hk
    | product q => exact hshared _ hk
    | lost n => exact hshared _ hk

/-! ### Who needs a library -/

/-- The Loader has a plugin registered with the handle, or somebody keeps an instance alive
that was made from the library behind it. -/
def Needs (s : Products) (h : Handle) : Prop :=
  Has (fun _ hp => hp.handle = h) s.process.world.impl.pluginToDlHandlePtrs ∨
    ∃ k block i, s.keeps k = some block ∧ s.process.world.instances.lookup block = some i ∧
      ∃ hp ∈ i.dlHandlePtr, hp.handle = h

theorem Accounts.keeps_iff (ha : Accounts env s l) : s.process.world.Keeps h ↔ s.Needs h := by
  unfold World.Keeps Needs
  rw [ha.consistent.sound.locals]
  refine or_congr_right ?_
  constructor
  · intro hk
    rcases hk with ⟨block, i, hi, hhp⟩ | ⟨hp, hmem, _⟩
    · obtain ⟨k, hk⟩ := ha.alive_iff.mp (Finmap.mem_of_lookup_eq_some hi)
      exact ⟨k, block, i, hk, hi, hhp⟩
    · cases hmem
  · intro hn
    obtain ⟨_, block, i, _, hi, hhp⟩ := hn
    exact Or.inl ⟨block, i, hi, hhp⟩

/-- `dlerror` reports an error exactly if `dlopen` returned no handle. -/
def Paired (_ : Products) : Op → Prop
  | .process (.loader op) => Traced.Paired .init op
  | _ => True

instance (s : Products) (op : Op) : Decidable (s.Paired op) := by
  unfold Paired
  split <;> infer_instance

/-- What is left open is needed, and what is needed is left open. -/
structure OpenAsNeeded (s : Products) : Prop where
  alive : ∀ block, block ∈ s.process.world.instances ↔ ∃ k, s.keeps k = some block
  /-- The calls of `dlopen` that no `dlclose` has undone. -/
  needed : ∀ h, s.Needs h → s.process.world.dl.refs h = 1
  free : ∀ h, ¬ s.Needs h → s.process.world.dl.refs h = 0
  mapped : ∀ h, h ∈ s.process.world.dl ↔
    s.Needs h ∨ ∃ m ∈ s.process.world.dl.lookup h, 0 < m.otherRefs ∨ m.noDelete = true
  openAt : ∀ block i, s.process.world.instances.lookup block = some i →
    ∀ hp ∈ i.dlHandlePtr, s.process.world.OpenAt hp

theorem Accounts.openAsNeeded (ha : Accounts env s l)
    (hS : Loaders.Shared env (.single s.process.world)) : s.OpenAsNeeded where
  alive _ := ha.alive_iff
  needed h hn := by
    have hholders : (Loaders.single s.process.world).holders h = {0} := by
      ext i
      rw [Loaders.mem_holders_single, Finset.mem_singleton]
      exact and_iff_left (ha.keeps_iff.mpr hn)
    have hcount := hS.counted h
    rw [hholders, Finset.card_singleton] at hcount
    exact hcount
  free h hn := by
    have hholders : (Loaders.single s.process.world).holders h = ∅ := by
      apply Finset.eq_empty_of_forall_notMem
      intro i hi
      exact hn (ha.keeps_iff.mp (Loaders.mem_holders_single.mp hi).2)
    have hcount := hS.counted h
    rw [hholders, Finset.card_empty] at hcount
    exact hcount
  mapped h := by
    have hmapped := hS.sideBySide.mapped h
    refine hmapped.trans (or_congr_left ?_)
    rw [← ha.keeps_iff]
    constructor
    · intro hne
      obtain ⟨i, hi⟩ := hne
      exact (Loaders.mem_holders_single.mp hi).2
    · exact fun hk => ⟨0, Loaders.mem_holders_single.mpr ⟨rfl, hk⟩⟩
  openAt _ _ hi _ hhp := ha.consistent.sound.linked.openAt (World.held_of_instance hi hhp)

theorem single_next (hS : Loaders.Shared env (.single s.process.world)) (hpair : s.Paired op)
    (hs : step env s op = some s') : Loaders.Shared env (.single s'.process.world) := by
  refine step_process (P := fun p => Loaders.Shared env (.single p.world)) hs hS ?_ ?_
  · intro p o p' hp ho hown
    rcases Process.step_world ho with he | ⟨w, hw, hop⟩
    · rw [he]
      exact hp
    · refine hp.single_next ?_ hw
      rcases hop with rfl | hon
      · obtain ⟨rfl, _⟩ := hown w rfl
        exact hpair
      · cases w <;> first | exact absurd trivial hon | exact trivial
  · intro k i _
    rw [(Process.share_refers _ _ _).world]
    exact hS

/-- In every run, whatever the Loader, the holders of plugins, the products and their deleters
do in between, a library that the Loader opened stays open exactly as long as it is needed. A
program that calls into a closed library reaches the states before that call. -/
theorem openAsNeeded_of_paired (env : Env) {l : List (Op × Products)}
    (hrun : Run (step env) init l) (hpair : Steps Paired init l) :
    States OpenAsNeeded init l := by
  have hstates : States (fun s => (∃ ledger, Accounts env s ledger) ∧
      Loaders.Shared env (.single s.process.world)) init l := by
    refine hrun.states hpair ⟨⟨_, init_accounts env⟩, Loaders.single_shared_init env⟩ ?_
    intro s op s' hp hI hs
    obtain ⟨⟨ledger, ha⟩, hS⟩ := hI
    exact ⟨⟨_, step_accounts ha hs⟩, single_next hS hp hs⟩
  refine hstates.imp ?_
  intro s hI
  obtain ⟨⟨_, ha⟩, hS⟩ := hI
  exact ha.openAsNeeded hS

theorem openAsNeeded_twoProducts :
    States OpenAsNeeded init (history (step Process.fromThisPlugins) init twoProducts) :=
  openAsNeeded_of_paired Process.fromThisPlugins (history_run _ init twoProducts) (by decide)

/-- The lost product keeps the library open until the cleanup. -/
example : afterTwoProducts.1.process.world.dl.refs 1 = 1 ∧
    afterTwoProducts.1.cleanupLostProducts.process.world.dl.refs 1 = 0 := by decide

end Products

end GzPlugin
