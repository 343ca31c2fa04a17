import GzPlugin.Handles
import GzPlugin.Loaders

/-!
# Loaders side by side

A step of one Loader keeps what holds of every other one. Between two steps the count of a
handle is the number of Loaders that hold it, so a library is unmapped with the last of them,
and no Loader closes what another one still uses.
-/

namespace GzPlugin

open FiniteMaps Runs DlCall

set_option autoImplicit false

namespace World

variable {env : Env} {w w' : World}

theorem step_next {op : Op} (h : Sound env w) (hs : step env w op = some w') :
    w.next ≤ w'.next := by
  by_cases hop : Process.OnLoader op
  · exact (loader_instances h hop hs).2
  · obtain ⟨_, rfl⟩ := step_eq_some.mp hs
    cases op with
    | instantiate s instance_ =>
      rcases instantiate_cases h s instance_ with ⟨_, _, hle⟩ | ⟨block, _, _, hle, _, _, he⟩
      · exact hle
      · simp only [after, he]
        exact Nat.le_succ_of_le hle
    | destroyInstance block => exact (destroyInstance_next w block).ge
    | _ => exact absurd trivial hop

end World

namespace Traced

variable {env : Env} {w : World} {calls : List DlCall}

theorem after_since_of_ofLoader (env : Env) (t : Traced) {op : World.Op} (hop : op.OfLoader) :
    Since t (t.after env op) := by
  cases op with
  | loadLib path noDelete res infos => exact loadLib_since t path noDelete res infos
  | forgetLibrary path res order => exact forgetLibrary_since t path res order
  | forgetLibraryOfPlugin s order => exact forgetLibraryOfPlugin_since t s order
  | instantiate s instance_ => exact instantiate_since t s instance_
  | destroyInstance block => exact destroyInstance_since t block
  | destroyLoader order => exact destroyLoader_since t order
  | otherOpen lib h => exact absurd hop id
  | otherClose h => exact absurd hop id

/-- What a Loader owes to the linker is one call of `dlclose` for each handle it holds. -/
theorem Good.balance_eq (hg : Good env ⟨w, calls⟩) (h : Handle) :
    balance calls h = if w.Keeps h then 1 else 0 := by
  split
  · rename_i hk
    obtain ⟨hp, hheld, rfl⟩ := World.keeps_iff.mp hk
    exact hg.even.held hheld
  · rename_i hk
    apply hg.even.free
    intro hp hheld he
    exact hk (World.keeps_iff.mpr ⟨hp, hheld, he⟩)

/-- The linker moved on under a Loader, and what the Loader holds stayed where it was. -/
theorem Good.move (hg : Good env ⟨w, calls⟩) (dl : Dl) {next : Nat}
    (hlink : World.Linked { w with dl := dl, next := next }) (hnext : w.next ≤ next) :
    Good env ⟨{ w with dl := dl, next := next }, calls⟩ where
  sound := ⟨hlink, hg.sound.tables, hg.sound.locals, hg.sound.notThrown⟩
  numbered block hm := Nat.lt_of_lt_of_le (hg.numbered block hm) hnext
  dismantled := hg.dismantled
  even := hg.even

end Traced

namespace Loaders

variable {env : Env} {s s' : Loaders} {i j : Nat} {l : LoaderState} {h : Handle}

/-- The Loaders that hold the handle. -/
def holders (s : Loaders) (h : Handle) : Finset Nat :=
  s.loaders.keys.filter fun i => ∃ l ∈ s.loaders.lookup i, (s.world l).Keeps h

theorem mem_holders : i ∈ s.holders h ↔
    ∃ l, s.loaders.lookup i = some l ∧ (s.world l).Keeps h := by
  rw [holders, Finset.mem_filter, Finmap.mem_keys]
  constructor
  · exact fun hm => hm.2
  · rintro ⟨l, hl, hk⟩
    exact ⟨Finmap.mem_of_lookup_eq_some hl, l, hl, hk⟩

theorem mem_holders_of_lookup (hl : s.loaders.lookup i = some l) :
    i ∈ s.holders h ↔ (s.world l).Keeps h := by
  rw [mem_holders]
  constructor
  · rintro ⟨l', hl', hk⟩
    rw [hl] at hl'
    exact Option.some.inj hl' ▸ hk
  · exact fun hk => ⟨l, hl, hk⟩

/-- The count of the holders, with one of the Loaders set apart. -/
theorem card_holders (hl : s.loaders.lookup i = some l) (h : Handle) :
    (s.holders h).card = ((s.holders h).erase i).card + if (s.world l).Keeps h then 1 else 0 := by
  split
  · rename_i hk
    exact (Finset.card_erase_add_one ((mem_holders_of_lookup hl).mpr hk)).symm
  · rename_i hk
    rw [Finset.erase_eq_of_notMem fun hm => hk ((mem_holders_of_lookup hl).mp hm)]
    rfl

theorem put_lookup (s : Loaders) (i : Nat) (w : World) (j : Nat) :
    (s.put i w).loaders.lookup j =
      if j = i then some ⟨w.impl, w.alive, w.instances, w.locals, w.thrown⟩
      else s.loaders.lookup j :=
  lookup_insert_eq _ _ _ _

theorem put_holders (s : Loaders) (i : Nat) (w : World) (h : Handle) :
    ((s.put i w).holders h).erase i = (s.holders h).erase i := by
  ext j
  rw [Finset.mem_erase, Finset.mem_erase, mem_holders, mem_holders, put_lookup]
  refine and_congr_right fun hne => ?_
  rw [if_neg hne]
  rfl

/-- What holds between two steps of the Loaders. -/
structure Shared (env : Env) (s : Loaders) : Prop where
  ordered : s.dl.Ordered
  used : s.dl.Used
  good : ∀ {i l}, s.loaders.lookup i = some l → ∃ calls, Traced.Good env ⟨s.world l, calls⟩
  counted : ∀ h, s.dl.refs h = (s.holders h).card

theorem init_shared (env : Env) : Shared env init where
  ordered := Dl.empty_ordered
  used h m hm := by simp [init] at hm
  good hl := by simp [init] at hl
  counted h := rfl

/-- A Loader steps, on the linker and the numbers as the others left them. -/
theorem Shared.act {op : World.Op} {w : World} (hS : Shared env s) (hop : op.OfLoader)
    (hpair : Traced.Paired .init op) (hl : s.loaders.lookup i = some l)
    (hs : World.step env (s.world l) op = some w) : Shared env (s.put i w) := by
  obtain ⟨calls, hg⟩ := hS.good hl
  have hstep : Traced.step env ⟨s.world l, calls⟩ op =
      some (Traced.after env ⟨s.world l, calls⟩ op) :=
    Traced.step_eq_some.mpr ⟨(World.step_eq_some.mp hs).1, rfl⟩
  have hworld : (Traced.after env ⟨s.world l, calls⟩ op).world = w := by
    rw [Traced.after_world]
    exact (World.step_eq_some.mp hs).2
  have hg' := hg.next hpair hstep
  obtain ⟨cs, hcalls, hdl⟩ := Traced.after_since_of_ofLoader env ⟨s.world l, calls⟩ hop
  generalize Traced.after env ⟨s.world l, calls⟩ op = t at *
  obtain ⟨w', calls'⟩ := t
  obtain rfl : w = w' := hworld.symm
  obtain rfl : calls' = cs ++ calls := hcalls
  change w.dl = cs.foldr run s.dl at hdl
  have hle : ∀ h, balance calls h ≤ s.dl.refs h := by
    intro h
    rw [hg.balance_eq, hS.counted, card_holders hl]
    split <;> omega
  have hrefs : ∀ h, w.dl.refs h =
      ((s.holders h).erase i).card + if w.Keeps h then 1 else 0 := by
    intro h
    have hcount := run_refs hle hg'.even.warranted h
    rw [← hdl, hg.balance_eq, hg'.balance_eq, hS.counted, card_holders hl] at hcount
    by_cases hk : (s.world l).Keeps h <;> by_cases hk' : w.Keeps h <;>
      simp only [hk, hk', if_true, if_false] at hcount ⊢ <;> omega
  have hordered : w.dl.Ordered := hg'.sound.linked.ordered
  have hused : w.dl.Used := World.used_next (w := s.world l) hS.used hs
  have hnext : s.next ≤ w.next := World.step_next hg.sound hs
  refine ⟨hordered, hused, ?_, ?_⟩
  · intro j lj hlj
    rw [put_lookup] at hlj
    split at hlj
    · cases hlj
      exact ⟨_, hg'⟩
    · rename_i hne
      obtain ⟨callsj, hgj⟩ := hS.good hlj
      refine ⟨callsj, hgj.move w.dl ?_ hnext⟩
      refine Linkage.of_dl hgj.sound.linked hordered ?_
      intro hp m hheld hm _
      have hj : j ∈ (s.holders hp.handle).erase i :=
        Finset.mem_erase.mpr ⟨hne, (mem_holders_of_lookup hlj).mpr
          (World.keeps_iff.mpr ⟨hp, hheld, rfl⟩)⟩
      have hcard := Finset.card_pos.mpr ⟨j, hj⟩
      have hlt : balance calls hp.handle < s.dl.refs hp.handle := by
        rw [hg.balance_eq, hS.counted, card_holders hl]
        split <;> omega
      have hnonneg : 0 ≤ balance calls hp.handle := hg.even.nonneg hp.handle
      obtain ⟨m', hm', himage, hpos⟩ := run_kept hle hnonneg hg'.even.warranted hlt hm
      exact ⟨m', hdl ▸ hm', himage, hpos⟩
  · intro h
    have hput : (s.put i w).loaders.lookup i =
        some ⟨w.impl, w.alive, w.instances, w.locals, w.thrown⟩ := by
      rw [put_lookup, if_pos rfl]
    rw [card_holders hput, put_holders]
    exact hrefs h

/-- What somebody else does with the linker. -/
theorem Shared.move (hS : Shared env s) {dl : Dl} {next : Nat} (hordered : dl.Ordered)
    (hused : dl.Used) (hrefs : ∀ h, dl.refs h = s.dl.refs h) (hnext : s.next ≤ next)
    (hlink : ∀ w : World, w.dl = s.dl → w.next = s.next → w.Linked →
      World.Linked { w with dl := dl, next := next }) :
    Shared env { s with dl := dl, next := next } where
  ordered := hordered
  used := hused
  good {i l} hl := by
    obtain ⟨calls, hg⟩ := hS.good hl
    exact ⟨calls, hg.move dl (hlink _ rfl rfl hg.sound.linked) hnext⟩
  counted h := (hrefs h).trans (hS.counted h)

theorem Shared.construct (hS : Shared env s) (hi : i ∉ s.loaders) :
    Shared env { s with loaders := s.loaders.insert i .new } := by
  have hidle : ∀ hp, ¬ World.init.Held hp := by
    intro hp hheld
    simp [World.Held, World.init, Implementation.empty] at hheld
  refine ⟨hS.ordered, hS.used, ?_, ?_⟩
  · intro j l hl
    rw [lookup_insert_eq] at hl
    split at hl
    · cases hl
      refine ⟨[], (Traced.init_good env).move s.dl ?_ (Nat.zero_le s.next)⟩
      have hinit : World.init.Linked := World.init_linked
      exact ⟨hS.ordered, fun hh => absurd hh (hidle _), hinit.unique, hinit.weak, hinit.keyed⟩
    · exact hS.good hl
  · intro h
    refine (hS.counted h).trans (congrArg Finset.card ?_)
    ext j
    rw [mem_holders, mem_holders]
    refine exists_congr fun l => ?_
    rw [lookup_insert_eq]
    by_cases hj : j = i
    · subst hj
      rw [if_pos rfl, Finmap.lookup_eq_none.mpr hi]
      refine iff_of_false (fun hh => Option.some_ne_none _ hh.1.symm) ?_
      rintro ⟨hl, hk⟩
      cases hl
      obtain ⟨hp, hheld, _⟩ := World.keeps_iff.mp hk
      exact hidle hp hheld
    · rw [if_neg hj]
      rfl

theorem Shared.next {op : Op} (hS : Shared env s) (hpair : s.Paired op)
    (hs : step env s op = some s') : Shared env s' := by
  cases op with
  | construct i =>
    simp only [step, Option.ite_none_left_eq_some, Option.some.injEq] at hs
    obtain ⟨hi, rfl⟩ := hs
    exact hS.construct hi
  | act i op =>
    simp only [step, Option.ite_none_right_eq_some, Option.bind_eq_some_iff,
      Option.map_eq_some_iff] at hs
    obtain ⟨hop, l, hl, w, hw, rfl⟩ := hs
    exact hS.act hop hpair hl hw
  | otherOpen lib h =>
    simp only [step, Option.ite_none_right_eq_some, Option.some.injEq] at hs
    obtain ⟨hmay, rfl⟩ := hs
    refine hS.move (hS.ordered.otherOpen hmay s.next) (hS.used.otherOpen lib h s.next)
      (s.dl.refs_otherOpen lib h s.next) (Nat.le_succ _) ?_
    intro w hdl _ hlink
    exact Linkage.otherOpen (hdl ▸ hlink) hmay s.next
  | otherClose h =>
    simp only [step, Option.ite_none_right_eq_some, Option.some.injEq] at hs
    obtain ⟨_, rfl⟩ := hs
    refine hS.move (hS.ordered.of_extends (s.dl.otherClose_extends h)) (hS.used.otherClose h)
      (s.dl.refs_otherClose h) (Nat.le_refl _) ?_
    intro w hdl _ hlink
    exact Linkage.otherClose (hdl ▸ hlink) h

theorem shared_of_paired (env : Env) {l : List (Op × Loaders)} (hrun : Run (step env) init l)
    (hpair : Steps Paired init l) : States (Shared env) init l :=
  hrun.states hpair (init_shared env) fun hp h hs => h.next hp hs

/-- What the Loaders have in common, and what each of them can rely on. -/
structure SideBySide (env : Env) (s : Loaders) : Prop where
  sound : ∀ i l, s.loaders.lookup i = some l → World.Sound env (s.world l)
  openAt : ∀ i l, s.loaders.lookup i = some l → ∀ hp, (s.world l).Held hp →
    (s.world l).OpenAt hp
  counted : ∀ h, s.dl.refs h = (s.holders h).card
  mapped : ∀ h, h ∈ s.dl ↔
    (s.holders h).Nonempty ∨ ∃ m ∈ s.dl.lookup h, 0 < m.otherRefs ∨ m.noDelete = true
  same : ∀ i l, s.loaders.lookup i = some l → ∀ j l', s.loaders.lookup j = some l' →
    ∀ hp hp' lib serial serial', (s.world l).Held hp → (s.world l').Held hp' →
    hp.image = .mapped lib serial → hp'.image = .mapped lib serial' →
    hp.handle = hp'.handle ∧ serial = serial'

/-- The mapping behind a handle that a Loader holds. -/
theorem Shared.mapping (hS : Shared env s) (hl : s.loaders.lookup i = some l) {hp : DlHandlePtr}
    (hheld : (s.world l).Held hp) {lib serial : Nat} (himage : hp.image = .mapped lib serial) :
    ∃ m, s.dl.lookup hp.handle = some m ∧ m.lib = lib ∧ m.image = .mapped lib serial := by
  obtain ⟨calls, hg⟩ := hS.good hl
  obtain ⟨m, hm, hi, _⟩ := hg.sound.linked.mapped hheld
  obtain ⟨n, hn⟩ := hS.ordered.image hm
  rw [hi, himage, Image.mapped.injEq] at hn
  exact ⟨m, hm, hn.1.symm, hi.trans himage⟩

theorem Shared.sideBySide (hS : Shared env s) : SideBySide env s where
  sound i l hl := by
    obtain ⟨calls, hg⟩ := hS.good hl
    exact hg.sound
  openAt i l hl hp hheld := by
    obtain ⟨calls, hg⟩ := hS.good hl
    exact hg.sound.linked.openAt hheld
  counted := hS.counted
  mapped h := by
    rw [← Finset.card_pos, ← hS.counted, Finmap.mem_iff]
    constructor
    · rintro ⟨m, hm⟩
      rcases hS.used h m hm with hpos | hkept
      · exact Or.inl (Dl.refs_of_lookup hm ▸ hpos)
      · exact Or.inr ⟨m, hm, hkept⟩
    · rintro (hpos | ⟨m, hm, _⟩)
      · obtain ⟨m, hm, _⟩ := Dl.lookup_of_refs hpos
        exact ⟨m, hm⟩
      · exact ⟨m, hm⟩
  same i l hl j l' hl' hp hp' lib serial serial' hheld hheld' himage himage' := by
    obtain ⟨m, hm, hlib, hi⟩ := hS.mapping hl hheld himage
    obtain ⟨m', hm', hlib', hi'⟩ := hS.mapping hl' hheld' himage'
    have hsame : hp.handle = hp'.handle := hS.ordered.handle hm hm' (hlib.trans hlib'.symm)
    rw [← hsame, hm] at hm'
    cases hm'
    exact ⟨hsame, (Image.mapped.inj (hi.symm.trans hi')).2⟩

/-- In every interleaving of several Loaders, and whatever others do with the linker, every
Loader keeps its own invariant, the linker counts the Loaders that hold a library, and these
share one image of it, up to the first call into a closed library. -/
theorem sideBySide_of_paired (env : Env) {l : List (Op × Loaders)}
    (hrun : Run (step env) init l) (hpair : Steps Paired init l) :
    States (SideBySide env) init l :=
  (shared_of_paired env hrun hpair).imp fun _ hS => hS.sideBySide

/-- Two Loaders load one library; the second one is destroyed first. -/
def twoLoaders : List Op :=
  [.construct 1, .act 1 (.loadLib "a" false ⟨some 1, false⟩ [pluginOf "p" p_ne ["I"] ["x"]]),
    .construct 2, .act 2 (.loadLib "a" false ⟨some 1, false⟩ [pluginOf "p" p_ne ["I"] ["x"]]),
    .act 2 (.destroyLoader ["p"]), .act 1 (.destroyLoader ["p"])]

theorem sideBySide_twoLoaders :
    States (SideBySide sharedName) init (history (step sharedName) init twoLoaders) :=
  sideBySide_of_paired sharedName (history_run _ init twoLoaders) (by decide)

/-- The library stays open until the first Loader is destroyed as well. -/
example : (history (step sharedName) init twoLoaders).map (fun e => decide (1 ∈ e.2.dl)) =
    [false, true, true, true, true, false] := by decide

/-! ### Libraries that are opened not to be deleted -/

end Loaders

/-- The library was opened not to be deleted, and is mapped. -/
def Dl.Pinned (dl : Dl) (lib : LibId) (h : Handle) (image : Image) : Prop :=
  ∃ m, dl.lookup h = some m ∧ m.lib = lib ∧ m.image = image ∧ m.noDelete = true

namespace Dl.Pinned

variable {dl : Dl} {lib lib' : LibId} {h h' : Handle} {image : Image} {serial : Nat}

theorem of_dlopen (hlib : (dl.opened lib h serial true).lib = lib) :
    (dl.dlopen lib h serial true).Pinned lib h (dl.opened lib h serial true).image := by
  refine ⟨_, by rw [dlopen_lookup, if_pos rfl], hlib, rfl, ?_⟩
  unfold opened
  split
  · exact Bool.or_true _
  · rfl

theorem of_ne (hp : dl.Pinned lib h image) {dl' : Dl} (he : dl'.lookup h = dl.lookup h) :
    dl'.Pinned lib h image := by
  obtain ⟨m, hm, hrest⟩ := hp
  exact ⟨m, he.trans hm, hrest⟩

theorem put (hp : dl.Pinned lib h image) {m m' : Mapping} (hm : dl.lookup h' = some m)
    (hlib : m'.lib = m.lib) (himage : m'.image = m.image) (hnd : m'.noDelete = m.noDelete) :
    (dl.put h' m').Pinned lib h image := by
  by_cases he : h = h'
  · obtain ⟨x, hx, hl, hi, hn⟩ := hp
    rw [he, hm] at hx
    cases hx
    have huse : m'.InUse := Or.inr (Or.inr (hnd.trans hn))
    refine ⟨m', ?_, hlib.trans hl, himage.trans hi, hnd.trans hn⟩
    rw [he, put_lookup, if_pos rfl, if_pos huse]
  · exact hp.of_ne (by rw [put_lookup, if_neg he])

theorem dlopen (hp : dl.Pinned lib h image) (lib' : LibId) (h' : Handle) (serial : Nat)
    (noDelete : Bool) : (dl.dlopen lib' h' serial noDelete).Pinned lib h image := by
  by_cases he : h = h'
  · obtain ⟨m, hm, hl, hi, hn⟩ := hp
    refine ⟨dl.opened lib' h' serial noDelete, by rw [dlopen_lookup, if_pos he], ?_⟩
    rw [opened_of_open (he ▸ hm)]
    exact ⟨hl, hi, by rw [hn, Bool.true_or]⟩
  · exact hp.of_ne (by rw [dlopen_lookup, if_neg he])

theorem dlclose (hp : dl.Pinned lib h image) (h' : Handle) :
    (dl.dlclose h').Pinned lib h image := by
  unfold Dl.dlclose
  split
  · exact hp
  · rename_i m hm
    exact hp.put hm rfl rfl rfl

theorem run (hp : dl.Pinned lib h image) (c : DlCall) : (c.run dl).Pinned lib h image := by
  cases c with
  | dlopen lib' h' serial noDelete => exact hp.dlopen lib' h' serial noDelete
  | dlclose h' => exact hp.dlclose h'

theorem otherOpen (hp : dl.Pinned lib h image) (lib' : LibId) (h' : Handle) (serial : Nat) :
    (dl.otherOpen lib' h' serial).Pinned lib h image := by
  by_cases he : h = h'
  · obtain ⟨m, hm, hrest⟩ := hp
    refine ⟨{ m with otherRefs := m.otherRefs + 1 }, ?_, hrest⟩
    subst he
    simp [Dl.otherOpen, hm]
  · exact hp.of_ne (otherOpen_lookup_ne dl lib' serial he)

theorem otherClose (hp : dl.Pinned lib h image) (h' : Handle) :
    (dl.otherClose h').Pinned lib h image := by
  unfold Dl.otherClose
  split
  · exact hp
  · rename_i m hm
    exact hp.put hm rfl rfl rfl

end Dl.Pinned

namespace Traced

variable {env : Env} {path : String} {res : World.DlopenResult} {h : Handle} {lib : LibId}

theorem loadLib_since_openLib (t : Traced) (noDelete : Bool) (infos : List (Info Symbol)) :
    Since (t.openLib env path noDelete res).2 (t.loadLib env path noDelete res infos).2 := by
  unfold loadLib
  split
  · rename_i t₁ he
    rw [he]
    exact Since.refl t₁
  · rename_i hp t₁ he
    rw [he]
    have hadd : Since t₁ ((World.relocate hp infos).foldl (addPlugin env hp) (t₁, ∅)).1 :=
      addPlugins_since hp (World.relocate hp infos) (t₁, ∅)
    exact hadd.trans (.trans (.of_map rfl) (dropLocal_since _ hp))

/-- Whatever becomes of the plugins, the library that was opened not to be deleted stays. -/
theorem loadLib_pinned (t : Traced) (infos : List (Info Symbol)) (hlib : env.resolve path = some lib)
    (hres : res.handle = some h) (hmay : t.world.dl.MayReturn lib h) :
    (t.loadLib env path true res infos).2.world.dl.Pinned lib h
      (t.world.dl.opened lib h t.world.next true).image := by
  have hopened := Dl.Pinned.of_dlopen (Dl.opened_lib hmay t.world.next true)
  refine (loadLib_since_openLib t true infos).invariant
    (I := fun dl => dl.Pinned lib h (t.world.dl.opened lib h t.world.next true).image)
    (fun c _ hp => hp.run c) ?_
  simp only [openLib, hres, hlib]
  split
  · exact hopened
  split
  · exact hopened.run (.dlclose h)
  · exact hopened

end Traced

namespace Loaders

variable {env : Env} {s s' : Loaders} {i : Nat} {h : Handle} {lib : LibId} {image : Image}

theorem pinned_next {op : Op} (hp : s.dl.Pinned lib h image) (hs : step env s op = some s') :
    s'.dl.Pinned lib h image := by
  cases op with
  | construct i =>
    simp only [step, Option.ite_none_left_eq_some, Option.some.injEq] at hs
    obtain ⟨_, rfl⟩ := hs
    exact hp
  | act i op =>
    simp only [step, Option.ite_none_right_eq_some, Option.bind_eq_some_iff,
      Option.map_eq_some_iff] at hs
    obtain ⟨_, l, _, w, hw, rfl⟩ := hs
    obtain ⟨_, rfl⟩ := World.step_eq_some.mp hw
    exact Traced.after_dl (I := fun dl => dl.Pinned lib h image) (s.world l) op hp
      (fun c _ hd => hd.run c)
      (fun lib h serial _ hd => hd.otherOpen lib h serial) fun h _ hd => hd.otherClose h
  | otherOpen lib h =>
    simp only [step, Option.ite_none_right_eq_some, Option.some.injEq] at hs
    obtain ⟨_, rfl⟩ := hs
    exact hp.otherOpen lib h s.next
  | otherClose h =>
    simp only [step, Option.ite_none_right_eq_some, Option.some.injEq] at hs
    obtain ⟨_, rfl⟩ := hs
    exact hp.otherClose h

/-- Once a Loader has opened a library not to be deleted, it stays mapped where it is, also
when all Loaders have let go of it, and every Loader that holds it uses this one image. -/
theorem stays_of_noDelete (env : Env) {l l' : List (Op × Loaders)} {path : String}
    {res : World.DlopenResult} {infos : List (Info Symbol)} (hrun : Run (step env) init l)
    (hpair : Steps Paired init l) (hlib : env.resolve path = some lib)
    (hres : res.handle = some h)
    (hrun' : Run (step env) (last init l) ((.act i (.loadLib path true res infos), s') :: l'))
    (hpair' : Steps Paired (last init l) ((.act i (.loadLib path true res infos), s') :: l')) :
    ∃ serial, States (fun s => s.dl.Pinned lib h (.mapped lib serial) ∧
      ∀ j lj, s.loaders.lookup j = some lj → ∀ hp serial', (s.world lj).Held hp →
        hp.image = .mapped lib serial' → hp.handle = h ∧ serial' = serial) s' l' := by
  have hstart : Shared env (last init l) := (shared_of_paired env hrun hpair).last
  cases hrun' with
  | cons hs hrun' =>
    have hloaded := hstart.next hpair'.1 hs
    have hshared : States (Shared env) s' l' :=
      hrun'.states hpair'.2 hloaded fun hp hS hs => hS.next hp hs
    simp only [step, Option.ite_none_right_eq_some, Option.bind_eq_some_iff,
      Option.map_eq_some_iff] at hs
    obtain ⟨_, li, _, w, hw, rfl⟩ := hs
    obtain ⟨hen, rfl⟩ := World.step_eq_some.mp hw
    obtain ⟨lib', hlib', hmay⟩ := hen.2.1 h hres
    rw [Option.mem_def, hlib] at hlib'
    cases hlib'
    obtain ⟨serial, himage⟩ := hstart.ordered.opened_image hmay (last init l).next true
    have hpin := Traced.loadLib_pinned ⟨(last init l).world li, []⟩ infos hlib hres hmay
    have hworld : (((last init l).world li).loadLib env path true res infos).2 = _ :=
      congrArg Prod.snd (Traced.loadLib_world ⟨(last init l).world li, []⟩ path true res infos)
    have hpinned := hrun'.states_of_step
      (P := fun s => s.dl.Pinned lib h (.mapped lib serial)) ?_ fun hp hs => pinned_next hp hs
    · refine ⟨serial, (hshared.and hpinned).imp fun s hs => ⟨hs.2, ?_⟩⟩
      intro j lj hlj hp serial' hheld hhp
      obtain ⟨m, hm, hmlib, hmimage, _⟩ := hs.2
      obtain ⟨m', hm', hlib', himage'⟩ := hs.1.mapping hlj hheld hhp
      have hsame : hp.handle = h := hs.1.ordered.handle hm' hm (hlib'.trans hmlib.symm)
      rw [hsame, hm] at hm'
      cases hm'
      exact ⟨hsame, (Image.mapped.inj (himage'.symm.trans hmimage)).2⟩
    · change (((last init l).world li).loadLib env path true res infos).2.dl.Pinned lib h _
      rw [hworld, ← himage]
      exact hpin

/-- A first Loader opens a library not to be deleted. -/
def pinning : World.Op := .loadLib "a" true ⟨some 1, false⟩ [pluginOf "p" p_ne ["I"] ["x"]]

def oneLoader : Loaders := last init (history (step sharedName) init [.construct 1])

def onePinned : Loaders := (step sharedName oneLoader (.act 1 pinning)).get (by decide)

/-- It is destroyed, and a second one opens the library once more. -/
def reopened : List Op := [.act 1 (.destroyLoader ["p"]), .construct 2, .act 2 pinning]

theorem stays_reopened : ∃ serial,
    States (fun s => s.dl.Pinned 0 1 (.mapped 0 serial) ∧
      ∀ j lj, s.loaders.lookup j = some lj → ∀ hp serial', (s.world lj).Held hp →
        hp.image = .mapped 0 serial' → hp.handle = 1 ∧ serial' = serial)
      onePinned (history (step sharedName) onePinned reopened) :=
  stays_of_noDelete sharedName (history_run _ init [.construct 1]) (by decide) rfl rfl
    (.cons (Option.some_get _).symm (history_run _ onePinned reopened)) (by decide)

end Loaders

end GzPlugin
