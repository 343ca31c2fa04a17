import Mathlib.Data.Fintype.EquivFin
import GzPlugin.Borrowing
import GzPlugin.HashOrder
import GzPlugin.Sharing

/-!
# Each Loader for itself

Of several Loaders every one behaves as if it were alone, among others who open and close
libraries: its part of a run is a run of the single Loader, in which what the other Loaders
call appears as calls of somebody else.
-/

namespace GzPlugin

open FiniteMaps Runs DlCall

set_option autoImplicit false

/-- One mapping as the linker has it, and as one Loader accounts for it. That somebody else
asked not to delete the library may appear as a reference that is never given back. -/
structure Mapping.Reflects (m m' : Mapping) : Prop where
  lib : m'.lib = m.lib
  image : m'.image = m.image
  counts : m.loaderRefs + m.otherRefs ≤ m'.loaderRefs + m'.otherRefs
  pins : m.noDelete = true ↔
    m'.noDelete = true ∨ m.loaderRefs + m.otherRefs < m'.loaderRefs + m'.otherRefs

theorem Mapping.Reflects.inUse_iff {m m' : Mapping} (hm : m.Reflects m') : m'.InUse ↔ m.InUse := by
  have hcounts := hm.counts
  have hpins := hm.pins
  unfold InUse
  constructor
  · rintro (hpos | hpos | hnd)
    · by_cases hlt : m.loaderRefs + m.otherRefs < m'.loaderRefs + m'.otherRefs
      · exact Or.inr (Or.inr (hpins.mpr (Or.inr hlt)))
      · omega
    · by_cases hlt : m.loaderRefs + m.otherRefs < m'.loaderRefs + m'.otherRefs
      · exact Or.inr (Or.inr (hpins.mpr (Or.inr hlt)))
      · omega
    · exact Or.inr (Or.inr (hpins.mpr (Or.inl hnd)))
  · rintro (hpos | hpos | hnd)
    · omega
    · omega
    · rcases hpins.mp hnd with hnd | hlt
      · exact Or.inr (Or.inr hnd)
      · omega

/-- As many references more, or fewer, on both sides. -/
theorem Mapping.Reflects.recount {m m' : Mapping} (hm : m.Reflects m') {a b a' b' : Nat}
    (h : a + b + (m'.loaderRefs + m'.otherRefs) = a' + b' + (m.loaderRefs + m.otherRefs)) :
    Reflects { m with loaderRefs := a, otherRefs := b }
      { m' with loaderRefs := a', otherRefs := b' } where
  lib := hm.lib
  image := hm.image
  counts := by
    have hcounts := hm.counts
    change a + b ≤ a' + b'
    omega
  pins := by
    refine hm.pins.trans (or_congr_right ?_)
    change _ ↔ a + b < a' + b'
    omega

/-- The Loader itself, or another one, asks not to delete the library. -/
theorem Mapping.Reflects.pin {m m' : Mapping} (hm : m.Reflects m') {a b a' b' : Nat} {nd : Bool}
    (hle : a + b ≤ a' + b') (h : nd = true ∨ a + b < a' + b') :
    Reflects { m with loaderRefs := a, otherRefs := b, noDelete := true }
      { m' with loaderRefs := a', otherRefs := b', noDelete := nd } where
  lib := hm.lib
  image := hm.image
  counts := hle
  pins := iff_of_true rfl h

namespace Dl

/-- The linker, and what one Loader makes of it. -/
def Reflects (dl dl' : Dl) : Prop :=
  ∀ h, Option.Rel Mapping.Reflects (dl.lookup h) (dl'.lookup h)

namespace Reflects

variable {dl dl' : Dl} {h : Handle} {m m' : Mapping} {lib : LibId} {serial : Nat} {noDelete : Bool}

theorem cases (hr : dl.Reflects dl') (h : Handle) :
    (dl.lookup h = none ∧ dl'.lookup h = none) ∨
    ∃ m m', dl.lookup h = some m ∧ dl'.lookup h = some m' ∧ m.Reflects m' := by
  have hh := hr h
  generalize dl.lookup h = o at hh ⊢
  generalize dl'.lookup h = o' at hh ⊢
  cases hh with
  | none => exact Or.inl ⟨rfl, rfl⟩
  | some hm => exact Or.inr ⟨_, _, rfl, rfl, hm⟩

theorem sameImages (hr : dl.Reflects dl') : dl.SameImages dl' := by
  intro h
  rcases hr.cases h with ⟨hn, hn'⟩ | ⟨m, m', hm, hm', href⟩
  · rw [hn, hn']
  · rw [hm, hm', Option.map_some, Option.map_some, href.lib, href.image]

theorem insert (hr : dl.Reflects dl') (hm : m.Reflects m') (h : Handle) :
    Reflects (Finmap.insert h m dl) (Finmap.insert h m' dl') := by
  intro h'
  rw [lookup_insert_eq, lookup_insert_eq]
  split
  · exact .some hm
  · exact hr h'

theorem put (hr : dl.Reflects dl') (hm : m.Reflects m') (h : Handle) :
    (dl.put h m).Reflects (dl'.put h m') := by
  intro h'
  rw [put_lookup, put_lookup]
  split
  · simp only [hm.inUse_iff]
    split
    · exact .some hm
    · exact .none
  · exact hr h'

/-- A call of `dlopen` by the Loader itself. -/
theorem dlopen (hr : dl.Reflects dl') (lib : LibId) (h : Handle) (serial : Nat)
    (noDelete : Bool) :
    (dl.dlopen lib h serial noDelete).Reflects (dl'.dlopen lib h serial noDelete) := by
  refine hr.insert ?_ h
  rcases hr.cases h with ⟨hn, hn'⟩ | ⟨m, m', hm, hm', href⟩
  · simp only [opened, hn, hn']
    exact ⟨rfl, rfl, Nat.le_refl 1, by simp⟩
  · rw [opened_of_open hm, opened_of_open hm']
    have hcounts := href.counts
    cases noDelete with
    | false =>
      rw [Bool.or_false, Bool.or_false]
      exact href.recount (by omega)
    | true =>
      rw [Bool.or_true, Bool.or_true]
      exact href.pin (by omega) (Or.inl rfl)

/-- A call of `dlclose` by the Loader itself. -/
theorem dlclose (hr : dl.Reflects dl') (hpos : 0 < dl.refs h) (hpos' : 0 < dl'.refs h) :
    (dl.dlclose h).Reflects (dl'.dlclose h) := by
  rcases hr.cases h with ⟨hn, _⟩ | ⟨m, m', hm, hm', href⟩
  · simp [refs, hn] at hpos
  · rw [refs_of_lookup hm] at hpos
    rw [refs_of_lookup hm'] at hpos'
    simp only [Dl.dlclose, hm, hm']
    exact hr.put (href.recount (by omega)) h

/-- A call of `dlclose` by another Loader. -/
theorem otherClose_of_dlclose (hr : dl.Reflects dl') (hlt : dl'.refs h < dl.refs h) :
    (∃ m' ∈ dl'.lookup h, 0 < m'.otherRefs) ∧ (dl.dlclose h).Reflects (dl'.otherClose h) := by
  rcases hr.cases h with ⟨hn, _⟩ | ⟨m, m', hm, hm', href⟩
  · simp [refs, hn] at hlt
  · rw [refs_of_lookup hm, refs_of_lookup hm'] at hlt
    have hcounts := href.counts
    refine ⟨⟨m', hm', by omega⟩, ?_⟩
    simp only [Dl.dlclose, Dl.otherClose, hm, hm']
    exact hr.put (href.recount (by omega)) h

/-- Somebody else closes a library. -/
theorem otherClose (hr : dl.Reflects dl') (hle : dl'.refs h ≤ dl.refs h)
    (hpos : ∃ m ∈ dl.lookup h, 0 < m.otherRefs) :
    (∃ m' ∈ dl'.lookup h, 0 < m'.otherRefs) ∧ (dl.otherClose h).Reflects (dl'.otherClose h) := by
  obtain ⟨x, hx, hpos⟩ := hpos
  rcases hr.cases h with ⟨hn, _⟩ | ⟨m, m', hm, hm', href⟩
  · rw [Option.mem_def, hn] at hx
    cases hx
  · rw [Option.mem_def, hm] at hx
    cases hx
    rw [refs_of_lookup hm, refs_of_lookup hm'] at hle
    have hcounts := href.counts
    refine ⟨⟨m', hm', by omega⟩, ?_⟩
    simp only [Dl.otherClose, hm, hm']
    exact hr.put (href.recount (by omega)) h

theorem otherOpen (hr : dl.Reflects dl') (lib : LibId) (h : Handle) (serial : Nat) :
    (dl.otherOpen lib h serial).Reflects (dl'.otherOpen lib h serial) := by
  rcases hr.cases h with ⟨hn, hn'⟩ | ⟨m, m', hm, hm', href⟩
  · simp only [Dl.otherOpen, hn, hn']
    refine hr.insert ?_ h
    exact ⟨rfl, rfl, Nat.le_refl 1, by simp⟩
  · simp only [Dl.otherOpen, hm, hm']
    exact hr.insert (href.recount (by omega)) h

/-- A call of `dlopen` by another Loader. -/
theorem otherOpen_of_dlopen (hr : dl.Reflects dl') (lib : LibId) (h : Handle) (serial : Nat) :
    (dl.dlopen lib h serial false).Reflects (dl'.otherOpen lib h serial) := by
  rcases hr.cases h with ⟨hn, hn'⟩ | ⟨m, m', hm, hm', href⟩
  · simp only [Dl.dlopen, opened, Dl.otherOpen, hn, hn']
    refine hr.insert ?_ h
    exact ⟨rfl, rfl, Nat.le_refl 1, by simp⟩
  · simp only [Dl.dlopen, opened_of_open hm, Dl.otherOpen, hm', Bool.or_false]
    exact hr.insert (href.recount (by omega)) h

/-- A second reference stands for the library not being deleted. -/
theorem otherOpen_twice_of_dlopen (hr : dl.Reflects dl') (lib : LibId) (h : Handle)
    (serial serial' : Nat) : (dl.dlopen lib h serial true).Reflects
      ((dl'.otherOpen lib h serial).otherOpen lib h serial') := by
  rcases hr.cases h with ⟨hn, hn'⟩ | ⟨m, m', hm, hm', href⟩
  · simp only [Dl.dlopen, opened, Dl.otherOpen, hn, hn', Finmap.lookup_insert,
      Finmap.insert_insert]
    refine hr.insert ?_ h
    exact ⟨rfl, rfl, Nat.le_succ 1, by simp⟩
  · have hcounts := href.counts
    simp only [Dl.dlopen, opened_of_open hm, Dl.otherOpen, hm', Finmap.lookup_insert,
      Finmap.insert_insert, Bool.or_true]
    exact hr.insert (href.pin (by omega) (Or.inr (by omega))) h

end Reflects

end Dl

/-! ### What others do meanwhile -/

namespace World

variable {env : Env} {w w' w'' : World}

/-- From `w` to `w'` only others used the linker. -/
def Drifts (env : Env) (w w' : World) : Prop :=
  ∃ l, Run (step env) w l ∧ last w l = w' ∧ ∀ e ∈ l, ¬ e.1.OfLoader

theorem Drifts.refl (env : Env) (w : World) : Drifts env w w := ⟨[], .nil w, rfl, nofun⟩

theorem Drifts.trans (h : Drifts env w w') (h' : Drifts env w' w'') : Drifts env w w'' := by
  obtain ⟨l, hl, rfl, hops⟩ := h
  obtain ⟨l', hl', rfl, hops'⟩ := h'
  refine ⟨l ++ l', hl.append hl', last_append w l l', fun e he => ?_⟩
  exact (List.mem_append.mp he).elim (hops e) (hops' e)

theorem Drifts.otherOpen (env : Env) {lib : LibId} {h : Handle} (hmay : w.dl.MayReturn lib h) :
    Drifts env w { w with dl := w.dl.otherOpen lib h w.next, next := w.next + 1 } :=
  ⟨[(.otherOpen lib h, _)], .cons (step_eq_some.mpr ⟨hmay, rfl⟩) (.nil _), rfl,
    fun e he => by simp at he; simp [he, Op.OfLoader]⟩

theorem Drifts.otherClose (env : Env) {h : Handle} (hm : ∃ m ∈ w.dl.lookup h, 0 < m.otherRefs) :
    Drifts env w { w with dl := w.dl.otherClose h } :=
  ⟨[(.otherClose h, _)], .cons (step_eq_some.mpr ⟨hm, rfl⟩) (.nil _), rfl,
    fun e he => by simp at he; simp [he, Op.OfLoader]⟩

/-- Somebody opens a library that nobody uses, and closes it again: a number is used up. -/
theorem Drifts.tick (env : Env) (w : World) : Drifts env w { w with next := w.next + 1 } := by
  obtain ⟨h, hh⟩ := Infinite.exists_notMem_finset w.dl.keys
  obtain ⟨lib, hlib⟩ := Infinite.exists_notMem_finset
    (w.dl.keys.image fun h => ((w.dl.lookup h).map (·.lib)).getD 0)
  have hnone : w.dl.lookup h = none :=
    Finmap.lookup_eq_none.mpr fun hm => hh (Finmap.mem_keys.mpr hm)
  have hclosed : ¬ w.dl.IsOpen lib := by
    rintro ⟨h', m, hm, rfl⟩
    refine hlib (Finset.mem_image.mpr ⟨h', ?_, by rw [hm]; rfl⟩)
    exact Finmap.mem_keys.mpr (Finmap.mem_of_lookup_eq_some hm)
  have hmay : w.dl.MayReturn lib h := by
    unfold Dl.MayReturn
    rw [hnone]
    exact hclosed
  have hopened : (w.dl.otherOpen lib h w.next).lookup h =
      some ⟨lib, .mapped lib w.next, 0, 1, false⟩ := by
    simp [Dl.otherOpen, hnone]
  have hback : (w.dl.otherOpen lib h w.next).otherClose h = w.dl := by
    apply Finmap.ext_lookup
    intro h'
    by_cases he : h' = h
    · rw [he, hnone]
      simp [Dl.otherClose, hopened, Dl.put_lookup, Mapping.InUse]
    · rw [Dl.otherClose_lookup_ne _ he, Dl.otherOpen_lookup_ne _ _ _ he]
  refine (Drifts.otherOpen env hmay).trans ?_
  have hclose := Drifts.otherClose env (h := h)
    (w := { w with dl := w.dl.otherOpen lib h w.next, next := w.next + 1 })
    ⟨_, hopened, Nat.one_pos⟩
  simp only [hback] at hclose
  exact hclose

theorem Drifts.ticks (env : Env) (w : World) {n : Nat} (hn : w.next ≤ n) :
    Drifts env w { w with next := n } := by
  induction n, hn using Nat.le_induction with
  | base => exact .refl env w
  | succ n hn ih => exact ih.trans (.tick env { w with next := n })

/-- The closing calls of another Loader, all of them covered by its own balance. -/
theorem Drifts.closes (env : Env) {dl : Dl} {calls : List DlCall} (hs : List Handle)
    (hr : dl.Reflects w.dl) (hle : ∀ h, (w.dl.refs h : Int) + balance calls h ≤ dl.refs h)
    (hw : Warranted (hs.map .dlclose ++ calls)) :
    ∃ dl', Drifts env w { w with dl := dl' } ∧
      Dl.Reflects ((hs.map DlCall.dlclose).foldr DlCall.run dl) dl' ∧
      ∀ h, dl'.refs h = w.dl.refs h := by
  induction hs with
  | nil => exact ⟨w.dl, .refl env w, hr, fun _ => rfl⟩
  | cons h hs ih =>
    obtain ⟨dl', hdrift, hr', hrefs⟩ := ih hw.tail
    have hpos : 0 < balance (hs.map .dlclose ++ calls) h := hw [] h _ rfl
    have hbal : ∀ h, balance calls h ≤ dl.refs h := fun h => by
      have := hle h
      omega
    have hcount := run_refs hbal hw.tail h
    have hlt : dl'.refs h < Dl.refs ((hs.map DlCall.dlclose).foldr DlCall.run dl) h := by
      have := hle h
      have := hrefs h
      omega
    obtain ⟨hmay, hclosed⟩ := hr'.otherClose_of_dlclose hlt
    have hclose := Drifts.otherClose env (w := { w with dl := dl' }) hmay
    refine ⟨dl'.otherClose h, hdrift.trans hclose, hclosed, fun h' => ?_⟩
    rw [Dl.refs_otherClose, hrefs]

/-- The opening call of another Loader. -/
theorem Drifts.opening (env : Env) {dl : Dl} {lib : LibId} {h : Handle} (hr : dl.Reflects w.dl)
    (hmay : dl.MayReturn lib h) (noDelete : Bool) :
    ∃ dl' n, w.next ≤ n ∧ n ≤ w.next + 2 ∧ Drifts env w { w with dl := dl', next := n } ∧
      (dl.dlopen lib h w.next noDelete).Reflects dl' ∧ ∀ h', dl'.refs h' = w.dl.refs h' := by
  have hmay' : w.dl.MayReturn lib h := hr.sameImages.mayReturn_iff.mpr hmay
  have hopen := Drifts.otherOpen env hmay'
  cases noDelete with
  | false =>
    refine ⟨_, _, Nat.le_succ _, Nat.le_succ _, hopen, hr.otherOpen_of_dlopen lib h w.next, ?_⟩
    exact w.dl.refs_otherOpen lib h w.next
  | true =>
    have hagain : (w.dl.otherOpen lib h w.next).MayReturn lib h := by
      unfold Dl.MayReturn at hmay' ⊢
      unfold Dl.otherOpen
      cases hm : w.dl.lookup h with
      | none => simp only [Finmap.lookup_insert]
      | some m =>
        rw [hm] at hmay'
        simp only [Finmap.lookup_insert]
        exact hmay'
    have hopen' := Drifts.otherOpen env
      (w := { w with dl := w.dl.otherOpen lib h w.next, next := w.next + 1 }) hagain
    refine ⟨_, _, Nat.le_add_right w.next 2, Nat.le_refl _, hopen.trans hopen',
      hr.otherOpen_twice_of_dlopen lib h w.next (w.next + 1), fun h' => ?_⟩
    rw [Dl.refs_otherOpen, Dl.refs_otherOpen]

theorem loadLib_next {path : String} (noDelete : Bool) {res : DlopenResult} {lib : LibId}
    {h : Handle} (infos : List (Info Symbol)) (hres : res.handle = some h)
    (hlib : env.resolve path = some lib) :
    w.next + 2 ≤ (w.loadLib env path noDelete res infos).2.next := by
  have hopen : (w.openLib env path noDelete res).2.next = w.next + 2 := by
    simp only [openLib, hres, hlib]
    split
    · rfl
    split
    · rfl
    · rfl
  unfold loadLib
  split
  · rename_i w₁ he
    rw [he] at hopen
    exact hopen.ge
  · rename_i hp w₁ he
    rw [he] at hopen
    have hadd := (addPlugins_weak env hp (relocate hp infos) (w₁, ∅)).2
    simp only [dropLocal, release_next, hadd]
    exact Nat.le_add_right_of_le hopen.ge

end World

namespace Traced

variable {env : Env} {w w' : World} {calls : List DlCall}

/-- The calls of an operation: at most one library is opened, before anything is closed. -/
structure Course (w : World) (calls : List DlCall) (w' : World) (opening : List DlCall)
    (hs : List Handle) : Prop where
  dl : w'.dl = (hs.map DlCall.dlclose ++ opening).foldr DlCall.run w.dl
  warranted : Warranted (hs.map DlCall.dlclose ++ (opening ++ calls))
  opening : opening = [] ∨ ∃ lib h noDelete, w.dl.MayReturn lib h ∧ w.next + 2 ≤ w'.next ∧
    opening = [.dlopen lib h w.next noDelete]

theorem Course.of_closes {t t₁ : Traced} {opening : List DlCall}
    (hsince : Since ⟨w, calls⟩ t) (hcloses : Closes t₁ t) (hcalls : t₁.calls = opening ++ calls)
    (heven : t.Even) (hopening : opening = [] ∨ ∃ lib h noDelete, w.dl.MayReturn lib h ∧
      w.next + 2 ≤ t.world.next ∧ opening = [.dlopen lib h w.next noDelete]) :
    ∃ opening hs, Course w calls t.world opening hs := by
  obtain ⟨cs, hcs, hdl⟩ := hsince
  obtain ⟨hs, hhs⟩ := hcloses
  have he : t.calls = (hs.map DlCall.dlclose ++ opening) ++ calls := by
    rw [hhs, hcalls, List.append_assoc]
  have hsame : cs = hs.map DlCall.dlclose ++ opening :=
    List.append_cancel_right (hcs.symm.trans he)
  refine ⟨opening, hs, hsame ▸ hdl, ?_, hopening⟩
  rw [← List.append_assoc, ← he]
  exact heven.warranted

theorem Good.course {op : World.Op} (hg : Good env ⟨w, calls⟩) (hu : w.dl.Used)
    (hop : op.OfLoader) (hpair : Traced.Paired .init op) (hs : World.step env w op = some w') :
    ∃ opening hs, Course w calls w' opening hs := by
  have hstep : Traced.step env ⟨w, calls⟩ op = some (Traced.after env ⟨w, calls⟩ op) :=
    step_eq_some.mpr ⟨(World.step_eq_some.mp hs).1, rfl⟩
  have heven := (hg.next hpair hstep).even
  have hsince := after_since_of_ofLoader env ⟨w, calls⟩ hop
  have hworld : (Traced.after env ⟨w, calls⟩ op).world = w' := by
    rw [after_world]
    exact (World.step_eq_some.mp hs).2
  obtain ⟨hen, hafter⟩ := World.step_eq_some.mp hs
  have hidle : w' = w → ∃ opening hs, Course w calls w' opening hs := by
    rintro rfl
    exact ⟨[], [], rfl, hg.even.warranted, Or.inl rfl⟩
  cases op with
  | loadLib path noDelete res infos =>
    cases hres : res.handle with
    | none =>
      apply hidle
      rw [← hafter]
      simp only [World.after, World.loadLib, World.openLib, hres]
    | some h =>
      obtain ⟨lib, hlib, hmay⟩ := hen.2.1 h hres
      have hnext := World.loadLib_next (w := w) noDelete infos hres hlib
      rw [← hworld]
      refine Course.of_closes hsince (loadLib_closes infos hres hlib) rfl heven
        (Or.inr ⟨lib, h, noDelete, hmay, ?_, rfl⟩)
      rw [hworld, ← hafter]
      exact hnext
  | forgetLibrary path res order =>
    cases res with
    | none => exact hidle hafter.symm
    | some h =>
      have hforget : ((⟨w, calls⟩ : Traced).forgetHandle h order).2.world = w' := by
        rw [← hafter, World.after, World.forgetLibrary_eq hu hen.2.1]
        exact (congrArg Prod.snd (forgetHandle_world ⟨w, calls⟩ h order)).symm
      rw [← hforget]
      exact Course.of_closes (forgetHandle_since ⟨w, calls⟩ h order)
        (forgetHandle_closes ⟨w, calls⟩ h order) (List.nil_append calls).symm
        (forgetHandle_even hg.sound.linked hg.even h order) (Or.inl rfl)
  | forgetLibraryOfPlugin s order =>
    have hcloses : Closes ⟨w, calls⟩
        (Traced.after env ⟨w, calls⟩ (.forgetLibraryOfPlugin s order)) := by
      simp only [Traced.after, forgetLibraryOfPlugin]
      split
      · exact .of_calls rfl
      · exact forgetHandle_closes ⟨w, calls⟩ _ order
    rw [← hworld]
    exact Course.of_closes hsince hcloses (List.nil_append calls).symm heven (Or.inl rfl)
  | instantiate s instance_ =>
    have hcloses : Closes ⟨w, calls⟩ (Traced.after env ⟨w, calls⟩ (.instantiate s instance_)) :=
      .of_calls rfl
    rw [← hworld]
    exact Course.of_closes hsince hcloses (List.nil_append calls).symm heven (Or.inl rfl)
  | destroyInstance block =>
    rw [← hworld]
    exact Course.of_closes hsince (destroyInstance_closes ⟨w, calls⟩ block)
      (List.nil_append calls).symm heven (Or.inl rfl)
  | destroyLoader order =>
    rw [← hworld]
    exact Course.of_closes hsince
      (eraseHandles_closes order ((⟨w, calls⟩ : Traced).map World.clearTables))
      (List.nil_append calls).symm heven (Or.inl rfl)
  | otherOpen lib h => exact absurd hop id
  | otherClose h => exact absurd hop id

end Traced

/-- The calls of the Loader, on the linker and on its own account of it. -/
theorem Dl.Reflects.run {dl dl' : Dl} {cs calls : List DlCall} (hr : dl.Reflects dl')
    (hle : ∀ h, balance calls h ≤ dl.refs h) (hle' : ∀ h, balance calls h ≤ dl'.refs h)
    (hw : Warranted (cs ++ calls)) :
    Dl.Reflects (cs.foldr DlCall.run dl) (cs.foldr DlCall.run dl') := by
  induction cs with
  | nil => exact hr
  | cons c cs ih =>
    have hrest := ih hw.tail
    cases c with
    | dlopen lib h serial noDelete => exact hrest.dlopen lib h serial noDelete
    | dlclose h =>
      have hpos : 0 < balance (cs ++ calls) h := hw [] h (cs ++ calls) rfl
      have hrefs := run_refs hle hw.tail h
      have hrefs' := run_refs hle' hw.tail h
      have := hle h
      have := hle' h
      exact hrest.dlclose (by omega) (by omega)

namespace Loaders

variable {env : Env} {s s' : Loaders} {i j : Nat} {l lj : LoaderState} {w v : World}

/-- A Loader before it is constructed is as good as new. -/
def state (s : Loaders) (i : Nat) : LoaderState := (s.loaders.lookup i).getD .new

/-- What the operation is for the Loader with the number `i`. -/
def Op.of (i : Nat) : Op → Option World.Op
  | .act j op => if j = i then some op else none
  | _ => none

/-- The single Loader `w` stands for the Loader `l` among the others. -/
structure Sees (s : Loaders) (l : LoaderState) (w : World) : Prop where
  same : w = { s.world l with dl := w.dl }
  reflects : s.dl.Reflects w.dl
  own : ∀ h, w.dl.refs h = if w.Keeps h then 1 else 0

theorem Sees.keeps_iff (hv : Sees s l w) (h : Handle) : w.Keeps h ↔ (s.world l).Keeps h := by
  rw [hv.same]
  exact Iff.rfl

theorem init_sees : Sees init .new World.init where
  same := rfl
  reflects h := .none
  own h := by
    rw [if_neg]
    · rfl
    · intro hk
      obtain ⟨hp, hheld, _⟩ := World.keeps_iff.mp hk
      simp [World.Held, World.init, Implementation.empty] at hheld

/-- What the Loader does by itself, the single one does as well. -/
theorem Sees.act {op : World.Op} (hv : Sees s l w) (hS : Shared env s)
    (hl : s.loaders.lookup i = some l) (hop : op.OfLoader) (hpair : Traced.Paired .init op)
    (hs : World.step env (s.world l) op = some v) :
    ∃ w', World.step env w op = some w' ∧
      Sees (s.put i v) ⟨v.impl, v.alive, v.instances, v.locals, v.thrown⟩ w' := by
  obtain ⟨calls, hg⟩ := hS.good hl
  obtain ⟨hen, hafter⟩ := World.step_eq_some.mp hs
  have hstep : Traced.step env ⟨s.world l, calls⟩ op =
      some (Traced.after env ⟨s.world l, calls⟩ op) := Traced.step_eq_some.mpr ⟨hen, rfl⟩
  have hg' := hg.next hpair hstep
  have hover : Traced.Over ⟨s.world l, calls⟩ ⟨w, calls⟩ := ⟨hv.same, rfl⟩
  have hover' := hover.after env hv.reflects.sameImages hop
  obtain ⟨cs, hcs, hdl⟩ := Traced.after_since_of_ofLoader env ⟨s.world l, calls⟩ hop
  obtain ⟨cs', hcs', hdl'⟩ := Traced.after_since_of_ofLoader env ⟨w, calls⟩ hop
  have hcalls : cs' = cs :=
    List.append_cancel_right (hcs'.symm.trans (hover'.calls.trans hcs))
  have hworld : _ = (s.world l).after env op := Traced.after_world ⟨s.world l, calls⟩ op
  have hworld' : _ = w.after env op := Traced.after_world ⟨w, calls⟩ op
  have hsame := hover'.world
  generalize Traced.after env ⟨s.world l, calls⟩ op = t at *
  obtain ⟨t, calls'⟩ := t
  obtain rfl : v = t := (hworld.trans hafter).symm
  obtain rfl : calls' = cs ++ calls := hcs
  rw [hworld'] at hsame hdl'
  subst hcalls
  have hle : ∀ h, balance calls h ≤ s.dl.refs h := by
    intro h
    rw [hg.balance_eq, hS.counted, card_holders hl]
    split <;> omega
  have hown : ∀ h, (w.dl.refs h : Int) = balance calls h := by
    intro h
    rw [hg.balance_eq, hv.own]
    simp only [hv.keeps_iff]
    split <;> rfl
  have henabled : w.Enabled env op := by
    rw [hv.same]
    exact World.enabled_on (w := s.world l) hv.reflects.sameImages hop hen
  refine ⟨w.after env op, World.step_eq_some.mpr ⟨henabled, rfl⟩, hsame, ?_, ?_⟩
  · change v.dl.Reflects (w.after env op).dl
    rw [hdl, hdl']
    exact hv.reflects.run hle (fun h => (hown h).ge) hg'.even.warranted
  · intro h
    have hrefs := run_refs (fun h => (hown h).ge) hg'.even.warranted h
    have hk : (w.after env op).Keeps h ↔ v.Keeps h := by
      rw [hsame]
      exact Iff.rfl
    rw [hown, sub_self, hg'.balance_eq, sub_eq_zero] at hrefs
    change (w.after env op).dl = _ at hdl'
    rw [hdl']
    simp only [hk]
    by_cases hvk : v.Keeps h
    · rw [if_pos hvk] at hrefs ⊢
      exact_mod_cast hrefs
    · rw [if_neg hvk] at hrefs ⊢
      exact_mod_cast hrefs

/-- What the Loader sees of a step of another one. -/
theorem Sees.drift {op : World.Op} (hv : Sees s l w) (hS : Shared env s)
    (hlj : s.loaders.lookup j = some lj) (hop : op.OfLoader) (hpair : Traced.Paired .init op)
    (hs : World.step env (s.world lj) op = some v)
    (hle : ∀ h, w.dl.refs h + (if (s.world lj).Keeps h then 1 else 0) ≤ s.dl.refs h) :
    ∃ w', World.Drifts env w w' ∧ Sees (s.put j v) l w' := by
  obtain ⟨calls, hg⟩ := hS.good hlj
  obtain ⟨opening, hs', hcourse⟩ := hg.course hS.used hop hpair hs
  have hnext : s.next ≤ v.next := World.step_next hg.sound hs
  have hwnext : w.next = s.next := by rw [hv.same]; rfl
  have hbalance : ∀ h, (w.dl.refs h : Int) + balance calls h ≤ s.dl.refs h := by
    intro h
    have := hle h
    rw [hg.balance_eq]
    by_cases hk : (s.world lj).Keeps h <;> simp only [hk, if_true, if_false] at this ⊢ <;> omega
  have hdl := hcourse.dl
  rw [List.foldr_append] at hdl
  -- the opening call, if there is one, and then the closing calls
  obtain ⟨dl₁, n, hn, hdrift, hr, hrefs, hbalance₁⟩ : ∃ dl₁ n, n ≤ v.next ∧
      World.Drifts env w { w with dl := dl₁, next := n } ∧
      Dl.Reflects (opening.foldr DlCall.run s.dl) dl₁ ∧ (∀ h, dl₁.refs h = w.dl.refs h) ∧
      ∀ h, (dl₁.refs h : Int) + balance (opening ++ calls) h ≤
        Dl.refs (opening.foldr DlCall.run s.dl) h := by
    rcases hcourse.opening with rfl | ⟨lib, h, noDelete, hmay, hnext₂, rfl⟩
    · exact ⟨w.dl, w.next, hwnext ▸ hnext, .refl env w, hv.reflects, fun _ => rfl, hbalance⟩
    · obtain ⟨dl₁, n, _, hn, hdrift, hr, hrefs⟩ :=
        World.Drifts.opening env hv.reflects hmay noDelete
      rw [hwnext] at hn hr
      refine ⟨dl₁, n, hn.trans hnext₂, hdrift, hr, hrefs, fun h' => ?_⟩
      have hcount := s.dl.refs_dlopen lib h s.next noDelete h'
      have := hbalance h'
      change _ ≤ ((s.dl.dlopen lib h s.next noDelete).refs h' : Int)
      rw [List.singleton_append, balance_dlopen, hrefs, hcount]
      by_cases he : h = h' <;> simp only [he, if_true, if_false] <;> omega
  obtain ⟨dl₂, hdrift₂, hr₂, hrefs₂⟩ := World.Drifts.closes env
    (w := { w with dl := dl₁, next := n }) hs' hr hbalance₁ hcourse.warranted
  have htick := World.Drifts.ticks env { w with dl := dl₂, next := n } hn
  refine ⟨{ w with dl := dl₂, next := v.next }, hdrift.trans (hdrift₂.trans htick), ?_, ?_, ?_⟩
  · rw [hv.same]
    rfl
  · change v.dl.Reflects dl₂
    rw [hdl]
    exact hr₂
  · intro h
    exact (hrefs₂ h).trans ((hrefs h).trans (hv.own h))

theorem Sees.mem_holders (hv : Sees s (s.state i) w) {h : Handle} (hk : w.Keeps h) :
    i ∈ s.holders h := by
  rw [hv.keeps_iff] at hk
  rw [Loaders.mem_holders]
  cases hl : s.loaders.lookup i with
  | none =>
    rw [state, hl] at hk
    obtain ⟨hp, hheld, _⟩ := World.keeps_iff.mp hk
    simp [World.Held, world, LoaderState.new, Implementation.empty] at hheld
  | some l =>
    rw [state, hl] at hk
    exact ⟨l, rfl, hk⟩

theorem Sees.refs_le (hv : Sees s (s.state i) w) (hS : Shared env s) (h : Handle) :
    w.dl.refs h ≤ s.dl.refs h := by
  rw [hv.own, hS.counted]
  split
  · rename_i hk
    exact Finset.card_pos.mpr ⟨i, hv.mem_holders hk⟩
  · exact Nat.zero_le _

/-- The references of a Loader and of another one are different references. -/
theorem Sees.refs_add_le (hv : Sees s (s.state i) w) (hS : Shared env s)
    (hlj : s.loaders.lookup j = some lj) (hne : i ≠ j) (h : Handle) :
    w.dl.refs h + (if (s.world lj).Keeps h then 1 else 0) ≤ s.dl.refs h := by
  rw [hv.own, hS.counted, card_holders hlj]
  refine Nat.add_le_add_right ?_ _
  split
  · rename_i hk
    exact Finset.card_pos.mpr ⟨i, Finset.mem_erase.mpr ⟨hne, hv.mem_holders hk⟩⟩
  · exact Nat.zero_le _

theorem Sees.of_drifts (h : ∃ w', World.Drifts env w w' ∧ Sees s' (s'.state i) w') :
    ∃ l, Run (World.step env) w l ∧ Sees s' (s'.state i) (last w l) ∧
      (l.map (·.1)).filter (fun op => op.OfLoader) = [] := by
  obtain ⟨_, ⟨l, hrun, rfl, hops⟩, hsees⟩ := h
  refine ⟨l, hrun, hsees, ?_⟩
  rw [List.filter_eq_nil_iff]
  intro op hop
  obtain ⟨e, he, rfl⟩ := List.mem_map.mp hop
  rw [decide_eq_true_eq]
  exact hops e he

/-- One step of the Loaders, as the Loader with the number `i` takes part in it. -/
theorem Sees.next {op : Op} (hv : Sees s (s.state i) w) (hS : Shared env s)
    (hpair : s.Paired op) (hs : step env s op = some s') :
    ∃ l, Run (World.step env) w l ∧ Sees s' (s'.state i) (last w l) ∧
      (l.map (·.1)).filter (fun op => op.OfLoader) = (op.of i).toList := by
  cases op with
  | construct j =>
    simp only [step, Option.ite_none_left_eq_some, Option.some.injEq] at hs
    obtain ⟨hj, rfl⟩ := hs
    have hstate : Loaders.state { s with loaders := s.loaders.insert j .new } i = s.state i := by
      unfold state
      rw [lookup_insert_eq]
      split
      · rename_i he
        rw [he, Finmap.lookup_eq_none.mpr hj]
        rfl
      · rfl
    refine ⟨[], .nil w, ?_, rfl⟩
    rw [hstate]
    exact ⟨hv.same, hv.reflects, hv.own⟩
  | act j op =>
    simp only [step, Option.ite_none_right_eq_some, Option.bind_eq_some_iff,
      Option.map_eq_some_iff] at hs
    obtain ⟨hop, lj, hlj, v, hs, rfl⟩ := hs
    by_cases hij : i = j
    · subst hij
      have hstate : s.state i = lj := by rw [state, hlj, Option.getD_some]
      have hstate' : (s.put i v).state i =
          ⟨v.impl, v.alive, v.instances, v.locals, v.thrown⟩ := by
        rw [state, put_lookup, if_pos rfl, Option.getD_some]
      rw [hstate] at hv
      obtain ⟨w', hs', hsees⟩ := hv.act hS hlj hop hpair hs
      refine ⟨[(op, w')], .cons hs' (.nil w'), ?_, ?_⟩
      · rw [hstate']
        exact hsees
      · simp [Op.of, hop]
    · have hstate' : (s.put j v).state i = s.state i := by
        rw [state, put_lookup, if_neg hij, state]
      have hnone : Op.of i (.act j op) = none := if_neg (Ne.symm hij)
      rw [hnone]
      apply Sees.of_drifts
      rw [hstate']
      exact hv.drift hS hlj hop hpair hs (hv.refs_add_le hS hlj hij)
  | otherOpen lib h =>
    simp only [step, Option.ite_none_right_eq_some, Option.some.injEq] at hs
    obtain ⟨hmay, rfl⟩ := hs
    have hwnext : w.next = s.next := by rw [hv.same]; rfl
    apply Sees.of_drifts
    refine ⟨_, World.Drifts.otherOpen env (hv.reflects.sameImages.mayReturn_iff.mpr hmay), ?_, ?_, ?_⟩
    · rw [hv.same]
      rfl
    · rw [hwnext]
      exact hv.reflects.otherOpen lib h s.next
    · intro h'
      exact (w.dl.refs_otherOpen lib h w.next h').trans (hv.own h')
  | otherClose h =>
    simp only [step, Option.ite_none_right_eq_some, Option.some.injEq] at hs
    obtain ⟨hpos, rfl⟩ := hs
    obtain ⟨hpos', hr⟩ := hv.reflects.otherClose (hv.refs_le hS h) hpos
    apply Sees.of_drifts
    refine ⟨_, World.Drifts.otherClose env hpos', ?_, hr, ?_⟩
    · rw [hv.same]
      rfl
    · intro h'
      exact (w.dl.refs_otherClose h h').trans (hv.own h')

/-- In every interleaving, each Loader goes through a run of the single Loader: its own
operations in their order, and others who use the linker in between. -/
theorem exists_run_of_loader (env : Env) {l : List (Op × Loaders)}
    (hrun : Run (step env) init l) (hpair : Steps Paired init l) (i : Nat) :
    ∃ l', Run (World.step env) World.init l' ∧
      Sees (last init l) ((last init l).state i) (last World.init l') ∧
      (l'.map (·.1)).filter (fun op => op.OfLoader) = l.filterMap fun e => e.1.of i := by
  suffices h : ∀ {s w}, Shared env s → Sees s (s.state i) w → ∀ {l}, Run (step env) s l →
      Steps Paired s l → ∃ l', Run (World.step env) w l' ∧
        Sees (last s l) ((last s l).state i) (last w l') ∧
        (l'.map (·.1)).filter (fun op => op.OfLoader) = l.filterMap fun e => e.1.of i from
    h (init_shared env) init_sees hrun hpair
  clear hrun hpair
  intro s w hS hv l hrun hpair
  induction hrun generalizing w with
  | nil s => exact ⟨[], .nil w, hv, rfl⟩
  | @cons s t op l hs _ ih =>
    obtain ⟨l₁, hrun₁, hv₁, hops₁⟩ := hv.next hS hpair.1 hs
    obtain ⟨l₂, hrun₂, hv₂, hops₂⟩ := ih (hS.next hpair.1 hs) hv₁ hpair.2
    refine ⟨l₁ ++ l₂, hrun₁.append hrun₂, ?_, ?_⟩
    · rw [last_append]
      exact hv₂
    · rw [List.map_append, List.filter_append, hops₁, hops₂]
      cases hof : op.of i <;> simp [hof]

/-- The second of two Loaders loads a library and is destroyed, both by itself. -/
theorem exists_run_of_twoLoaders :
    ∃ l', Run (World.step sharedName) World.init l' ∧
      Sees (last init (history (step sharedName) init twoLoaders))
        ((last init (history (step sharedName) init twoLoaders)).state 2) (last World.init l') ∧
      (l'.map (·.1)).filter (fun op => op.OfLoader) =
        (history (step sharedName) init twoLoaders).filterMap fun e => e.1.of 2 :=
  exists_run_of_loader sharedName (history_run _ init twoLoaders) (by decide) 2

end Loaders

end GzPlugin
