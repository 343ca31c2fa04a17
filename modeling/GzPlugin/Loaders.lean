import GzPlugin.Balance
import GzPlugin.Records

/-!
# Several Loaders in one process

Every Loader has tables and instances of its own. They share the dynamic linker, which has
one count for a library and does not know which Loader a call comes from. The Loaders keep
that count right together: it is the number of Loaders that hold the library.
-/

namespace GzPlugin

open FiniteMaps Runs DlCall

set_option autoImplicit false

/-- The part of a `World` that one Loader has for itself. -/
structure LoaderState where
  impl : Implementation
  alive : Bool
  instances : Finmap fun _ : Nat => PluginWithDlHandle
  locals : List DlHandlePtr
  thrown : Bool

/-- A Loader that has just been constructed. -/
def LoaderState.new : LoaderState := ⟨.empty, true, ∅, [], false⟩

/-- The Loaders of a process, by number, also those that are gone while instances are left. -/
structure Loaders where
  dl : Dl
  next : Nat
  loaders : Finmap fun _ : Nat => LoaderState

/-- Whether the operation is one of the Loader and its instances. -/
def World.Op.OfLoader : World.Op → Prop
  | .otherOpen _ _ | .otherClose _ => False
  | _ => True

instance (op : World.Op) : Decidable op.OfLoader := by
  induction op using World.Op.casesOn <;> unfold World.Op.OfLoader <;> infer_instance

namespace Loaders

def init : Loaders := ⟨∅, 0, ∅⟩

/-- What a Loader works on. -/
def world (s : Loaders) (l : LoaderState) : World :=
  ⟨s.dl, l.impl, l.alive, l.instances, l.locals, s.next, l.thrown⟩

def put (s : Loaders) (i : Nat) (w : World) : Loaders :=
  ⟨w.dl, w.next, s.loaders.insert i ⟨w.impl, w.alive, w.instances, w.locals, w.thrown⟩⟩

/-- A Loader is constructed, a Loader or one of its instances does something, or somebody
else uses the linker. -/
inductive Op where
  | construct (i : Nat)
  | act (i : Nat) (op : World.Op)
  | otherOpen (lib : LibId) (h : Handle)
  | otherClose (h : Handle)

/-- As in `World.step`, a call into code that is not mapped is not noticed. -/
def step (env : Env) (s : Loaders) : Op → Option Loaders
  | .construct i =>
    if i ∈ s.loaders then none
    else some { s with loaders := s.loaders.insert i .new }
  | .act i op =>
    if op.OfLoader then
      (s.loaders.lookup i).bind fun l => (World.step env (s.world l) op).map (s.put i)
    else none
  | .otherOpen lib h =>
    if s.dl.MayReturn lib h then
      some { s with dl := s.dl.otherOpen lib h s.next, next := s.next + 1 }
    else none
  | .otherClose h =>
    if ∃ m ∈ s.dl.lookup h, 0 < m.otherRefs then some { s with dl := s.dl.otherClose h }
    else none

/-- Every call of `dlopen` by a Loader reports an error exactly if it returns no handle. -/
def Paired (_ : Loaders) : Op → Prop
  | .act _ op => Traced.Paired .init op
  | _ => True

instance (s : Loaders) (op : Op) : Decidable (s.Paired op) := by
  induction op using Op.casesOn <;> unfold Paired <;> infer_instance

end Loaders

/-- The Loader, or an instance that it made, has a `shared_ptr` to the handle. -/
def World.Keeps (w : World) (h : Handle) : Prop :=
  Has (fun _ hp => hp.handle = h) w.impl.pluginToDlHandlePtrs ∨
  Has (fun _ i => ∃ hp ∈ i.dlHandlePtr, hp.handle = h) w.instances ∨
  ∃ hp ∈ w.locals, hp.handle = h

instance (w : World) (h : Handle) : Decidable (w.Keeps h) := by
  unfold World.Keeps; infer_instance

theorem World.keeps_iff {w : World} {h : Handle} :
    w.Keeps h ↔ ∃ hp, w.Held hp ∧ hp.handle = h := by
  constructor
  · rintro (⟨name, hp, hl, he⟩ | ⟨block, i, hi, hp, hhp, he⟩ | ⟨hp, hmem, he⟩)
    · exact ⟨hp, held_of_handle hl, he⟩
    · exact ⟨hp, held_of_instance hi hhp, he⟩
    · exact ⟨hp, Or.inr (Or.inr hmem), he⟩
  · rintro ⟨hp, hheld | hheld | hmem, he⟩
    · exact Or.inl (hheld.imp fun _ _ heq => heq ▸ he)
    · exact Or.inr (Or.inl (hheld.imp fun _ _ hhp => ⟨hp, hhp, he⟩))
    · exact Or.inr (Or.inr ⟨hp, hmem, he⟩)

/-! ### The count of a handle -/

namespace Dl

/-- The calls of `dlopen` that no `dlclose` has undone. -/
def refs (dl : Dl) (h : Handle) : Nat := ((dl.lookup h).map (·.loaderRefs)).getD 0

variable {dl : Dl} {h h' : Handle} {m : Mapping}

theorem refs_of_lookup (hm : dl.lookup h = some m) : dl.refs h = m.loaderRefs := by
  rw [refs, hm, Option.map_some, Option.getD_some]

theorem lookup_of_refs (hpos : 0 < dl.refs h) :
    ∃ m, dl.lookup h = some m ∧ m.loaderRefs = dl.refs h := by
  unfold refs at hpos ⊢
  cases hm : dl.lookup h with
  | none =>
    rw [hm] at hpos
    exact absurd hpos (Nat.lt_irrefl 0)
  | some m => exact ⟨m, rfl, rfl⟩

theorem refs_congr {dl' : Dl} (he : dl'.lookup h = dl.lookup h) : dl'.refs h = dl.refs h := by
  rw [refs, refs, he]

theorem refs_dlopen (dl : Dl) (lib : LibId) (h : Handle) (serial : Nat) (noDelete : Bool)
    (h' : Handle) :
    (dl.dlopen lib h serial noDelete).refs h' = dl.refs h' + if h = h' then 1 else 0 := by
  by_cases he : h = h'
  · subst he
    have hopen : (dl.dlopen lib h serial noDelete).lookup h =
        some (dl.opened lib h serial noDelete) := by rw [dlopen_lookup, if_pos rfl]
    rw [refs_of_lookup hopen, if_pos rfl, refs]
    unfold opened
    cases dl.lookup h <;> rfl
  · have hsame : (dl.dlopen lib h serial noDelete).lookup h' = dl.lookup h' := by
      rw [dlopen_lookup, if_neg (Ne.symm he)]
    rw [if_neg he, refs_congr hsame, Nat.add_zero]

theorem put_refs (dl : Dl) (h : Handle) (m : Mapping) : (dl.put h m).refs h = m.loaderRefs := by
  rw [refs, put_lookup, if_pos rfl]
  split
  · rfl
  · rename_i hnot
    have hzero : m.loaderRefs = 0 := Nat.eq_zero_of_not_pos fun hpos => hnot (Or.inl hpos)
    exact hzero.symm

theorem refs_dlclose (hpos : 0 < dl.refs h) (h' : Handle) :
    (dl.dlclose h).refs h' + (if h = h' then 1 else 0) = dl.refs h' := by
  by_cases he : h = h'
  · subst he
    obtain ⟨m, hm, hrefs⟩ := lookup_of_refs hpos
    simp only [dlclose, hm, put_refs, if_true]
    omega
  · rw [if_neg he, refs_congr (dlclose_lookup_ne dl (Ne.symm he)), Nat.add_zero]

theorem refs_otherOpen (dl : Dl) (lib : LibId) (h : Handle) (serial : Nat) (h' : Handle) :
    (dl.otherOpen lib h serial).refs h' = dl.refs h' := by
  by_cases he : h' = h
  · subst he
    unfold otherOpen refs
    cases hm : dl.lookup h' <;> simp
  · exact refs_congr (otherOpen_lookup_ne dl lib serial he)

theorem refs_otherClose (dl : Dl) (h h' : Handle) : (dl.otherClose h).refs h' = dl.refs h' := by
  by_cases he : h' = h
  · subst he
    unfold otherClose
    cases hm : dl.lookup h' with
    | none => rfl
    | some m => exact (put_refs dl h' _).trans (refs_of_lookup hm).symm
  · exact refs_congr (otherClose_lookup_ne dl he)

end Dl

namespace DlCall

variable {calls cs : List DlCall} {h : Handle} {c : DlCall} {dl : Dl}

theorem Warranted.tail (hw : Warranted (c :: calls)) : Warranted calls := by
  intro later h earlier he
  exact hw (c :: later) h earlier (by rw [he, List.cons_append])

theorem Warranted.nonneg (hw : Warranted (cs ++ calls)) (hle : 0 ≤ balance calls h) :
    0 ≤ balance (cs ++ calls) h := by
  induction cs with
  | nil => exact hle
  | cons c cs ih =>
    have hrest := ih hw.tail
    cases c with
    | dlopen lib h' serial noDelete =>
      rw [List.cons_append, balance_dlopen]
      split <;> omega
    | dlclose h' =>
      rw [List.cons_append, balance_dlclose]
      split
      · rename_i he
        have hpos : 0 < balance (cs ++ calls) h' := hw [] h' (cs ++ calls) rfl
        rw [he] at hpos
        omega
      · omega

/-- The count follows the balance of the calls. `calls` are those that this Loader made
before, and the count may also have references of other Loaders. -/
theorem run_refs (hle : ∀ h, balance calls h ≤ dl.refs h) (hw : Warranted (cs ++ calls))
    (h : Handle) : ((cs.foldr run dl).refs h : Int) - balance (cs ++ calls) h =
      dl.refs h - balance calls h := by
  induction cs generalizing h with
  | nil => rfl
  | cons c cs ih =>
    have hrest := ih hw.tail
    cases c with
    | dlopen lib h' serial noDelete =>
      have hrefs := (cs.foldr run dl).refs_dlopen lib h' serial noDelete h
      rw [List.cons_append, balance_dlopen, List.foldr_cons, run, hrefs, ← hrest h]
      split <;> omega
    | dlclose h' =>
      have hpos : 0 < balance (cs ++ calls) h' := hw [] h' (cs ++ calls) rfl
      have hcount : 0 < (cs.foldr run dl).refs h' := by
        have := hrest h'
        have := hle h'
        omega
      have hrefs := Dl.refs_dlclose hcount h
      rw [List.cons_append, balance_dlclose, List.foldr_cons, run, ← hrest h, ← hrefs]
      split <;> omega

/-- A library that somebody else holds as well stays where it is. -/
theorem run_kept (hle : ∀ h, balance calls h ≤ dl.refs h) (hnonneg : 0 ≤ balance calls h)
    (hw : Warranted (cs ++ calls)) (hlt : balance calls h < dl.refs h) {m : Mapping}
    (hm : dl.lookup h = some m) : ∃ m', (cs.foldr run dl).lookup h = some m' ∧
      m'.image = m.image ∧ 0 < m'.loaderRefs := by
  induction cs with
  | nil =>
    refine ⟨m, hm, rfl, ?_⟩
    have := Dl.refs_of_lookup hm
    omega
  | cons c cs ih =>
    obtain ⟨m', hm', himage, _⟩ := ih hw.tail
    have hrefs := run_refs hle hw h
    have hbalance := hw.nonneg hnonneg
    have hpos : 0 < ((c :: cs).foldr run dl).refs h := by omega
    obtain ⟨m'', hm'', hcount⟩ := Dl.lookup_of_refs hpos
    refine ⟨m'', hm'', ?_, by omega⟩
    cases c with
    | dlopen lib h' serial noDelete =>
      rw [List.foldr_cons, run, Dl.dlopen_lookup] at hm''
      split at hm''
      · rename_i he
        rw [he] at hm'
        rw [Dl.opened_of_open hm'] at hm''
        rw [← himage, ← Option.some.inj hm'']
      · rw [hm'] at hm''
        rw [← himage, Option.some.inj hm'']
    | dlclose h' =>
      obtain ⟨x, hx, _, hi⟩ := Dl.dlclose_extends (cs.foldr run dl) h' h m'' hm''
      rw [hm'] at hx
      rw [← hi, ← Option.some.inj hx, himage]

end DlCall

end GzPlugin
