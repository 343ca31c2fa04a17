import GzPlugin.PrettyStr
import GzPlugin.LoadFailure
import GzPlugin.Reloading
import GzPlugin.Sharing

/-!
# The command that shows what is in a library

`cmdPluginInfo` loads a library into a Loader of its own and prints what it finds there.
Whatever goes wrong in `LoadLib` is told on the error stream. When the Loader is destroyed,
the linker should be back where it was.
-/

namespace GzPlugin

open FiniteMaps Runs Layout

set_option autoImplicit false

/-- Why `LoadLib` has nothing to load, with the values that the message shows. -/
inductive LoadError where
  /-- `none` where `dlerror` returns a null pointer. -/
  | notOpened (loadError : Option String)
  | noHook
  | version (received : Int)
  | layout (size alignment : Nat)
  | noInfo
  deriving DecidableEq

/-- `<< loadError << std::endl`. A null pointer sets `badbit`, and the stream takes no more. -/
def lineOf : Option String → String
  | some loadError => loadError ++ "\n"
  | none => ""

/-- What is written to `std::cerr`. -/
def LoadError.message (abi : Abi) (path : String) : LoadError → String
  | notOpened loadError => "Error while loading the library [" ++ path ++ "]: " ++ lineOf loadError
  | noHook =>
    "Library [" ++ path ++ "] does not export any " ++ "plugins. The symbol [" ++ "GzPluginHook" ++
      "] is missing, " ++ "or it is not externally visible.\n"
  | version received =>
    "The library [" ++ path ++ "] is using an " ++ "incompatible version [" ++ toString received ++
      "] of the " ++ "gz::plugin Info API. The version in this library " ++ "is [" ++
      toString abi.version ++ "].\n"
  | layout size alignment =>
    "The plugin::Info size or alignment are not consistent " ++
      "with the expected values for the library [" ++ path ++ "]:\n -- size: expected " ++
      toString abi.size ++ " | received " ++ toString size ++ "\n -- alignment: expected " ++
      toString abi.alignment ++ " | received " ++ toString alignment ++ "\n" ++
      " -- We will not be able to safely load plugins from that " ++ "library.\n"
  | noInfo =>
    "The library [" ++ path ++ "] failed to provide " ++
      "gz::plugin Info for unknown reasons. Please report " ++ "this error as a bug!\n"

/-- The exit that `LoadPlugins` takes, if it is one with a message. -/
def loadPluginsError {Code : Type} (abi : Abi) :
    Option (HookArgs Code → HookArgs Code) → Option LoadError
  | none => some .noHook
  | some infoHook =>
    let out := infoHook ⟨some none, some abi.version, some abi.size, some abi.alignment⟩
    if some abi.version ≠ out.version then some (.version (out.version.getD abi.version))
    else if some abi.size ≠ out.size ∨ some abi.alignment ≠ out.alignment then
      some (.layout (out.size.getD abi.size) (out.alignment.getD abi.alignment))
    else match out.outputAllInfo with
      | some (some _) => none
      | _ => some .noInfo

namespace World

/-- The exit that `Loader::LoadLib` takes; `loadError` is what `dlerror` returns after `dlopen`,
`none` for a null pointer. -/
def loadLibError (env : Env) (path : String) (handle : Option Handle)
    (loadError : Option String) : Option LoadError :=
  match handle, env.resolve path with
  | some _, some lib =>
    if loadError.isSome then some (.notOpened loadError)
    else loadPluginsError env.abi (env.library lib).hook
  | _, _ => some (.notOpened loadError)

/-- What `LoadLib` writes to `std::cerr`. -/
def errorText (env : Env) (path : String) (handle : Option Handle)
    (loadError : Option String) : String :=
  match loadLibError env path handle loadError with
  | none => ""
  | some e => e.message env.abi path

end World

/-! ### Messages -/

namespace LoadError

variable {abi : Abi} {path : String}

theorem lineOf_injective : Function.Injective lineOf := by
  intro text text' h
  cases text with
  | none =>
    cases text' with
    | none => rfl
    | some s => exact absurd (String.append_eq_empty_iff.mp h.symm).2 (by decide)
  | some s =>
    cases text' with
    | none => exact absurd (String.append_eq_empty_iff.mp h).2 (by decide)
    | some s' => rw [(String.append_left_inj "\n").mp h]

theorem message_ne_empty (e : LoadError) : e.message abi path ≠ "" := by
  intro h
  unfold message at h
  cases e <;>
    · simp only [String.append_assoc] at h
      exact absurd (String.append_eq_empty_iff.mp h).1 (by decide)

theorem message_injective (abi : Abi) (path : String) :
    Function.Injective (message abi path) := by
  intro e e' h
  unfold message at h
  cases e with
  | notOpened loadError =>
    cases e' with
    | notOpened loadError' =>
      simp only [String.append_assoc, String.append_right_inj] at h
      rw [lineOf_injective h]
    | _ =>
      simp only [String.append_assoc] at h
      exact absurd h (append_ne 7 (by decide) (by decide) (by decide))
  | noHook =>
    cases e' with
    | noHook => rfl
    | _ =>
      simp only [String.append_assoc] at h
      exact absurd h (append_ne 7 (by decide) (by decide) (by decide))
  | version received =>
    cases e' with
    | version received' =>
      simp only [String.append_assoc, String.append_right_inj] at h
      rw [(int_append_inj (by simp) (by simp) h).1]
    | noInfo =>
      simp only [String.append_assoc, String.append_right_inj] at h
      exact absurd h (append_ne 3 (by decide) (by decide) (by decide))
    | _ =>
      simp only [String.append_assoc] at h
      exact absurd h (append_ne 7 (by decide) (by decide) (by decide))
  | layout size alignment =>
    cases e' with
    | layout size' alignment' =>
      simp only [String.append_assoc, String.append_right_inj] at h
      obtain ⟨hsize, h⟩ := repr_append_inj (by simp) (by simp) h
      simp only [String.append_right_inj] at h
      rw [hsize, (repr_append_inj (by simp) (by simp) h).1]
    | _ =>
      simp only [String.append_assoc] at h
      exact absurd h (append_ne 7 (by decide) (by decide) (by decide))
  | noInfo =>
    cases e' with
    | noInfo => rfl
    | version received =>
      simp only [String.append_assoc, String.append_right_inj] at h
      exact absurd h (append_ne 3 (by decide) (by decide) (by decide))
    | _ =>
      simp only [String.append_assoc] at h
      exact absurd h (append_ne 7 (by decide) (by decide) (by decide))

end LoadError

theorem loadPlugins_of_error {Code : Type} {abi : Abi}
    {infoHook : Option (HookArgs Code → HookArgs Code)} {e : LoadError}
    (h : loadPluginsError abi infoHook = some e) : loadPlugins abi infoHook = ∅ := by
  unfold loadPluginsError at h
  unfold loadPlugins
  cases infoHook with
  | none => rfl
  | some infoHook =>
    simp only at h ⊢
    split
    · rfl
    · rename_i hversion
      rw [if_neg hversion] at h
      split
      · rfl
      · rename_i hlayout
        rw [if_neg hlayout] at h
        split
        · rename_i hout
          simp [hout] at h
        · rfl

namespace World

variable {env env' : Env} {w w' : World} {path : String} {res : DlopenResult}
  {handle : Option Handle} {loadError : Option String}

theorem openLib_some {noDelete : Bool} {hp : DlHandlePtr}
    (h : w.openLib env path noDelete res = (some hp, w')) :
    ∃ h₀ lib, res.handle = some h₀ ∧ env.resolve path = some lib ∧ res.error = false := by
  unfold openLib at h
  split at h
  · rename_i h₀ lib hhandle hlib
    refine ⟨h₀, lib, hhandle, hlib, ?_⟩
    cases herr : res.error with
    | false => rfl
    | true => simp [herr] at h
  · cases h

/-- After a message there is nothing to load. -/
theorem loadLib_of_error {infos : List (Info Symbol)} {e : LoadError} (noDelete : Bool)
    (h : loadLibError env path handle loadError = some e) (hvec : LoadedInOrder env path infos) :
    (w.loadLib env path noDelete ⟨handle, loadError.isSome⟩ infos).1 = ∅ := by
  unfold loadLibError at h
  cases hopen : w.openLib env path noDelete ⟨handle, loadError.isSome⟩ with
  | mk dlHandle w₁ =>
    cases dlHandle with
    | none => simp only [loadLib, hopen]
    | some hp =>
      obtain ⟨h₀, lib, hhandle, hlib, herr⟩ := openLib_some hopen
      simp only at hhandle herr
      simp only [hhandle, hlib, herr, Bool.false_eq_true, if_false] at h
      have hnone : infos = [] := by
        apply enumerates_empty
        have hmap := hvec lib hlib
        rwa [Env.allInfo, loadPlugins_of_error h] at hmap
      rw [hnone, loadLib_nil hopen]

/-- Two calls of `LoadLib` for one path print the same exactly if they end in the same way,
and after a message no plugins are loaded. -/
theorem errorText_eq_iff (habi : env.abi = env'.abi) (path : String)
    (handle handle' : Option Handle) (loadError loadError' : Option String) :
    (errorText env path handle loadError = errorText env' path handle' loadError' ↔
      loadLibError env path handle loadError = loadLibError env' path handle' loadError') ∧
    (errorText env path handle loadError ≠ "" → ∀ (w : World) (noDelete : Bool)
      (infos : List (Info Symbol)), LoadedInOrder env path infos →
        (w.loadLib env path noDelete ⟨handle, loadError.isSome⟩ infos).1 = ∅) := by
  unfold errorText
  rw [← habi]
  cases he : loadLibError env path handle loadError with
  | none =>
    refine ⟨?_, fun hne => absurd rfl hne⟩
    cases loadLibError env' path handle' loadError' with
    | none => exact iff_of_true rfl rfl
    | some e' => exact iff_of_false (e'.message_ne_empty).symm nofun
  | some e =>
    refine ⟨?_, fun _ w noDelete infos hvec => loadLib_of_error noDelete he hvec⟩
    cases loadLibError env' path handle' loadError' with
    | none => exact iff_of_false e.message_ne_empty nofun
    | some e' => rw [Option.some.injEq, (LoadError.message_injective env.abi path).eq_iff]

/-- Every library was built for that version of the `Info` API. -/
def builtFor (version : Int) : Env := { sharedName with
  library := fun _ => {
    hook := some fun args => { args with version := some version }
    keyed := by
      intro f hf args allInfo hnull hout
      cases hf
      rw [hnull] at hout
      cases hout } }

theorem errorText_ne_builtFor :
    errorText (builtFor 7) "a" (some 1) none ≠ errorText (builtFor 8) "a" (some 1) none := by
  have habi : (builtFor 7).abi = (builtFor 8).abi := rfl
  have htexts := (errorText_eq_iff habi "a" (some 1) (some 1) none none).1
  exact mt htexts.mp (by decide)

end World

/-! ### The command -/

/-- What the command writes. -/
structure Output where
  cout : String
  cerr : String

/-- The choices of the system and of the hash containers during one call. -/
structure Choices where
  dlHandle : Option Handle
  loadError : Option String
  loadedPlugins : List (Info Symbol)
  pluginNames : List String
  interfacesImplemented : List String
  fileInterfaces : List String
  staticInterfaces : List String
  teardown : List String

/-- The lines about one of the two sets in the short report. -/
def foundLines (one many : String) (found : List String) : String :=
  "* Found " ++ toString found.length ++ plural found.length one many ++ " in library file:\n" ++
    unlines (found.map fun name => "  - " ++ name)

/-- A new Loader in a process that has used the linker before. -/
def World.newLoader (dl : Dl) (next : Nat) : World := ⟨dl, .empty, true, ∅, [], next, false⟩

/-- What `dlopen` and `dlerror` return. -/
def Choices.res (c : Choices) : World.DlopenResult := ⟨c.dlHandle, c.loadError.isSome⟩

/-- The Loader of the command after `LoadLib`. -/
def Choices.loaded (c : Choices) (env : Env) (path : String) (dl : Dl) (next : Nat) :
    Finset String × World :=
  (World.newLoader dl next).loadLib env path false c.res c.loadedPlugins

/-- `cmdPluginInfo`; a null pointer is `none`. -/
def cmdPluginInfo (env : Env) (plugin : Option String) (verbose : Int) (c : Choices) (dl : Dl)
    (next : Nat) : Output × Dl :=
  match plugin.filter (· ≠ "") with
  | none => (⟨"", "Invalid plugin file name. Plugin name must not be empty.\n"⟩, dl)
  | some path =>
    let pl := (c.loaded env path dl next).2
    let report :=
      if verbose ≠ 0 then pl.prettyStr env c.fileInterfaces c.staticInterfaces ++ "\n"
      else foundLines " plugin" " plugins" c.pluginNames ++
        foundLines " interface" " interfaces" c.interfacesImplemented
    (⟨"Loading plugin library file [" ++ path ++ "]\n" ++ report,
      World.errorText env path c.dlHandle c.loadError⟩, (pl.destroyLoader c.teardown).dl)

/-- The choices are possible: each list walks its container. -/
structure Choices.Possible (c : Choices) (env : Env) (path : String) (dl : Dl) (next : Nat) :
    Prop where
  res : (World.newLoader dl next).DlopenMayReturn env path c.res
  loadedPlugins : World.LoadedInOrder env path c.loadedPlugins
  pluginNames : (c.pluginNames : Multiset String) = (c.loaded env path dl next).1.val
  interfacesImplemented : (c.interfacesImplemented : Multiset String) =
    ((c.loaded env path dl next).2.interfacesImplemented env).val
  fileInterfaces : (c.fileInterfaces : Multiset String) =
    (c.loaded env path dl next).2.impl.filePlugins.view.interfacesImplemented.val
  staticInterfaces : (c.staticInterfaces : Multiset String) =
    env.statics.view.interfacesImplemented.val
  teardown : (c.teardown : Multiset String) =
    (c.loaded env path dl next).2.impl.pluginToDlHandlePtrs.keys.val

/-! ### The linker -/

namespace World

variable {env : Env} {w w' : World}

theorem not_held {hp : DlHandlePtr} (himpl : w.impl = .empty) (hinst : w.instances = ∅)
    (hlocals : w.locals = []) : ¬ w.Held hp := by
  simp [Held, himpl, hinst, hlocals, Implementation.empty]

/-- If nobody held a handle, the linker has not been called. -/
theorem Reclaims.idle (h : Reclaims w w') (hnone : ∀ hp, ¬ w.Held hp) : w'.dl = w.dl :=
  Finmap.ext_lookup fun _ => h.kept fun r hr => absurd hr (hnone r)

end World

namespace Loaders

variable {env : Env} {s : Loaders} {path : String} {c : Choices}

theorem Shared.newLoader_sound (hS : Shared env s) :
    World.Sound env (.newLoader s.dl s.next) := by
  obtain ⟨i, hi⟩ := Infinite.exists_notMem_finset s.loaders.keys
  obtain ⟨_, hgood⟩ :=
    (hS.construct fun hm => hi (Finmap.mem_keys.mpr hm)).good (Finmap.lookup_insert _)
  exact hgood.sound

/-- The command closes the library that it has opened, unless `dlerror` reports something
although `dlopen` has returned a handle. -/
theorem Shared.command_dl (hS : Shared env s) (hc : c.Possible env path s.dl s.next) :
    ((c.loaded env path s.dl s.next).2.destroyLoader c.teardown).dl = s.dl ↔
      ¬ (c.res.handle.isSome ∧ c.res.error = true) := by
  have hsound := hS.newLoader_sound
  have hnone : ∀ hp, ¬ (World.newLoader s.dl s.next).Held hp := fun hp =>
    World.not_held rfl rfl rfl
  rcases World.openLib_cases false hsound.linked rfl hc.res with
    ⟨w₁, he, hlink, himpl, har, herr⟩ | ⟨lib, hp, w₁, he, ho⟩
  · have hloaded : c.loaded env path s.dl s.next = (∅, w₁) := by
      simp only [Choices.loaded, World.loadLib, he]
    have hidle : (w₁.destroyLoader c.teardown).dl = w₁.dl :=
      (World.destroyLoader_reclaims c.teardown hlink).idle fun hp =>
        World.not_held himpl har.instances har.locals
    rw [hloaded, hidle]
    cases hres : c.res.handle with
    | none =>
      refine iff_of_true ?_ (by simp)
      simp only [World.openLib, hres, Prod.mk.injEq, true_and] at he
      rw [← he]
      rfl
    | some h =>
      obtain ⟨lib, hlib, _⟩ := hc.res h hres
      have herror : c.res.error = true := herr lib h hlib hres
      refine iff_of_false ?_ (by simp [herror])
      rw [Option.mem_def] at hlib
      simp only [World.openLib, hres, hlib, herror, if_true, Prod.mk.injEq, true_and] at he
      intro hsame
      have hrefs := s.dl.refs_dlopen lib h s.next false h
      have hdl : s.dl.dlopen lib h s.next false = s.dl := (congrArg World.dl he).trans hsame
      rw [hdl, if_pos rfl] at hrefs
      omega
  · have herr : c.res.error = false := ho.noError
    refine iff_of_true ?_ (by simp [herr])
    have hloaded := (ho.loaded he hc.loadedPlugins).2
    have hreclaims := (World.loadLib_reclaims ho he c.loadedPlugins).trans ho.linked
      (World.destroyLoader_reclaims c.teardown hloaded.linked)
    obtain ⟨himpl, _, _, hinst, hlocals, _, _⟩ :=
      World.destroyLoader_spec hloaded.linked hc.teardown
    have hgone : ∀ hp, ¬ ((c.loaded env path s.dl s.next).2.destroyLoader c.teardown).Held hp :=
      fun hp => World.not_held himpl (hinst.trans hloaded.around.instances)
        (hlocals.trans hloaded.around.locals)
    exact (ho.dl_eq hsound.linked rfl he hreclaims
      fun hp => iff_of_false (hgone hp) (hnone hp)).trans (hS.used.open_close lib hp.handle s.next)

/-- In every process that uses Loaders, the command leaves the linker as it was, exactly if
`dlerror` does not report something together with a handle. -/
theorem dl_eq_of_cmdPluginInfo (env : Env) {l : List (Op × Loaders)}
    (hrun : Run (step env) init l) (hpair : Steps Paired init l) (hpath : path ≠ "")
    (hc : c.Possible env path (last init l).dl (last init l).next) (verbose : Int) :
    (cmdPluginInfo env (some path) verbose c (last init l).dl (last init l).next).2 =
        (last init l).dl ↔ ¬ (c.res.handle.isSome ∧ c.res.error = true) := by
  have hplugin : (some path).filter (· ≠ "") = some path := by simp [hpath]
  have hS : Shared env (last init l) := (shared_of_paired env hrun hpair).last
  unfold cmdPluginInfo
  rw [hplugin]
  exact hS.command_dl hc

/-- A call for the library that a Loader has loaded before. -/
def showLoaded : Choices where
  dlHandle := some 1
  loadError := none
  loadedPlugins := [pluginOf "p" p_ne ["I"] ["x"]]
  pluginNames := ["p"]
  interfacesImplemented := ["I"]
  fileInterfaces := ["I"]
  staticInterfaces := []
  teardown := ["p"]

def oneLoaded : List (Op × Loaders) := history (step sharedName) init (twoLoaders.take 2)

theorem showLoaded_possible {s : Loaders} 
    (hs : s = init ∨ s = oneLoader ∨ s = last init oneLoaded) :
    showLoaded.Possible sharedName "a" s.dl s.next := by
  have hload : (World.newLoader s.dl s.next).Enabled sharedName
      (.loadLib "a" false ⟨some 1, false⟩ [pluginOf "p" p_ne ["I"] ["x"]]) := by
    rcases hs with rfl | rfl | rfl <;> decide
  refine ⟨hload.2.1, hload.2.2, ?_, ?_, ?_, ?_, ?_⟩ <;> rcases hs with rfl | rfl | rfl <;> decide

theorem dl_eq_showLoaded : (cmdPluginInfo sharedName (some "a") 0 showLoaded
    (last init oneLoaded).dl (last init oneLoaded).next).2 = (last init oneLoaded).dl :=
  (dl_eq_of_cmdPluginInfo sharedName (history_run _ init _) (by decide) (by decide)
    (showLoaded_possible (Or.inr (Or.inr rfl))) 0).mpr (by decide)

example : (cmdPluginInfo sharedName (some "a") 0 showLoaded ∅ 0).1.cout =
    unlines ["Loading plugin library file [a]", "* Found 1 plugin in library file:", "  - p",
      "* Found 1 interface in library file:", "  - I"] := by decide

/-! ### The two reports -/

/-- `LoadLib` of a new Loader returns the names that are registered afterwards. -/
theorem Shared.loaded_names (hS : Shared env s) (hc : c.Possible env path s.dl s.next) :
    (c.loaded env path s.dl s.next).1 =
      (c.loaded env path s.dl s.next).2.impl.filePlugins.view.allPlugins := by
  ext name
  rw [Registry.mem_view_allPlugins]
  rcases World.loadLib_cases false hS.newLoader_sound.linked rfl hc.res hc.loadedPlugins with
    ⟨_, hnames, himpl, _⟩ | ⟨lib, hp, _, hnames, hl⟩
  · unfold Choices.loaded
    rw [hnames, himpl]
    exact iff_of_false (Finset.notMem_empty name) Finmap.notMem_empty
  · unfold Choices.loaded
    rw [hnames, hl.added.known, Env.mem_pluginNames]
    constructor
    · rintro ⟨key, i, hi, hn⟩
      exact Or.inr ⟨i, (hl.enumerates.mem_iff i).mpr ⟨key, hi⟩, hn⟩
    · rintro (hold | ⟨i, hi, hn⟩)
      · exact absurd hold Finmap.notMem_empty
      · obtain ⟨key, hkey⟩ := (hl.enumerates.mem_iff i).mp hi
        exact ⟨key, i, hkey, hn⟩

theorem loaded_step (hc : c.Possible env path s.dl s.next) :
    World.step env (.newLoader s.dl s.next) (.loadLib path false c.res c.loadedPlugins) =
      some (c.loaded env path s.dl s.next).2 :=
  World.step_eq_some.mpr ⟨⟨rfl, hc.res, hc.loadedPlugins⟩, rfl⟩

theorem Shared.loaded_printable (hp : env.Printable) (hS : Shared env s)
    (hc : c.Possible env path s.dl s.next) :
    (c.loaded env path s.dl s.next).2.impl.filePlugins.view.Printable := by
  have hnew : (World.newLoader s.dl s.next).impl.filePlugins.view.Printable :=
    ⟨nofun, nofun, nofun, nofun⟩
  exact World.printable_next hp hS.newLoader_sound hnew (loaded_step hc)

/-- The short report may have this text, with its sets walked in some order. -/
def MayReport (env : Env) (s : Loaders) (path : String) (c : Choices) (text : String) : Prop :=
  ∃ names interfaces : List String,
    (names : Multiset String) = (c.loaded env path s.dl s.next).1.val ∧
    (interfaces : Multiset String) =
      ((c.loaded env path s.dl s.next).2.interfacesImplemented env).val ∧
    (cmdPluginInfo env (some path) 0
      { c with pluginNames := names, interfacesImplemented := interfaces }
      s.dl s.next).1.cout = text

theorem mayReport_iff (hpath : path ≠ "") {text : String} : s.MayReport env path c text ↔
    ∃ names interfaces : List String,
      (names : Multiset String) = (c.loaded env path s.dl s.next).1.val ∧
      (interfaces : Multiset String) =
        ((c.loaded env path s.dl s.next).2.interfacesImplemented env).val ∧
      "Loading plugin library file [" ++ path ++ "]\n" ++
        (foundLines " plugin" " plugins" names ++
          foundLines " interface" " interfaces" interfaces) = text := by
  have hplugin : (some path).filter (· ≠ "") = some path := by simp [hpath]
  unfold MayReport cmdPluginInfo
  rw [hplugin]
  exact Iff.rfl

/-- Between two programs, or two moments of one, the long report tells apart all that the
short report tells apart. -/
theorem mayReport_of_verbose {env' : Env} {l l' : List (Op × Loaders)} {c' : Choices}
    (hp : env.Printable) (hp' : env'.Printable) (hrun : Run (step env) init l)
    (hpair : Steps Paired init l) (hrun' : Run (step env') init l')
    (hpair' : Steps Paired init l') (hpath : path ≠ "")
    (hc : c.Possible env path (last init l).dl (last init l).next)
    (hc' : c'.Possible env' path (last init l').dl (last init l').next)
    (hsame : (cmdPluginInfo env (some path) 1 c (last init l).dl (last init l).next).1.cout =
      (cmdPluginInfo env' (some path) 1 c' (last init l').dl (last init l').next).1.cout)
    (text : String) :
    (last init l).MayReport env path c text ↔ (last init l').MayReport env' path c' text := by
  have hS : Shared env (last init l) := (shared_of_paired env hrun hpair).last
  have hS' : Shared env' (last init l') := (shared_of_paired env' hrun' hpair').last
  have hplugin : (some path).filter (· ≠ "") = some path := by simp [hpath]
  unfold cmdPluginInfo at hsame
  simp only [hplugin, ne_eq, Int.reduceEq, not_false_eq_true, if_true, String.append_right_inj,
    String.append_left_inj] at hsame
  obtain ⟨⟨hinterfaces, hfile⟩, hstatics, _⟩ := (World.prettyStr_eq_iff hp hp'
    (World.step_sound hS.newLoader_sound (loaded_step hc)).1
    (World.step_sound hS'.newLoader_sound (loaded_step hc')).1
    (hS.loaded_printable hp hc) (hS'.loaded_printable hp' hc') hc.fileInterfaces
    hc'.fileInterfaces hc.staticInterfaces hc'.staticInterfaces).mp hsame
  have hnames : (c.loaded env path (last init l).dl (last init l).next).1 =
      (c'.loaded env' path (last init l').dl (last init l').next).1 := by
    rw [hS.loaded_names hc, hS'.loaded_names hc', hfile.allPlugins]
  have himplemented :
      (c.loaded env path (last init l).dl (last init l).next).2.interfacesImplemented env =
        (c'.loaded env' path (last init l').dl (last init l').next).2.interfacesImplemented
          env' := by
    unfold World.interfacesImplemented
    congr 1
    · rw [← Finset.val_inj, ← hc.fileInterfaces, ← hc'.fileInterfaces, hinterfaces]
    · rw [← Finset.val_inj, ← hc.staticInterfaces, ← hc'.staticInterfaces, hstatics]
  rw [mayReport_iff hpath, mayReport_iff hpath, hnames, himplemented]

/-- A Loader that has not loaded anything makes no difference to the command. -/
theorem mayReport_showLoaded : oneLoader.MayReport sharedName "a" showLoaded
    (unlines ["Loading plugin library file [a]", "* Found 1 plugin in library file:", "  - p",
      "* Found 1 interface in library file:", "  - I"]) := by
  have hbefore : init.MayReport sharedName "a" showLoaded
      (unlines ["Loading plugin library file [a]", "* Found 1 plugin in library file:", "  - p",
        "* Found 1 interface in library file:", "  - I"]) :=
    ⟨["p"], ["I"], by decide, by decide, by decide⟩
  exact (mayReport_of_verbose World.sharedName_printable World.sharedName_printable (.nil init)
    trivial (history_run _ init _) (by decide) (by decide) (showLoaded_possible (Or.inl rfl))
    (showLoaded_possible (Or.inr (Or.inl rfl))) rfl _).mp hbefore

end Loaders

end GzPlugin
