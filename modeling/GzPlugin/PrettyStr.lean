import Mathlib.Data.Finset.Sort
import GzPlugin.Layout
import GzPlugin.Effects

/-!
# The report of a registry

`PrettyStr` prints the state of a registry for people to read. Sections, plugins and the
lists below a plugin differ in their indentation, so that the text tells them apart.
-/

namespace GzPlugin

open FiniteMaps Runs Layout

set_option autoImplicit false

variable {Code Code' : Type}

/-- `n == 1 ? one : many` -/
def plural (n : Nat) (one many : String) : String := if n = 1 then one else many

namespace RegistryView

/-- The lines about the aliases of a plugin. -/
def aliasLines (plugin : Info Code) : List String :=
  let aSize := plugin.aliases.card
  if 0 < aSize then
    ("\t\t\thas " ++ toString aSize ++ plural aSize " alias" " aliases" ++ ":") ::
      plugin.aliases.sort.map fun a => "\t\t\t\t[" ++ a ++ "]"
  else ["\t\t\thas no aliases"]

/-- The lines about its interfaces. -/
def interfaceLines (plugin : Info Code) : List String :=
  let iSize := plugin.interfaces.keys.card
  ("\t\t\timplements " ++ toString iSize ++ plural iSize " interface" " interfaces" ++ ":") ::
    plugin.demangledInterfaces.sort.map fun interface => "\t\t\t\t" ++ interface

variable (v : RegistryView Code)

/-- The lines that the loop over the plugin names prints for one of them. -/
def pluginLines (name : String) : List String :=
  match v.getInfo name with
  | none => []
  | some plugin =>
    ("\t\t[" ++ plugin.name ++ "]") :: (aliasLines plugin ++ interfaceLines plugin)

/-- The keys of `badAliases`. -/
def badAliases : Finset String := v.aliases.keys.filter fun a => 1 < (v.aliases.names a).card

/-- What `LookupPlugin` writes to `std::cerr`. -/
def lookupError (nameOrAlias : String) : String :=
  if (v.getInfo nameOrAlias).isSome then ""
  else match v.aliases.lookup nameOrAlias with
    | none => ""
    | some names =>
      if names ≠ ∅ then
        if names.card = 1 then ""
        else unlines
          (("[gz::plugin::Registry::LookupPlugin] Failed to resolve the alias [" ++ nameOrAlias ++
            "] because it refers to multiple plugins:") ::
              names.sort.map fun plugin => " -- [" ++ plugin ++ "]")
      else ""

/-- The lines for one entry of `badAliases`. -/
def collision (a : String) : String × List String :=
  ("\t\t[" ++ a ++ "] collides between:",
    (v.aliases.names a).sort.map fun name => "\t\t\t[" ++ name ++ "]")

def collisionLines : List String :=
  let aSize := v.badAliases.card
  if v.badAliases = ∅ then []
  else
    ("\tThere " ++ plural aSize "is " "are " ++ toString aSize ++
      plural aSize " alias" " aliases" ++ " with a " ++ "name collision:") ::
        blocks v.collision v.badAliases.sort

def reportLines (interfaces : List String) : List String :=
  "Registry state" :: ("\tKnown Interfaces: " ++ toString interfaces.length) ::
    ((interfaces.map fun interface => "\t\t" ++ interface) ++
      ("\tKnown Plugins: " ++ toString v.allPlugins.card) ::
        (v.allPlugins.sort.flatMap v.pluginLines ++ (v.collisionLines ++ [""])))

/-- `Registry::PrettyStr`; `interfaces` is the order in which the `unordered_set` of the
implemented interfaces is walked. -/
def prettyStr (interfaces : List String) : String := unlines (v.reportLines interfaces)

variable {v} {v' : RegistryView Code'}

/-- What two registries have in common if their reports say the same. -/
structure SameReport (v : RegistryView Code) (v' : RegistryView Code') : Prop where
  allPlugins : v.allPlugins = v'.allPlugins
  aliasesOfPlugin : ∀ name, v.aliasesOfPlugin name = v'.aliasesOfPlugin name
  pluginsImplementing : ∀ interface,
    v.pluginsImplementing interface true = v'.pluginsImplementing interface true
  interfaceCount : ∀ name, (v.getInfo name).map (·.interfaces.keys.card) =
    (v'.getInfo name).map (·.interfaces.keys.card)
  badAliases : v.badAliases = v'.badAliases
  colliding : ∀ a ∈ v.badAliases, v.aliases.names a = v'.aliases.names a

/-- No name in the registry has a line break. -/
structure Printable (v : RegistryView Code) : Prop where
  name : ∀ {name info}, v.getInfo name = some info → OneLine info.name
  aliases : ∀ {name info a}, v.getInfo name = some info → a ∈ info.aliases → OneLine a
  interfaces : ∀ {name info interface}, v.getInfo name = some info →
    interface ∈ info.demangledInterfaces → OneLine interface
  listed : ∀ {name a}, name ∈ v.aliases.names a → OneLine a ∧ OneLine name

/-! ### Indentation -/

/-- The line begins with that many tabs. -/
def Indented (n : Nat) (line : String) : Prop := List.replicate n '\t' <+: line.toList

instance (n : Nat) (line : String) : Decidable (Indented n line) := by
  unfold Indented; infer_instance

theorem indented_append {n : Nat} {s t : String} (hs : Indented n s) : Indented n (s ++ t) := by
  unfold Indented at hs ⊢
  rw [String.toList_append]
  exact hs.trans (List.prefix_append s.toList t.toList)

theorem not_indented_append {n : Nat} {s t : String} (hn : n ≤ s.toList.length)
    (hs : ¬ Indented n s) : ¬ Indented n (s ++ t) := by
  unfold Indented at hs ⊢
  rw [String.toList_append]
  intro h
  refine hs (List.prefix_of_prefix_length_le h (List.prefix_append s.toList t.toList) ?_)
  rw [List.length_replicate]
  exact hn

theorem indented_of_mem_map {n : Nat} {l : List String} {f : String → String}
    (hf : ∀ s, Indented n (f s)) : ∀ line ∈ l.map f, Indented n line := by
  intro line hm
  obtain ⟨s, _, rfl⟩ := List.mem_map.mp hm
  exact hf s

/-! ### One plugin -/

theorem sort_inj {s t : Finset String} (h : s.sort = t.sort) : s = t := by
  have hset := congrArg List.toFinset h
  rwa [Finset.sort_toFinset, Finset.sort_toFinset] at hset

theorem map_sort_inj {f : String → String} (hf : Function.Injective f) {s t : Finset String}
    (h : s.sort.map f = t.sort.map f) : s = t := sort_inj (hf.list_map h)

theorem plural_head (n : Nat) (one many s : String) (c : Char) (hone : one.toList.head? = some c)
    (hmany : many.toList.head? = some c) : (plural n one many ++ s).toList.head? = some c := by
  rw [String.toList_append]
  unfold plural
  split
  · rw [List.head?_append, hone, Option.some_or]
  · rw [List.head?_append, hmany, Option.some_or]

theorem count_inj {n n' : Nat} {label one many s s' : String} (hone : one.toList.head? = some ' ')
    (hmany : many.toList.head? = some ' ')
    (h : label ++ toString n ++ plural n one many ++ s =
      label ++ toString n' ++ plural n' one many ++ s') : n = n' := by
  simp only [String.append_assoc, String.append_right_inj] at h
  have hend : ∀ k (t : String), ∀ c ∈ (plural k one many ++ t).toList.head?, ¬ c.isDigit := by
    intro k t c hc
    rw [plural_head k one many t ' ' hone hmany] at hc
    cases hc
    decide
  exact (repr_append_inj (hend n s) (hend n' s') h).1

theorem oneLine_count {n : Nat} {label one many s : String} (hlabel : OneLine label)
    (hone : OneLine one) (hmany : OneLine many) (hs : OneLine s) :
    OneLine (label ++ toString n ++ plural n one many ++ s) := by
  have hplural : OneLine (plural n one many) := by
    unfold plural
    split
    · exact hone
    · exact hmany
  simp only [oneLine_append]
  exact ⟨⟨⟨hlabel, oneLine_repr n⟩, hplural⟩, hs⟩

theorem aliasLines_eq (plugin : Info Code) : ∃ first, Indented 3 first ∧ OneLine first ∧
    aliasLines plugin =
      first :: plugin.aliases.sort.map fun a => "\t\t\t\t[" ++ a ++ "]" := by
  unfold aliasLines
  by_cases h : 0 < plugin.aliases.card
  · simp only [if_pos h]
    refine ⟨_, indented_append (indented_append (indented_append (by decide))), ?_, rfl⟩
    exact oneLine_count (by decide) (by decide) (by decide) (by decide)
  · have hnone : plugin.aliases = ∅ := Finset.card_eq_zero.mp (Nat.eq_zero_of_not_pos h)
    simp only [hnone, Finset.sort_empty, List.map_nil]
    exact ⟨_, by decide, by decide, rfl⟩

theorem body_inj {plugin : Info Code} {plugin' : Info Code'}
    (h : aliasLines plugin ++ interfaceLines plugin =
      aliasLines plugin' ++ interfaceLines plugin') :
    plugin.aliases = plugin'.aliases ∧
    plugin.interfaces.keys.card = plugin'.interfaces.keys.card ∧
    plugin.demangledInterfaces = plugin'.demangledInterfaces := by
  obtain ⟨first, _, _, hfirst⟩ := aliasLines_eq plugin
  obtain ⟨first', _, _, hfirst'⟩ := aliasLines_eq plugin'
  rw [hfirst, hfirst', List.cons_append, List.cons_append] at h
  have halias : ∀ s, Indented 4 ("\t\t\t\t[" ++ s ++ "]") := fun s =>
    indented_append (indented_append (by decide))
  have hcount : ∀ s t u, ¬ Indented 4 ("\t\t\timplements " ++ s ++ t ++ u) := fun s t u => by
    rw [String.append_assoc, String.append_assoc]
    exact not_indented_append (by decide) (by decide)
  obtain ⟨haliases, hline, hinterfaces⟩ := append_cons_inj (indented_of_mem_map halias)
    (indented_of_mem_map halias) (hcount _ _ _) (hcount _ _ _) (List.cons.inj h).2
  exact ⟨map_sort_inj (fun s t he => by simpa using he) haliases, count_inj rfl rfl hline,
    map_sort_inj (fun s t he => by simpa using he) hinterfaces⟩

/-! ### What the report shows of a plugin -/

/-- What the report shows of an `Info`. -/
def shown (plugin : Info Code) : Finset String × Nat × Finset String :=
  (plugin.aliases, plugin.interfaces.keys.card, plugin.demangledInterfaces)

theorem mem_provides_demangled (h : v.Coherent) {interface name : String} :
    name ∈ v.pluginsImplementing interface true ↔
      ∃ info, v.getInfo name = some info ∧ interface ∈ info.demangledInterfaces := by
  rw [h.mem_pluginsImplementing]
  simp only [provides, if_true, decide_eq_true_eq]

theorem shown_eq_iff (h : v.Coherent) (h' : v'.Coherent) :
    (∀ name, (v.getInfo name).map shown = (v'.getInfo name).map shown) ↔
      v.allPlugins = v'.allPlugins ∧
      (∀ name, v.aliasesOfPlugin name = v'.aliasesOfPlugin name) ∧
      (∀ interface, v.pluginsImplementing interface true = v'.pluginsImplementing interface true) ∧
      ∀ name, (v.getInfo name).map (·.interfaces.keys.card) =
        (v'.getInfo name).map (·.interfaces.keys.card) := by
  constructor
  · intro hs
    refine ⟨?_, fun name => ?_, fun interface => ?_, fun name => ?_⟩
    · ext name
      rw [h.all, h'.all, ← Option.isSome_map (f := shown), hs, Option.isSome_map]
    · have hname := hs name
      unfold aliasesOfPlugin
      cases hv : v.getInfo name <;> cases hv' : v'.getInfo name <;>
        simp_all [shown]
    · ext name
      have hname := hs name
      rw [mem_provides_demangled h, mem_provides_demangled h']
      cases hv : v.getInfo name <;> cases hv' : v'.getInfo name <;>
        simp_all [shown]
    · have hname := congrArg (Option.map fun t : Finset String × Nat × Finset String => t.2.1)
        (hs name)
      rwa [Option.map_map, Option.map_map] at hname
  · rintro ⟨hall, haliases, himpl, hcount⟩ name
    have hone := haliases name
    have hcard := hcount name
    unfold aliasesOfPlugin at hone
    cases hv : v.getInfo name with
    | none =>
      cases hv' : v'.getInfo name with
      | none => rfl
      | some info' =>
        rw [hv, hv'] at hcard
        cases hcard
    | some info =>
      cases hv' : v'.getInfo name with
      | none =>
        rw [hv, hv'] at hcard
        cases hcard
      | some info' =>
        rw [hv, hv'] at hone hcard
        have hdemangled : info.demangledInterfaces = info'.demangledInterfaces := by
          ext interface
          have hiff := Finset.ext_iff.mp (himpl interface) name
          rw [mem_provides_demangled h, mem_provides_demangled h', hv, hv'] at hiff
          simpa using hiff
        simp only [Option.map_some, Option.some.injEq] at hone hcard ⊢
        rw [shown, shown, hone, hcard, hdemangled]

/-! ### The whole report -/

/-- The lines about a plugin, the first one apart. -/
def pluginBlock (v : RegistryView Code) (name : String) : String × List String :=
  ("\t\t[" ++ name ++ "]",
    match v.getInfo name with
    | none => []
    | some plugin => aliasLines plugin ++ interfaceLines plugin)

theorem pluginLines_eq (h : v.Coherent) :
    v.allPlugins.sort.flatMap v.pluginLines = blocks v.pluginBlock v.allPlugins.sort := by
  unfold blocks
  refine congrArg List.flatten (List.map_congr_left fun name hm => ?_)
  have hknown := (h.all name).mp ((Finset.mem_sort (· ≤ ·)).mp hm)
  obtain ⟨plugin, hplugin⟩ := Option.isSome_iff_exists.mp hknown
  simp only [pluginLines, pluginBlock, hplugin, h.named hplugin]

theorem indented_body (plugin : Info Code) :
    ∀ line ∈ aliasLines plugin ++ interfaceLines plugin, Indented 3 line := by
  intro line hm
  rcases List.mem_append.mp hm with hm | hm
  · obtain ⟨first, hfirst, _, heq⟩ := aliasLines_eq plugin
    rw [heq] at hm
    rcases List.mem_cons.mp hm with rfl | hm
    · exact hfirst
    · exact indented_of_mem_map (fun s => indented_append (indented_append (by decide))) line hm
  · unfold interfaceLines at hm
    rcases List.mem_cons.mp hm with rfl | hm
    · exact indented_append (indented_append (indented_append (by decide)))
    · exact indented_of_mem_map (fun s => indented_append (by decide)) line hm

theorem indented_pluginBlock (v : RegistryView Code) (name : String) :
    ∀ line ∈ (v.pluginBlock name).2, Indented 3 line := by
  unfold pluginBlock
  cases v.getInfo name with
  | none => nofun
  | some plugin => exact indented_body plugin

theorem Indented.mono {m n : Nat} {line : String} (h : Indented n line) (hmn : m ≤ n) :
    Indented m line := by
  refine List.IsPrefix.trans ?_ h
  rw [List.prefix_replicate_iff]
  simpa using hmn

theorem pluginBlock_head (v : RegistryView Code) (name : String) :
    ¬ Indented 3 (v.pluginBlock name).1 := by
  unfold pluginBlock
  rw [String.append_assoc]
  exact not_indented_append (by decide) (by decide)

theorem indented_blocks {f : String → String × List String} {l : List String} {n : Nat}
    (hhead : ∀ s, Indented n (f s).1) (hbody : ∀ s, ∀ line ∈ (f s).2, Indented n line) :
    ∀ line ∈ blocks f l, Indented n line := by
  intro line hm
  obtain ⟨s, _, hm⟩ := List.mem_flatMap.mp hm
  rcases List.mem_cons.mp hm with rfl | hm
  · exact hhead s
  · exact hbody s line hm

theorem collision_head (v : RegistryView Code) (a : String) : ¬ Indented 3 (v.collision a).1 := by
  unfold collision
  rw [String.append_assoc]
  exact not_indented_append (by decide) (by decide)

theorem indented_collision (v : RegistryView Code) (a : String) :
    ∀ line ∈ (v.collision a).2, Indented 3 line :=
  indented_of_mem_map fun _ => indented_append (indented_append (by decide))

/-- The last section begins at the margin of the headings. -/
theorem collisionLines_head (v : RegistryView Code) :
    ∀ line ∈ (v.collisionLines ++ [""]).head?, ¬ Indented 2 line := by
  intro line hm
  unfold collisionLines at hm
  split at hm
  · obtain rfl : "" = line := Option.some.inj hm
    decide
  · obtain rfl := Option.some.inj hm
    simp only [String.append_assoc]
    exact not_indented_append (by decide) (by decide)

theorem collisionLines_tail (v : RegistryView Code) :
    v.collisionLines.tail = blocks v.collision v.badAliases.sort := by
  unfold collisionLines
  split
  · rename_i hnone
    rw [hnone, Finset.sort_empty]
    rfl
  · rfl

/-- The lines of a report determine what the registry has to say. -/
theorem reportLines_inj (h : v.Coherent) (h' : v'.Coherent) {interfaces interfaces' : List String}
    (heq : v.reportLines interfaces = v'.reportLines interfaces') :
    interfaces = interfaces' ∧ SameReport v v' := by
  unfold reportLines at heq
  rw [pluginLines_eq h, pluginLines_eq h'] at heq
  have hsection : ∀ s, ¬ Indented 2 ("\tKnown Plugins: " ++ s) := fun s =>
    not_indented_append (by decide) (by decide)
  obtain ⟨hinterfaces, _, hrest⟩ := append_cons_inj
    (indented_of_mem_map fun s => indented_append (by decide))
    (indented_of_mem_map fun s => indented_append (by decide)) (hsection _) (hsection _)
    (List.cons.inj (List.cons.inj heq).2).2
  obtain ⟨hplugins, hcollisions⟩ := append_inj
    (indented_blocks (fun s => indented_append (indented_append (by decide))) fun s line hm =>
      (indented_pluginBlock v s line hm).mono (by decide))
    (indented_blocks (fun s => indented_append (indented_append (by decide))) fun s line hm =>
      (indented_pluginBlock v' s line hm).mono (by decide))
    v.collisionLines_head v'.collisionLines_head hrest
  have hblocks := blocks_inj (fun name _ => v.pluginBlock_head name)
    (fun name _ => v.indented_pluginBlock name) (fun name _ => v'.pluginBlock_head name)
    (fun name _ => v'.indented_pluginBlock name) hplugins
  have hcolliding := congrArg List.tail (List.append_cancel_right hcollisions)
  rw [collisionLines_tail, collisionLines_tail] at hcolliding
  have hentries := blocks_inj (fun a _ => v.collision_head a) (fun a _ => v.indented_collision a)
    (fun a _ => v'.collision_head a) (fun a _ => v'.indented_collision a) hcolliding
  have hall : v.allPlugins = v'.allPlugins := by
    have hnames := congrArg (List.map Prod.fst) hblocks
    rw [List.map_map, List.map_map] at hnames
    exact map_sort_inj (f := fun s => "\t\t[" ++ s ++ "]") (fun s t he => by simpa using he) hnames
  have hbad : v.badAliases = v'.badAliases := by
    have hnames := congrArg (List.map Prod.fst) hentries
    rw [List.map_map, List.map_map] at hnames
    exact map_sort_inj (f := fun s => "\t\t[" ++ s ++ "] collides between:")
      (fun s t he => by simpa using he) hnames
  have hshown : ∀ name, (v.getInfo name).map shown = (v'.getInfo name).map shown := by
    intro name
    by_cases hm : name ∈ v.allPlugins
    · obtain ⟨plugin, hplugin⟩ := Option.isSome_iff_exists.mp ((h.all name).mp hm)
      obtain ⟨plugin', hplugin'⟩ := Option.isSome_iff_exists.mp ((h'.all name).mp (hall ▸ hm))
      rw [← hall] at hblocks
      have hblock := List.map_inj_left.mp hblocks name ((Finset.mem_sort (· ≤ ·)).mpr hm)
      have hbody : aliasLines plugin ++ interfaceLines plugin =
          aliasLines plugin' ++ interfaceLines plugin' := by
        simpa only [pluginBlock, hplugin, hplugin'] using congrArg Prod.snd hblock
      obtain ⟨haliases, hcount, hdemangled⟩ := body_inj hbody
      rw [hplugin, hplugin', Option.map_some, Option.map_some, shown, shown, haliases, hcount,
        hdemangled]
    · have hm' : name ∉ v'.allPlugins := hall ▸ hm
      rw [h.all, Option.not_isSome_iff_eq_none] at hm
      rw [h'.all, Option.not_isSome_iff_eq_none] at hm'
      rw [hm, hm']
      rfl
  obtain ⟨_, haliases, himpl, hcount⟩ := (shown_eq_iff h h').mp hshown
  have htabs : Function.Injective fun s => "\t\t" ++ s := fun s t he => by simpa using he
  refine ⟨htabs.list_map hinterfaces, hall, haliases, himpl, hcount, hbad, fun a ha => ?_⟩
  rw [← hbad] at hentries
  have hentry := List.map_inj_left.mp hentries a ((Finset.mem_sort (· ≤ ·)).mpr ha)
  exact map_sort_inj (f := fun s => "\t\t\t[" ++ s ++ "]") (fun s t he => by simpa using he)
    (congrArg Prod.snd hentry)

theorem body_congr {plugin : Info Code} {plugin' : Info Code'} (h : shown plugin = shown plugin') :
    aliasLines plugin ++ interfaceLines plugin = aliasLines plugin' ++ interfaceLines plugin' := by
  simp only [shown, Prod.mk.injEq] at h
  obtain ⟨haliases, hcount, hdemangled⟩ := h
  simp only [aliasLines, interfaceLines, haliases, hcount, hdemangled]

/-- Registries that have the same to say are reported alike. -/
theorem reportLines_congr (h : v.Coherent) (h' : v'.Coherent) (hs : SameReport v v')
    (interfaces : List String) : v.reportLines interfaces = v'.reportLines interfaces := by
  have hshown := (shown_eq_iff h h').mpr
    ⟨hs.allPlugins, hs.aliasesOfPlugin, hs.pluginsImplementing, hs.interfaceCount⟩
  have hblock : v.pluginBlock = v'.pluginBlock := by
    funext name
    have hname := hshown name
    unfold pluginBlock
    cases hv : v.getInfo name with
    | none =>
      rw [hv, Option.map_none, eq_comm, Option.map_eq_none_iff] at hname
      rw [hname]
    | some plugin =>
      rw [hv, Option.map_some, eq_comm, Option.map_eq_some_iff] at hname
      obtain ⟨plugin', hplugin', he⟩ := hname
      simp only [hplugin', body_congr he]
  have hentries : blocks v.collision v.badAliases.sort = blocks v'.collision v.badAliases.sort := by
    refine congrArg List.flatten (List.map_congr_left fun a ha => ?_)
    simp only [collision, hs.colliding a ((Finset.mem_sort (· ≤ ·)).mp ha)]
  have hplugins : v.allPlugins.sort.flatMap v.pluginLines =
      v'.allPlugins.sort.flatMap v'.pluginLines := by
    rw [pluginLines_eq h, pluginLines_eq h', hblock, hs.allPlugins]
  have hcollisions : v.collisionLines = v'.collisionLines := by
    rw [hs.badAliases] at hentries
    simp only [collisionLines, hs.badAliases, hentries]
  unfold reportLines
  rw [hplugins, hcollisions, hs.allPlugins]

theorem oneLine_of_mem_map {l : List String} {f : String → String}
    (hf : ∀ s ∈ l, OneLine (f s)) : ∀ line ∈ l.map f, OneLine line := by
  intro line hm
  obtain ⟨s, hs, rfl⟩ := List.mem_map.mp hm
  exact hf s hs

theorem oneLine_pluginLines (hp : v.Printable) (name : String) :
    ∀ line ∈ v.pluginLines name, OneLine line := by
  intro line hm
  unfold pluginLines at hm
  cases hplugin : v.getInfo name with
  | none =>
    rw [hplugin] at hm
    cases hm
  | some plugin =>
    rw [hplugin] at hm
    obtain ⟨first, _, hfirst, haliases⟩ := aliasLines_eq plugin
    simp only [haliases, interfaceLines, List.mem_cons, List.mem_append] at hm
    rcases hm with rfl | (rfl | hm) | rfl | hm
    · exact oneLine_append.mpr ⟨oneLine_append.mpr ⟨by decide, hp.name hplugin⟩, by decide⟩
    · exact hfirst
    · refine oneLine_of_mem_map (fun a ha => ?_) line hm
      have hone := hp.aliases hplugin ((Finset.mem_sort (· ≤ ·)).mp ha)
      exact oneLine_append.mpr ⟨oneLine_append.mpr ⟨by decide, hone⟩, by decide⟩
    · exact oneLine_count (by decide) (by decide) (by decide) (by decide)
    · refine oneLine_of_mem_map (fun interface hi => ?_) line hm
      have hone := hp.interfaces hplugin ((Finset.mem_sort (· ≤ ·)).mp hi)
      exact oneLine_append.mpr ⟨by decide, hone⟩

theorem oneLine_collisionLines (hp : v.Printable) : ∀ line ∈ v.collisionLines, OneLine line := by
  intro line hm
  unfold collisionLines at hm
  split at hm
  · cases hm
  · rcases List.mem_cons.mp hm with rfl | hm
    · have hone : ∀ n : Nat, OneLine (plural n "is " "are ") := fun n => by
        unfold plural
        split <;> decide
      have hcount : ∀ n : Nat, OneLine (plural n " alias" " aliases") := fun n => by
        unfold plural
        split <;> decide
      simp only [oneLine_append]
      exact ⟨⟨⟨⟨⟨by decide, hone _⟩, oneLine_repr _⟩, hcount _⟩, by decide⟩, by decide⟩
    · obtain ⟨a, ha, hm⟩ := List.mem_flatMap.mp hm
      have hbad := (Finset.mem_filter.mp ((Finset.mem_sort (· ≤ ·)).mp ha)).2
      obtain ⟨name, hname⟩ := Finset.card_pos.mp (Nat.lt_trans Nat.one_pos hbad)
      rcases List.mem_cons.mp hm with rfl | hm
      · exact oneLine_append.mpr
          ⟨oneLine_append.mpr ⟨by decide, (hp.listed hname).1⟩, by decide⟩
      · refine oneLine_of_mem_map (fun n hn => ?_) line hm
        have hlisted := hp.listed ((Finset.mem_sort (· ≤ ·)).mp hn)
        exact oneLine_append.mpr ⟨oneLine_append.mpr ⟨by decide, hlisted.2⟩, by decide⟩

theorem oneLine_reportLines (hp : v.Printable) {interfaces : List String}
    (hi : ∀ interface ∈ interfaces, OneLine interface) :
    ∀ line ∈ v.reportLines interfaces, OneLine line := by
  intro line hm
  simp only [reportLines, List.mem_cons, List.mem_append, List.not_mem_nil, or_false] at hm
  rcases hm with rfl | rfl | hm | rfl | hm | hm | rfl
  · decide
  · exact oneLine_append.mpr ⟨by decide, oneLine_repr _⟩
  · exact oneLine_of_mem_map (fun s hs => oneLine_append.mpr ⟨by decide, hi s hs⟩) line hm
  · exact oneLine_append.mpr ⟨by decide, oneLine_repr _⟩
  · obtain ⟨name, _, hm⟩ := List.mem_flatMap.mp hm
    exact oneLine_pluginLines hp name line hm
  · exact oneLine_collisionLines hp line hm
  · decide

/-- Two reports are the same text exactly if the registries have the same to say. -/
theorem prettyStr_eq_iff (h : v.Coherent) (h' : v'.Coherent) (hp : v.Printable)
    (hp' : v'.Printable) {interfaces interfaces' : List String}
    (hi : ∀ interface ∈ interfaces, OneLine interface)
    (hi' : ∀ interface ∈ interfaces', OneLine interface) :
    v.prettyStr interfaces = v'.prettyStr interfaces' ↔
      interfaces = interfaces' ∧ SameReport v v' := by
  constructor
  · intro heq
    exact reportLines_inj h h'
      (unlines_inj (oneLine_reportLines hp hi) (oneLine_reportLines hp' hi') heq)
  · rintro ⟨rfl, hs⟩
    exact congrArg unlines (reportLines_congr h h' hs interfaces)

/-- A report ends at its first line that is not indented, the first one apart. -/
theorem reportLines_indented (h : v.Coherent) (interfaces : List String) :
    ∃ inner, (∀ line ∈ inner, Indented 1 line) ∧
      v.reportLines interfaces = "Registry state" :: (inner ++ [""]) := by
  refine ⟨("\tKnown Interfaces: " ++ toString interfaces.length) ::
    ((interfaces.map fun interface => "\t\t" ++ interface) ++
      ("\tKnown Plugins: " ++ toString v.allPlugins.card) ::
        (v.allPlugins.sort.flatMap v.pluginLines ++ v.collisionLines)), ?_, ?_⟩
  · intro line hm
    rw [pluginLines_eq h] at hm
    simp only [List.mem_cons, List.mem_append] at hm
    rcases hm with rfl | hm | rfl | hm | hm
    · exact indented_append (by decide)
    · exact indented_of_mem_map (fun s => indented_append (by decide)) line hm
    · exact indented_append (by decide)
    · exact indented_blocks (fun s => indented_append (indented_append (by decide)))
        (fun s l hl => (v.indented_pluginBlock s l hl).mono (by decide)) line hm
    · unfold collisionLines at hm
      split at hm
      · cases hm
      rcases List.mem_cons.mp hm with rfl | hm
      · simp only [String.append_assoc]
        exact indented_append (by decide)
      · exact indented_blocks (fun s => indented_append (indented_append (by decide)))
          (fun s l hl => (v.indented_collision s l hl).mono (by decide)) line hm
  · simp only [reportLines, List.cons_append, List.append_assoc]

/-- The aliases in the last section are those that `LookupPlugin` refuses although plugins
are listed under them, unless the alias is itself the name of a plugin. -/
theorem mem_badAliases (hnames : ∀ {name a}, name ∈ v.aliases.names a → name ≠ "") {a : String}
    (ha : v.getInfo a = none) :
    a ∈ v.badAliases ↔ v.lookupPlugin a = "" ∧ (v.pluginsWithAlias a).Nonempty := by
  have hwith : v.pluginsWithAlias a = v.aliases.names a := by
    simp [pluginsWithAlias, ha]
  have hkey : 1 < (v.aliases.names a).card → a ∈ v.aliases.keys := by
    intro hcard
    rw [Finmap.mem_keys]
    by_contra hn
    simp [AliasMap.names, Finmap.lookup_eq_none.mpr hn] at hcard
  rw [lookupPlugin_of_unknown ha, hwith, badAliases, Finset.mem_filter, ← Finset.card_pos]
  constructor
  · rintro ⟨_, hcard⟩
    exact ⟨if_neg (Nat.ne_of_gt hcard), Nat.lt_trans Nat.one_pos hcard⟩
  · rintro ⟨hnone, hpos⟩
    have hcard : (v.aliases.names a).card ≠ 1 := by
      intro hone
      obtain ⟨name, hname⟩ := Finset.card_eq_one.mp hone
      rw [if_pos hone, hname, firstName_singleton] at hnone
      exact hnames (hname ▸ Finset.mem_singleton_self name) hnone
    have hmany : 1 < (v.aliases.names a).card := by omega
    exact ⟨hkey hmany, hmany⟩

/-- `LookupPlugin` complains about the aliases of the last section and about nothing else. -/
theorem lookupError_ne_empty_iff {a : String} (ha : v.getInfo a = none) :
    v.lookupError a ≠ "" ↔ a ∈ v.badAliases := by
  have hunknown : (v.getInfo a).isSome ≠ true := by simp [ha]
  rw [lookupError, if_neg hunknown, badAliases, Finset.mem_filter, Finmap.mem_keys,
    Finmap.mem_iff, AliasMap.names]
  cases hl : v.aliases.lookup a with
  | none => simp
  | some names =>
    simp only [Option.getD_some, Option.some.injEq, exists_eq', true_and]
    split
    · rename_i hne
      have hpos : 0 < names.card := Finset.card_pos.mpr (Finset.nonempty_iff_ne_empty.mpr hne)
      split
      · rename_i hone
        exact iff_of_false (not_not.mpr rfl) (by omega)
      · refine iff_of_true ?_ (by omega)
        intro hempty
        have hlength := congrArg String.length hempty
        simp [unlines] at hlength
    · rename_i hempty
      have hcard : names.card = 0 := by simpa using hempty
      exact iff_of_false (not_not.mpr rfl) (by omega)

theorem lookupError_of_found {a : String} (ha : v.lookupPlugin a ≠ "") : v.lookupError a = "" := by
  unfold lookupPlugin at ha
  unfold lookupError
  split
  · rfl
  · rename_i hunknown
    rw [if_neg hunknown] at ha
    cases hl : v.aliases.lookup a with
    | none => rfl
    | some names =>
      simp only [hl] at ha ⊢
      by_cases hone : names.card = 1
      · simp [hone]
      · simp [hone] at ha

end RegistryView

/-! ### The report of the Loader -/

/-- Nothing that a registration hands over has a line break in it. -/
structure Env.PrintableInfo (env : Env) (info : Info Symbol) : Prop where
  name : OneLine (env.demangle info.name)
  aliases : ∀ a ∈ info.aliases, OneLine a
  interfaces : ∀ interface ∈ info.interfaces.keys, OneLine (env.demangle interface)

structure Env.Printable (env : Env) : Prop where
  library : ∀ lib key info, (env.allInfo lib).lookup key = some info → env.PrintableInfo info
  static : ∀ info ∈ env.staticInfos, env.PrintableInfo info

theorem Env.Printable.statics {env : Env} (hp : env.Printable) : env.statics.view.Printable := by
  have hinfo : ∀ {name info}, env.statics.infos.lookup name = some info →
      OneLine name ∧ (∀ a ∈ info.aliases, OneLine a) ∧
        ∀ interface ∈ info.interfaces.keys, OneLine (env.demangle interface) := by
    intro name info hl
    refine StaticRegistry.registrations_forall (Q := fun name i => OneLine name ∧
      (∀ a ∈ i.aliases, OneLine a) ∧
        ∀ interface ∈ i.interfaces.keys, OneLine (env.demangle interface)) ?_ hl
    intro i hi entry he
    obtain ⟨j, hj, rfl⟩ := List.mem_map.mp hi
    have hnew := hp.static j hj
    have hkeys : (j.mapCode (CodePtr.mk .executable)).interfaces.keys = j.interfaces.keys :=
      keys_mapValues _ _
    cases entry with
    | none =>
      exact ⟨hnew.name, hnew.aliases, fun interface hm => hnew.interfaces interface (hkeys ▸ hm)⟩
    | some e =>
      obtain ⟨hname, haliases, hinterfaces⟩ := he e rfl
      refine ⟨hname, fun a ha => ?_, fun interface hm => ?_⟩
      · exact (Finset.mem_union.mp ha).elim (haliases a) (hnew.aliases a)
      · rw [StaticRegistry.addEntry, Finmap.keys_union, hkeys] at hm
        exact (Finset.mem_union.mp hm).elim (hinterfaces interface) (hnew.interfaces interface)
  have hw := env.statics_wellFormed
  constructor
  · intro name info hl
    rw [hw.named hl]
    exact (hinfo hl).1
  · intro name info a hl ha
    exact (hinfo hl).2.1 a ha
  · intro name info interface hl hi
    rw [hw.demangled hl, Info.demangledKeys] at hi
    obtain ⟨key, hkey, rfl⟩ := Finset.mem_image.mp hi
    exact (hinfo hl).2.2 key hkey
  · intro name a hn
    obtain ⟨info, hl, ha⟩ := hw.listed.mp hn
    exact ⟨(hinfo hl).2.1 a ha, (hinfo hl).1⟩

namespace World

variable {env env' : Env} {w w' : World}

/-- `Loader::PrettyStr`; the two lists are the orders in which the interfaces are walked. -/
def prettyStr (env : Env) (w : World) (interfaces staticInterfaces : List String) : String :=
  "Loaded plugins registry: \n" ++ w.impl.filePlugins.view.prettyStr interfaces ++
    "Static plugins registry: \n" ++ env.statics.view.prettyStr staticInterfaces

/-- What `Loader::LookupPlugin` writes to `std::cerr`. -/
def lookupError (env : Env) (w : World) (nameOrAlias : String) : String :=
  w.impl.filePlugins.view.lookupError nameOrAlias ++
    if w.impl.filePlugins.view.lookupPlugin nameOrAlias ≠ "" then ""
    else env.statics.view.lookupError nameOrAlias ++
      if env.statics.view.lookupPlugin nameOrAlias ≠ "" then ""
      else "[gz::plugin::Loader::LookupPlugin] Failed to get info for [" ++ nameOrAlias ++
        "]. Could not find a plugin with that name or alias.\n"

/-- A lookup says nothing exactly if it finds a plugin without giving up on an alias of the
loaded ones. -/
theorem lookupError_eq_empty_iff {s : String} : w.lookupError env s = "" ↔
    w.lookupPlugin env s ≠ "" ∧ w.impl.filePlugins.view.lookupError s = "" := by
  unfold lookupError lookupPlugin
  by_cases hfile : w.impl.filePlugins.view.lookupPlugin s = ""
  · by_cases hstatic : env.statics.view.lookupPlugin s = ""
    · refine iff_of_false ?_ ?_
      · intro hempty
        have hlength := congrArg String.length hempty
        simp [hfile, hstatic] at hlength
      · simp [hfile, hstatic]
    · simp [hfile, hstatic, RegistryView.lookupError_of_found hstatic]
  · simp [hfile]

theorem empty_printable : Implementation.empty.filePlugins.view.Printable := by
  have hnone : ∀ name, Implementation.empty.filePlugins.view.getInfo name = none := fun _ => rfl
  constructor
  · intro name info hi
    simp [hnone] at hi
  · intro name info a hi
    simp [hnone] at hi
  · intro name info interface hi
    simp [hnone] at hi
  · intro name a hn
    exact absurd hn (Finset.notMem_empty name)

theorem printable_next {op : Op} (hp : env.Printable) (hS : Sound env w)
    (h : w.impl.filePlugins.view.Printable) (hs : step env w op = some w') :
    w'.impl.filePlugins.view.Printable := by
  have hsound : Sound env w' := (step_sound hS hs).1
  cases (step_sound hS hs).2 with
  | loaded lib hp' infos _ hl =>
    have hnew : ∀ i ∈ infos, env.PrintableInfo i := by
      intro i hi
      obtain ⟨key, hkey⟩ := (hl.enumerates.mem_iff i).mp hi
      exact hp.library lib key i hkey
    have hstored : ∀ {name info}, w'.impl.filePlugins.view.getInfo name = some info →
        w.impl.filePlugins.view.getInfo name = some info ∨
          ∃ i ∈ infos, info = env.stored hp'.image i := by
      intro name info hi
      rw [Registry.view_getInfo, Option.map_eq_some_iff] at hi
      obtain ⟨ptr, hptr, rfl⟩ := hi
      rcases hl.added.stored hptr with hold | ⟨_, i, hi, _, he⟩
      · exact Or.inl (by rw [Registry.view_getInfo, hold]; rfl)
      · exact Or.inr ⟨i, hi, he⟩
    constructor
    · intro name info hi
      rcases hstored hi with hold | ⟨i, hm, rfl⟩
      · exact h.name hold
      · exact (hnew i hm).name
    · intro name info a hi ha
      rcases hstored hi with hold | ⟨i, hm, rfl⟩
      · exact h.aliases hold ha
      · exact (hnew i hm).aliases a ha
    · intro name info interface hi hinterface
      rcases hstored hi with hold | ⟨i, hm, rfl⟩
      · exact h.interfaces hold hinterface
      · rw [Registry.view_getInfo, Option.map_eq_some_iff] at hi
        obtain ⟨ptr, hptr, he⟩ := hi
        have hkeys := hsound.tables.demangled hptr
        rw [he] at hkeys
        rw [hkeys, Info.demangledKeys] at hinterface
        obtain ⟨key, hkey, rfl⟩ := Finset.mem_image.mp hinterface
        exact (hnew i hm).interfaces key (keys_mapValues _ i.interfaces ▸ hkey)
    · intro name a hn
      rcases hl.added.listed.mp hn with hold | ⟨i, hm, ha, rfl⟩
      · exact h.listed hold
      · exact ⟨(hnew i hm).aliases a ha, (hnew i hm).name⟩
  | forgot hd names _ hf =>
    have hkept : ∀ {name info}, w'.impl.filePlugins.view.getInfo name = some info →
        w.impl.filePlugins.view.getInfo name = some info := by
      intro name info hi
      rw [Registry.view_getInfo, hf.removed.plugins] at hi
      split at hi
      · cases hi
      · exact hi
    exact ⟨fun hi => h.name (hkept hi), fun hi => h.aliases (hkept hi),
      fun hi => h.interfaces (hkept hi), fun hn => h.listed (hf.removed.listed.mp hn).1⟩
  | kept _ _ hq =>
    rw [hq.impl]
    exact h
  | destroyed himpl _ _ =>
    rw [himpl]
    exact empty_printable

theorem reachable_printable (hp : env.Printable) (hw : Reachable (step env) init w) :
    w.impl.filePlugins.view.Printable := by
  have hinit : init.impl.filePlugins.view.Printable := empty_printable
  exact (hw.invariant (P := fun w => Sound env w ∧ w.impl.filePlugins.view.Printable)
    ⟨init_sound env, hinit⟩ fun h hs =>
      ⟨(step_sound h.1 hs).1, printable_next hp h.1 h.2 hs⟩).2

/-- What is walked is the set of the implemented interfaces. -/
theorem oneLine_of_walked {v : RegistryView CodePtr} (h : v.Coherent) (hp : v.Printable)
    {interfaces : List String} (hi : (interfaces : Multiset String) = v.interfacesImplemented.val) :
    ∀ interface ∈ interfaces, OneLine interface := by
  intro interface hm
  have hmem : interface ∈ v.interfacesImplemented := by
    rw [← Finset.mem_val, ← hi]
    exact hm
  obtain ⟨name, info, hinfo, hinterface⟩ := h.mem_interfacesImplemented.mp hmem
  exact hp.interfaces hinfo hinterface

theorem unlines_prettyStr (env : Env) (w : World) (interfaces staticInterfaces : List String) :
    w.prettyStr env interfaces staticInterfaces =
      unlines ("Loaded plugins registry: " :: (w.impl.filePlugins.view.reportLines interfaces ++
        "Static plugins registry: " :: env.statics.view.reportLines staticInterfaces)) := by
  have hfile : "Loaded plugins registry: \n" = "Loaded plugins registry: " ++ "\n" := by simp
  have hstatic : "Static plugins registry: \n" = "Static plugins registry: " ++ "\n" := by simp
  unfold prettyStr RegistryView.prettyStr
  rw [hfile, hstatic]
  simp only [unlines, unlines_append, String.append_assoc]

/-- The end of the first report shows in the lines of both. -/
theorem lines_inj {v v' s s' : RegistryView CodePtr} (h : v.Coherent) (h' : v'.Coherent)
    {interfaces interfaces' statics statics' : List String} {heading : String}
    (heq : v.reportLines interfaces ++ heading :: s.reportLines statics =
      v'.reportLines interfaces' ++ heading :: s'.reportLines statics') :
    v.reportLines interfaces = v'.reportLines interfaces' ∧
    s.reportLines statics = s'.reportLines statics' := by
  obtain ⟨inner, hinner, he⟩ := RegistryView.reportLines_indented h interfaces
  obtain ⟨inner', hinner', he'⟩ := RegistryView.reportLines_indented h' interfaces'
  rw [he, he'] at heq ⊢
  rw [List.cons_append, List.cons_append, List.append_assoc, List.append_assoc] at heq
  obtain ⟨hsame, _, hrest⟩ := append_cons_inj hinner hinner' (by decide) (by decide)
    (List.cons.inj heq).2
  exact ⟨by rw [hsame], (List.cons.inj hrest).2⟩

theorem oneLine_lines {lines lines' : List String} (h : ∀ line ∈ lines, OneLine line)
    (h' : ∀ line ∈ lines', OneLine line) :
    ∀ line ∈ "Loaded plugins registry: " :: (lines ++ "Static plugins registry: " :: lines'),
      OneLine line := by
  intro line hm
  simp only [List.mem_cons, List.mem_append] at hm
  rcases hm with rfl | hm | rfl | hm
  · decide
  · exact h line hm
  · decide
  · exact h' line hm

/-- What `reachable_printable` and `reachable_sound` provide is all that the text depends on. -/
theorem prettyStr_eq_iff (hp : env.Printable) (hp' : env'.Printable) (hS : Sound env w)
    (hS' : Sound env' w') (hfile : w.impl.filePlugins.view.Printable)
    (hfile' : w'.impl.filePlugins.view.Printable)
    {interfaces interfaces' statics statics' : List String}
    (hi : (interfaces : Multiset String) = w.impl.filePlugins.view.interfacesImplemented.val)
    (hi' : (interfaces' : Multiset String) = w'.impl.filePlugins.view.interfacesImplemented.val)
    (hs : (statics : Multiset String) = env.statics.view.interfacesImplemented.val)
    (hs' : (statics' : Multiset String) = env'.statics.view.interfacesImplemented.val) :
    w.prettyStr env interfaces statics = w'.prettyStr env' interfaces' statics' ↔
      (interfaces = interfaces' ∧
        RegistryView.SameReport w.impl.filePlugins.view w'.impl.filePlugins.view) ∧
      statics = statics' ∧ RegistryView.SameReport env.statics.view env'.statics.view := by
  have hcoherent := hS.tables.registry.coherent
  have hcoherent' := hS'.tables.registry.coherent
  have hstatic := env.statics_wellFormed.coherent
  have hstatic' := env'.statics_wellFormed.coherent
  have hone := oneLine_of_walked hcoherent hfile hi
  have hone' := oneLine_of_walked hcoherent' hfile' hi'
  have hones := oneLine_of_walked hstatic hp.statics hs
  have hones' := oneLine_of_walked hstatic' hp'.statics hs'
  rw [← RegistryView.prettyStr_eq_iff hcoherent hcoherent' hfile hfile' hone hone',
    ← RegistryView.prettyStr_eq_iff hstatic hstatic' hp.statics hp'.statics hones hones']
  constructor
  · intro heq
    rw [unlines_prettyStr, unlines_prettyStr] at heq
    have hlines := unlines_inj
      (oneLine_lines (RegistryView.oneLine_reportLines hfile hone)
        (RegistryView.oneLine_reportLines hp.statics hones))
      (oneLine_lines (RegistryView.oneLine_reportLines hfile' hone')
        (RegistryView.oneLine_reportLines hp'.statics hones')) heq
    obtain ⟨hf, hs⟩ := lines_inj hcoherent hcoherent' (List.cons.inj hlines).2
    exact ⟨congrArg unlines hf, congrArg unlines hs⟩
  · intro h
    unfold prettyStr
    rw [h.1, h.2]

/-- In two reachable states, of one program or of two, the Loader reports the same text
exactly if both of its registries have the same to say. -/
theorem sameText_iff_sameReport (hp : env.Printable) (hp' : env'.Printable)
    (hw : Reachable (step env) init w) (hw' : Reachable (step env') init w')
    {interfaces interfaces' statics statics' : List String}
    (hi : (interfaces : Multiset String) = w.impl.filePlugins.view.interfacesImplemented.val)
    (hi' : (interfaces' : Multiset String) = w'.impl.filePlugins.view.interfacesImplemented.val)
    (hs : (statics : Multiset String) = env.statics.view.interfacesImplemented.val)
    (hs' : (statics' : Multiset String) = env'.statics.view.interfacesImplemented.val) :
    w.prettyStr env interfaces statics = w'.prettyStr env' interfaces' statics' ↔
      (interfaces = interfaces' ∧
        RegistryView.SameReport w.impl.filePlugins.view w'.impl.filePlugins.view) ∧
      statics = statics' ∧ RegistryView.SameReport env.statics.view env'.statics.view :=
  prettyStr_eq_iff hp hp' (reachable_sound hw) (reachable_sound hw')
    (reachable_printable hp hw) (reachable_printable hp' hw') hi hi' hs hs'

theorem sharedName_printable : sharedName.Printable where
  library lib key info hl := by
    have hfirst : Enumerates [pluginOf "p" p_ne ["I"] ["x"]] (sharedName.allInfo 0) := by
      unfold Enumerates
      decide
    have hsecond : Enumerates [pluginOf "p" p_ne ["I"] ["y"]] (sharedName.allInfo 1) := by
      unfold Enumerates
      decide
    match lib with
    | 0 =>
      rw [List.mem_singleton.mp ((hfirst.mem_iff info).mpr ⟨key, hl⟩)]
      exact ⟨by decide, by decide, by decide⟩
    | 1 =>
      rw [List.mem_singleton.mp ((hsecond.mem_iff info).mpr ⟨key, hl⟩)]
      exact ⟨by decide, by decide, by decide⟩
    | n + 2 => exact absurd hl (by simp [show sharedName.allInfo (n + 2) = ∅ from rfl])
  static := nofun

/-- The state after a library was loaded into a new Loader. -/
def loadedFrom (path alias_ : String) : World :=
  init.after sharedName (.loadLib path false ⟨some 1, false⟩ [pluginOf "p" p_ne ["I"] [alias_]])

/-- The two libraries of `sharedName` give reports that differ. -/
theorem prettyStr_ne_loadedFrom :
    (loadedFrom "a" "x").prettyStr sharedName ["I"] [] ≠
      (loadedFrom "b" "y").prettyStr sharedName ["I"] [] := by
  have hreach : ∀ {path alias_},
      init.Enabled sharedName (.loadLib path false ⟨some 1, false⟩
        [pluginOf "p" p_ne ["I"] [alias_]]) →
      Reachable (step sharedName) init (loadedFrom path alias_) := fun hen =>
    ⟨[(_, _)], .cons (step_eq_some.mpr ⟨hen, rfl⟩) (.nil _), rfl⟩
  intro heq
  have hsame := ((sameText_iff_sameReport sharedName_printable sharedName_printable
    (hreach (by decide)) (hreach (by decide)) (by decide) (by decide) (by decide) (by decide)).mp
      heq).1.2.aliasesOfPlugin "p"
  exact absurd hsame (by decide)

end World

end GzPlugin
