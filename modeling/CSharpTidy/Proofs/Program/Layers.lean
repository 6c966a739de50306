import Mathlib.Data.List.Basic
import CSharpTidy.Program.Invocation
import CSharpTidy.Proofs.SortedMap

/-!
# Settings in layers

The settings in force are the defaults with one layer after another laid over them: those of the
configuration files, that of the environment and that of the flags. What a setting ends up as is
decided by what the layers say of that setting alone.
-/

namespace CSharpTidy

namespace Settings

/-- The value in the highest layer that has one, where the layers ascend. -/
def highest? {α : Type} (given : List (Option α)) : Option α := given.reverse.findSome? id

section Highest

variable {α β : Type} {given : List (Option α)}

theorem highest?_append (lower higher : List (Option α)) :
    highest? (lower ++ higher) = (highest? higher).or (highest? lower) := by
  rw [highest?, List.reverse_append, List.findSome?_append]
  rfl

theorem highest?_cons (lowest : Option α) (given : List (Option α)) :
    highest? (lowest :: given) = (highest? given).or lowest := by
  rw [← List.singleton_append, highest?_append]
  cases lowest <;> rfl

theorem highest?_map (f : α → β) (given : List (Option α)) :
    highest? (given.map (Option.map f)) = (highest? given).map f := by
  induction given with
  | nil => rfl
  | cons lowest given ih =>
      rw [List.map_cons, highest?_cons, highest?_cons, ih]
      cases highest? given <;> rfl

end Highest

/-! ## Laying one layer over another -/

section Merge

variable {α : Type}

/-- Where a layer that has a value puts it in place of the one before, the highest value stands. -/
theorem foldl_merge_eq_or (value : Settings → Option α) (given : SettingsLayer → Option α)
    (hmerge : ∀ settings layer, value (merge settings layer) = (given layer).or (value settings))
    (layers : List SettingsLayer) (settings : Settings) :
    value (layers.foldl merge settings) = (highest? (layers.map given)).or (value settings) := by
  induction layers generalizing settings with
  | nil => rfl
  | cons layer layers ih =>
      rw [List.foldl_cons, ih, hmerge, List.map_cons, highest?_cons, Option.or_assoc]

theorem foldl_merge_eq_getD (value : Settings → α) (given : SettingsLayer → Option α)
    (hmerge : ∀ settings layer, value (merge settings layer) = (given layer).getD (value settings))
    (layers : List SettingsLayer) (settings : Settings) :
    value (layers.foldl merge settings) = (highest? (layers.map given)).getD (value settings) := by
  have hsome : ∀ settings layer,
      some (value (merge settings layer)) = (given layer).or (some (value settings)) := by
    intro settings layer
    rw [hmerge, Option.or_some]
  have hfold := foldl_merge_eq_or (fun settings => some (value settings)) given hsome layers settings
  rw [Option.or_some] at hfold
  exact Option.some.inj hfold

end Merge

/-- A name that was kept before is passed over, as it is in erasing what repeats. -/
theorem firstOccurrences_eq_eraseDups (names : List String) :
    firstOccurrences names = names.eraseDups := by
  have hloop : ∀ names kept : List String,
      (names.foldl (fun kept name => if name ∈ kept then kept else name :: kept) kept).reverse =
        List.eraseDupsBy.loop (· == ·) names kept := by
    intro names
    induction names with
    | nil => exact fun _ => rfl
    | cons name names ih =>
        intro kept
        rw [List.foldl_cons, ih, List.eraseDupsBy.loop, List.any_beq, List.contains_eq_mem]
        by_cases hkept : name ∈ kept
        · rw [if_pos hkept, decide_eq_true hkept]
        · rw [if_neg hkept, decide_eq_false hkept]
  exact hloop names []

end Settings

namespace RuleSettings

theorem disabledRules_disableAll (settings : RuleSettings) (rules : List String) :
    (settings.disableAll rules).disabledRules =
      settings.disabledRules.insertMany (rules.map fun rule => (rule, ())) := by
  induction rules generalizing settings with
  | nil => rfl
  | cons rule rules ih => exact ih (settings.disable rule)

end RuleSettings

namespace RuleLayer

/-- The severity that a layer sets for a rule, where the last one counts. -/
def severity? (layer : RuleLayer) (rule : String) : Option Severity :=
  (layer.severityOverrides.getD []).reverse.lookup rule

end RuleLayer

namespace Settings

/-- Where a user keeps settings, as it is documented: in the directory that the environment gives, if
it gives an absolute one, or else below the user's home. That is the one that the environment names, or
else the one of the user's account, if there is an account. -/
inductive UserDirectory (account : Option Path) (environment : Environment) : Option Path → Prop
  | given {directory : String} (hgiven : environment.get? "XDG_CONFIG_HOME" = some directory)
      (habsolute : (⟨directory⟩ : Path).isAbsolute = true) :
      UserDirectory account environment (some ⟨directory⟩)
  | home {home : String}
      (hgiven : ∀ directory, environment.get? "XDG_CONFIG_HOME" = some directory →
        (⟨directory⟩ : Path).isAbsolute = false)
      (hhome : environment.get? "HOME" = some home) (hne : home ≠ "") :
      UserDirectory account environment (some ((⟨home⟩ : Path).join ⟨".config"⟩))
  | account
      (hgiven : ∀ directory, environment.get? "XDG_CONFIG_HOME" = some directory →
        (⟨directory⟩ : Path).isAbsolute = false)
      (hhome : ∀ home, environment.get? "HOME" = some home → home = "") :
      UserDirectory account environment (account.map fun home => home.join ⟨".config"⟩)

theorem userDirectory_standard (account : Option Path) (environment : Environment) :
    UserDirectory account environment
      ((SettingsSource.standard account).userDirectory? environment) := by
  change UserDirectory account environment (environment.userDirectory? account)
  rw [Environment.userDirectory?]
  split
  · next given hgiven =>
      obtain ⟨hget, habsolute⟩ := Option.filter_eq_some_iff.mp hgiven
      exact .given hget habsolute
  · next hnone =>
      have hgiven : ∀ directory, environment.get? "XDG_CONFIG_HOME" = some directory →
          (⟨directory⟩ : Path).isAbsolute = false := by
        intro directory hget
        simpa [hget, Option.filter] using hnone
      cases hhome : (environment.get? "HOME").filter (· ≠ "") with
      | some home =>
          obtain ⟨hget, hne⟩ := Option.filter_eq_some_iff.mp hhome
          exact .home hgiven hget (of_decide_eq_true hne)
      | none =>
          refine .account hgiven fun home hget => ?_
          simpa [hget, Option.filter] using hhome

/-- The layers of the configuration files: that of a file given on its own, or else those of the
user and of the project, as far as there are such files. -/
inductive Consulted (account : Option Path) (parse : Text → Except String SettingsLayer)
    (tree : FileTree) (environment : Environment) (explicit : Option Path) (projectRoot : Path) :
    List SettingsLayer → Prop
  | sole {path : Path} {layer : SettingsLayer} (hsole : soleFile? environment explicit = some path)
      (hread : readFile? parse tree path = .ok (some layer)) :
      Consulted account parse tree environment explicit projectRoot [layer]
  | both {directory : Option Path} {user project : Option SettingsLayer}
      (hsole : soleFile? environment explicit = none)
      (hdirectory : UserDirectory account environment directory)
      (huser : (directory.map userFile).elim (.ok none) (readFile? parse tree) = .ok user)
      (hproject : readFile? parse tree (projectRoot.join projectFile) = .ok project) :
      Consulted account parse tree environment explicit projectRoot (user.toList ++ project.toList)

/-- Each setting is what the highest layer says of it: a flag before a variable, a variable before
the files, the last of the files before the others, and the default where nothing is said. -/
structure Layered (files : List SettingsLayer) (environment : Environment) (line : CommandLine)
    (settings : Settings) : Prop where
  externalFirst : settings.order.externalFirst =
    (highest? (files.map (·.order.externalFirst) ++
      [environment.flag? "SHARPFMT_EXTERNAL_FIRST",
        if line.externalFirst then some true else none])).getD false
  externalPrefixes : settings.order.externalPrefixes =
    ((highest? (files.map (·.order.externalPrefixes) ++
      [environment.list? "SHARPFMT_EXTERNAL_PREFIXES"])).getD ["System"]).eraseDups
  spaceAfterControlKeyword : settings.format.spaceAfterControlKeyword =
    (highest? (files.map (·.format.spaceAfterControlKeyword) ++
      [environment.flag? "SHARPFMT_SPACE_AFTER_CONTROL_KEYWORD"])).getD true
  trimTrailingWhitespace : settings.format.trimTrailingWhitespace =
    (highest? (files.map (·.format.trimTrailingWhitespace))).getD true
  insertFinalNewline : settings.format.insertFinalNewline =
    (highest? (files.map (·.format.insertFinalNewline))).getD false
  strict : settings.rules.strict =
    (highest? (files.map (·.rules.strict) ++
      [environment.flag? "SHARPFMT_STRICT", if line.strict then some true else none])).getD false
  failOnRuleError : settings.rules.failOnRuleError =
    (highest? (files.map (·.rules.failOnRuleError))).getD false
  outputFormat : ∃ named, environment.outputFormat? = .ok named ∧
    settings.output.format =
      (highest? (files.map (·.output.format) ++ [named, line.format])).getD .human
  verboseRules : settings.output.verboseRules =
    (highest? (files.map (·.output.verboseRules))).getD false
  color : settings.output.color = (highest? (files.map (·.output.color))).getD true
  /-- A rule that one layer disables stays disabled. -/
  disabledRules : ∀ rule, rule ∈ settings.rules.disabledRules.keys ↔
    (∃ file ∈ files, rule ∈ file.rules.disabledRules.getD []) ∨
      rule ∈ (environment.list? "SHARPFMT_DISABLED_RULES").getD []
  severityOverrides : ∀ rule, settings.rules.severityOverrides.get? rule =
    highest? (files.map (·.rules.severity? rule))
  ordered : settings.rules.disabledRules.Ordered ∧ settings.rules.severityOverrides.Ordered

theorem foldl_merge_externalPrefixes (layers : List SettingsLayer) :
    (layers.foldl merge {}).order.externalPrefixes =
      ((highest? (layers.map (·.order.externalPrefixes))).getD ["System"]).eraseDups := by
  have hfold := foldl_merge_eq_getD (·.order.externalPrefixes)
    (fun layer => layer.order.externalPrefixes.map firstOccurrences) (fun _ _ => rfl) layers {}
  have hmap : layers.map (fun layer => layer.order.externalPrefixes.map firstOccurrences) =
      (layers.map (·.order.externalPrefixes)).map (Option.map firstOccurrences) := by
    rw [List.map_map]
    rfl
  rw [hfold, hmap, highest?_map]
  cases highest? (layers.map (·.order.externalPrefixes)) with
  | none => rfl
  | some names => exact firstOccurrences_eq_eraseDups names

theorem foldl_merge_disabledRules (layers : List SettingsLayer) (settings : Settings) :
    (layers.foldl merge settings).rules.disabledRules =
      settings.rules.disabledRules.insertMany
        ((layers.flatMap fun layer => layer.rules.disabledRules.getD []).map fun rule =>
          (rule, ())) := by
  induction layers generalizing settings with
  | nil => rfl
  | cons layer layers ih =>
      have hmerge : (settings.merge layer).rules.disabledRules =
          settings.rules.disabledRules.insertMany
            ((layer.rules.disabledRules.getD []).map fun rule => (rule, ())) :=
        settings.rules.disabledRules_disableAll _
      rw [List.foldl_cons, ih, hmerge, List.flatMap_cons, List.map_append]
      exact (List.foldl_append ..).symm

theorem get?_foldl_merge_severityOverrides (layers : List SettingsLayer) (rule : String) :
    (layers.foldl merge {}).rules.severityOverrides.get? rule =
      highest? (layers.map (·.rules.severity? rule)) := by
  have hfold := foldl_merge_eq_or (·.rules.severityOverrides.get? rule)
    (·.rules.severity? rule) (fun _ _ => SortedMap.get?_insertMany ..) layers {}
  exact hfold.trans (Option.or_none ..)

theorem ordered_foldl_merge_severityOverrides (layers : List SettingsLayer) {settings : Settings}
    (h : settings.rules.severityOverrides.Ordered) :
    (layers.foldl merge settings).rules.severityOverrides.Ordered := by
  induction layers generalizing settings with
  | nil => exact h
  | cons layer layers ih => exact ih (h.insertMany _)

/-- The settings of all layers, that of the environment and that of the flags laid last. -/
theorem layered_of_layer {files : List SettingsLayer} {environment : Environment}
    {layer : SettingsLayer} (hlayer : environment.layer = .ok layer) (line : CommandLine) :
    Layered files environment line (((files.foldl merge {}).merge layer).merge line.layer) := by
  have hsettings : ((files.foldl merge {}).merge layer).merge line.layer =
      (files ++ [layer, line.layer]).foldl merge {} := by
    rw [List.foldl_append]
    rfl
  rw [hsettings]
  have hmap : ∀ {α : Type} (given : SettingsLayer → Option α),
      highest? ((files ++ [layer, line.layer]).map given) =
        highest? (files.map given ++ [given layer, given line.layer]) := by
    intro α given
    rw [List.map_append]
    rfl
  have hfold : ∀ {α : Type} (value : Settings → α) (given : SettingsLayer → Option α),
      (∀ settings layer, value (merge settings layer) = (given layer).getD (value settings)) →
      value ((files ++ [layer, line.layer]).foldl merge {}) =
        (highest? (files.map given ++ [given layer, given line.layer])).getD (value {}) := by
    intro α value given hmerge
    rw [foldl_merge_eq_getD value given hmerge, hmap]
  rw [Environment.layer] at hlayer
  split at hlayer
  · cases hlayer
  · next named hnamed =>
      obtain rfl := Except.ok.inj hlayer
      constructor
      case externalFirst =>
        exact hfold (·.order.externalFirst) (·.order.externalFirst) fun _ _ => rfl
      case externalPrefixes =>
        rw [foldl_merge_externalPrefixes, hmap, highest?_append, highest?_append]
        rfl
      case spaceAfterControlKeyword =>
        rw [hfold (·.format.spaceAfterControlKeyword) (·.format.spaceAfterControlKeyword)
          fun _ _ => rfl, highest?_append, highest?_append]
        rfl
      case trimTrailingWhitespace =>
        rw [hfold (·.format.trimTrailingWhitespace) (·.format.trimTrailingWhitespace)
          fun _ _ => rfl, highest?_append]
        rfl
      case insertFinalNewline =>
        rw [hfold (·.format.insertFinalNewline) (·.format.insertFinalNewline) fun _ _ => rfl,
          highest?_append]
        rfl
      case strict => exact hfold (·.rules.strict) (·.rules.strict) fun _ _ => rfl
      case failOnRuleError =>
        rw [hfold (·.rules.failOnRuleError) (·.rules.failOnRuleError) fun _ _ => rfl,
          highest?_append]
        rfl
      case outputFormat =>
        exact ⟨named, hnamed, hfold (·.output.format) (·.output.format) fun _ _ => rfl⟩
      case verboseRules =>
        rw [hfold (·.output.verboseRules) (·.output.verboseRules) fun _ _ => rfl, highest?_append]
        rfl
      case color =>
        rw [hfold (·.output.color) (·.output.color) fun _ _ => rfl, highest?_append]
        rfl
      case disabledRules =>
        intro rule
        rw [foldl_merge_disabledRules, SortedMap.mem_keys_insertMany SortedMap.ordered_empty]
        simp [CommandLine.layer, SortedMap.keys, List.mem_flatMap]
      case severityOverrides =>
        intro rule
        rw [get?_foldl_merge_severityOverrides, hmap, highest?_append]
        rfl
      case ordered =>
        refine ⟨?_, ordered_foldl_merge_severityOverrides _ SortedMap.ordered_empty⟩
        rw [foldl_merge_disabledRules]
        exact SortedMap.ordered_empty.insertMany _

variable {source : SettingsSource} {account : Option Path} {tree : FileTree}
  {environment : Environment} {line : CommandLine} {explicit : Option Path} {projectRoot : Path}
  {files : List SettingsLayer} {invocation : Invocation}

theorem exists_of_bind_eq_ok {α β : Type} {first : Except Fault α} {next : α → Except Fault β}
    {answer : β} (h : first >>= next = .ok answer) :
    ∃ value, first = .ok value ∧ next value = .ok answer := by
  cases first with
  | error fault => cases h
  | ok value => exact ⟨value, rfl, h⟩

theorem consulted_of_fileLayers
    (hdirectory : UserDirectory account environment (source.userDirectory? environment))
    (h : fileLayers source tree environment explicit projectRoot = .ok files) :
    Consulted account source.parse tree environment explicit projectRoot files := by
  rw [fileLayers] at h
  split at h
  · next path hsole =>
      split at h
      · cases h
      · cases h
      · next layer hread =>
          obtain rfl := Except.ok.inj h
          exact .sole hsole hread
  · next hsole =>
      have hlookup : ∃ user, ((source.userDirectory? environment).map userFile).elim (.ok none)
            (readFile? source.parse tree) = .ok user ∧
          (do
            let project ← readFile? source.parse tree (projectRoot.join projectFile)
            pure (user.toList ++ project.toList) : Except Fault (List SettingsLayer)) =
              .ok files := by
        cases hfound : source.userDirectory? environment with
        | none =>
            rw [hfound] at h
            exact exists_of_bind_eq_ok h
        | some directory =>
            rw [hfound] at h
            exact exists_of_bind_eq_ok h
      obtain ⟨user, huser, hrest⟩ := hlookup
      obtain ⟨project, hproject, hlayers⟩ := exists_of_bind_eq_ok hrest
      obtain rfl := Except.ok.inj hlayers
      exact .both hsole hdirectory huser hproject

/-- **Settings in layers.** Whatever reads configuration files, each setting in force is what the highest
of the layers consulted says of it. -/
theorem layered_of_resolve
    (hdirectory : ∀ environment, UserDirectory account environment (source.userDirectory? environment))
    (h : Invocation.resolve tree environment line source = .ok invocation) :
    ∃ files,
      Consulted account source.parse tree environment line.config (line.projectRoot tree) files ∧
        Layered files environment line invocation.settings := by
  rw [Invocation.resolve] at h
  split at h
  · cases h
  · next settings hload =>
      obtain rfl := Except.ok.inj h
      rw [load] at hload
      split at hload
      · cases hload
      · next files hfiles =>
          split at hload
          · cases hload
          · next layer hlayer =>
              obtain rfl := Except.ok.inj hload
              exact ⟨files, consulted_of_fileLayers (hdirectory environment) hfiles,
                layered_of_layer hlayer line⟩

/-- A machine with a configuration file of the user, whose home only the account tells, and one of a
project. -/
def layeredTree : FileTree :=
  ((FileTree.bare ["w".toList]).addFile ⟨"/h/.config/sharpfmt/config.toml"⟩
    (.text "[lint]\nstrict = true\ndisabled_rules = [\"a\"]\n".toList) FileTree.defaultMode).addFile
    ⟨"P/sharpfmt.toml"⟩ (.text "[lint]\nstrict = false\n".toList) FileTree.defaultMode

def layeredEnvironment : Environment :=
  ⟨[("SHARPFMT_EXTERNAL_FIRST", "no"), ("SHARPFMT_EXTERNAL_PREFIXES", "B,A,B"),
    ("SHARPFMT_DISABLED_RULES", "c")]⟩

/-- The project decides on strictness, the environment on the prefixes and the flag on what comes
first, while the rules of the user and of the environment are both disabled. -/
theorem layered_of_four :
    ∃ line settings, settings.rules.strict = false ∧ settings.order.externalPrefixes = ["B", "A"] ∧
      settings.order.externalFirst = true ∧ settings.rules.disabledRules.keys = ["a", "c"] ∧
      (∀ environment, UserDirectory (some ⟨"/h"⟩) environment
        ((SettingsSource.standard (some ⟨"/h"⟩)).userDirectory? environment)) ∧
      Invocation.resolve layeredTree layeredEnvironment line (.standard (some ⟨"/h"⟩)) =
        .ok ⟨line, ⟨"P"⟩, settings⟩ ∧
      ∃ files, Consulted (some ⟨"/h"⟩) (SettingsSource.standard (some ⟨"/h"⟩)).parse layeredTree
          layeredEnvironment line.config (line.projectRoot layeredTree) files ∧
        Layered files layeredEnvironment line settings := by
  let line : CommandLine := { target := some ⟨"P/App.csproj"⟩, externalFirst := true }
  let settings : Settings :=
    { order := { externalFirst := true, externalPrefixes := ["B", "A"] }
      rules := { disabledRules := ⟨[("a", ()), ("c", ())]⟩ } }
  have hdirectory := userDirectory_standard (some ⟨"/h"⟩)
  have hresolve : Invocation.resolve layeredTree layeredEnvironment line
      (.standard (some ⟨"/h"⟩)) = .ok ⟨line, ⟨"P"⟩, settings⟩ := by
    decide +kernel
  exact ⟨line, settings, rfl, rfl, rfl, rfl, hdirectory, hresolve,
    layered_of_resolve hdirectory hresolve⟩

end Settings

end CSharpTidy
