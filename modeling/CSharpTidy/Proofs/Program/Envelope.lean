import CSharpTidy.Program.Exit
import CSharpTidy.Proofs.Output.Reading

/-!
# The one JSON document of an invocation

Two parts of an invocation settle how it speaks. An answer goes out in the format that the whole
configuration gives, a fault in the one that the command line alone gives. So where an environment or
a file asks for JSON and no flag does, an answer is one JSON document and a fault is none.
-/

namespace CSharpTidy

/-- The document that tells how an invocation ended. -/
def Exit.document (timestamp : String) : Except Fault Answer → JsonValue
  | .ok answer => answer.envelope timestamp
  | .error fault => Output.faultEnvelope timestamp fault

/-- What is written of a JSON value reads as that value again. -/
def WritesJson (renderJson : JsonValue → String) : Prop :=
  ∀ value, JsonValue.read? (renderJson value) = some value

theorem writesJson_render : WritesJson (JsonValue.render 0) := JsonValue.read?_render 0

variable {libraries : Libraries} {environment : Environment} {arguments : List String}
  {tree : FileTree} {line : CommandLine} {invocation : Invocation} {timestamp : String}
  {answer : Answer} {fault : Fault}

/-- An answer in JSON goes out as its document, whatever asked for JSON. -/
theorem Exit.stdout_ofAnswer (hformat : invocation.format = .json) (renderJson : JsonValue → String)
    (timestamp : String) (colors : Bool) (answer : Answer) :
    (ofAnswer renderJson timestamp colors invocation.settings.output answer).stdout =
      renderJson (answer.envelope timestamp) ++ "\n" := by
  have hsettings : invocation.settings.output.format = .json := hformat
  rw [ofAnswer, hsettings]

section

variable (hline : libraries.readLine environment arguments = .ok line)
  (hresolve : Invocation.resolve tree environment line libraries.settings = .ok invocation)

include hline hresolve

theorem invoke_of_ok (terminal : Bool)
    (hperform : (invocation.perform tree libraries.walk).1 = .ok answer) :
    (invoke timestamp terminal environment arguments tree libraries).1 =
      .ofAnswer libraries.renderJson timestamp (environment.allowsColors terminal)
        invocation.settings.output answer := by
  rw [invoke, hline]
  simp only [hresolve]
  cases hresult : invocation.perform tree libraries.walk with
  | mk result after =>
      rw [hresult] at hperform
      obtain rfl : result = .ok answer := hperform
      rfl

theorem invoke_of_error (terminal : Bool)
    (hperform : (invocation.perform tree libraries.walk).1 = .error fault) :
    (invoke timestamp terminal environment arguments tree libraries).1 =
      .ofFault libraries.renderJson timestamp line fault := by
  rw [invoke, hline]
  simp only [hresolve]
  cases hresult : invocation.perform tree libraries.walk with
  | mk result after =>
      rw [hresult] at hperform
      obtain rfl : result = .error fault := hperform
      rfl

/-- **When JSON mode speaks JSON.** Where the configuration in force asks for JSON, the standard output
reads as exactly one JSON document, the one that tells the result, just where the invocation succeeds or
JSON was asked for by a flag. A fault without that flag leaves the standard output empty and goes to
the other stream as plain text. -/
theorem stdout_is_document_iff (hjson : WritesJson libraries.renderJson)
    (hformat : invocation.format = .json) (timestamp : String) (terminal : Bool) :
    (JsonValue.read? (invoke timestamp terminal environment arguments tree libraries).1.stdout =
        some (Exit.document timestamp (invocation.perform tree libraries.walk).1) ↔
      (∃ answer, (invocation.perform tree libraries.walk).1 = .ok answer) ∨
        line.format = some .json) ∧
    ∀ fault, (invocation.perform tree libraries.walk).1 = .error fault → line.format ≠ some .json →
      (invoke timestamp terminal environment arguments tree libraries).1 =
        { code := 1, stdout := "", stderr := "Error: " ++ fault.message ++ "\n" } := by
  have hquiet : ∀ fault, (invocation.perform tree libraries.walk).1 = .error fault →
      line.format ≠ some .json →
      (invoke timestamp terminal environment arguments tree libraries).1 =
        { code := 1, stdout := "", stderr := "Error: " ++ fault.message ++ "\n" } := by
    intro fault hperform hflag
    rw [invoke_of_error hline hresolve terminal hperform, Exit.ofFault, if_neg hflag]
  refine ⟨?_, hquiet⟩
  cases hperform : (invocation.perform tree libraries.walk).1 with
  | ok answer =>
      refine iff_of_true ?_ (.inl ⟨answer, rfl⟩)
      rw [invoke_of_ok hline hresolve terminal hperform, Exit.stdout_ofAnswer hformat,
        JsonValue.read?_append_newline]
      exact hjson (answer.envelope timestamp)
  | error fault =>
      by_cases hflag : line.format = some .json
      · refine iff_of_true ?_ (.inr hflag)
        rw [invoke_of_error hline hresolve terminal hperform, Exit.ofFault, if_pos hflag,
          JsonValue.read?_append_newline]
        exact hjson (Output.faultEnvelope timestamp fault)
      · refine iff_of_false ?_ (by simp [hflag])
        rw [hquiet fault hperform hflag]
        exact Option.some_ne_none _ ∘ Eq.symm

end

def emptyDirectory : FileTree := .bare ["w".toList]

/-- A directory with a configuration file that asks for JSON. -/
def jsonDirectory : FileTree :=
  emptyDirectory.addFile Settings.projectFile (.text "[output]\nformat = \"json\"\n".toList)
    FileTree.defaultMode

/-- The rules are listed in JSON where a configuration file asks for it. -/
theorem stdout_is_document_of_file :
    ∃ line invocation,
      CommandLine.read {} ["--list-rules"] = .ok line ∧
      Invocation.resolve jsonDirectory {} line = .ok invocation ∧ invocation.format = .json ∧
      line.format = none ∧
      JsonValue.read? (invoke "now" false {} ["--list-rules"] jsonDirectory).1.stdout =
        some (Exit.document "now" (invocation.perform jsonDirectory).1) := by
  let line : CommandLine := { listRules := true }
  let invocation : Invocation := ⟨line, ⟨"/w"⟩, { output := { format := .json } }⟩
  have hline : CommandLine.read {} ["--list-rules"] = .ok line := by decide +kernel
  have hresolve : Invocation.resolve jsonDirectory {} line = .ok invocation := by decide +kernel
  have hperform : (invocation.perform jsonDirectory).1 = .ok (.rules invocation.ruleSet.cards) := rfl
  refine ⟨line, invocation, hline, hresolve, rfl, rfl, ?_⟩
  have hread : Libraries.standard.readLine {} ["--list-rules"] = .ok line :=
    congrArg (Except.mapError Exit.ofUsage) hline
  exact (stdout_is_document_iff hread hresolve writesJson_render rfl "now" false).1.mpr
    (.inl ⟨_, hperform⟩)

/-- A target that is not there is told in plain text where the environment asks for JSON. -/
theorem stdout_empty_of_environment :
    ∃ line invocation,
      CommandLine.read ⟨[("SHARPFMT_FORMAT", "json")]⟩ ["App.csproj"] = .ok line ∧
      Invocation.resolve emptyDirectory ⟨[("SHARPFMT_FORMAT", "json")]⟩ line = .ok invocation ∧
      invocation.format = .json ∧
      (invocation.perform emptyDirectory).1 = .error (.notFound ⟨"App.csproj"⟩) ∧
      (invoke "now" false ⟨[("SHARPFMT_FORMAT", "json")]⟩ ["App.csproj"] emptyDirectory).1 =
        { code := 1, stdout := "", stderr := "Error: Not found: App.csproj\n" } ∧
      JsonValue.read? "" = none := by
  let line : CommandLine := { target := some ⟨"App.csproj"⟩ }
  let invocation : Invocation := ⟨line, ⟨"/w"⟩, { output := { format := .json } }⟩
  have hline : CommandLine.read ⟨[("SHARPFMT_FORMAT", "json")]⟩ ["App.csproj"] = .ok line := by
    decide +kernel
  have hresolve : Invocation.resolve emptyDirectory ⟨[("SHARPFMT_FORMAT", "json")]⟩ line =
      .ok invocation := by decide +kernel
  have hmissing : emptyDirectory.isFile ⟨"App.csproj"⟩ = false := by decide +kernel
  have hperform : (invocation.perform emptyDirectory).1 = .error (.notFound ⟨"App.csproj"⟩) := by
    simp [Invocation.perform, invocation, line, Loading.load, hmissing]
  refine ⟨line, invocation, hline, hresolve, rfl, hperform, ?_, rfl⟩
  have hread : Libraries.standard.readLine ⟨[("SHARPFMT_FORMAT", "json")]⟩ ["App.csproj"] =
      .ok line := congrArg (Except.mapError Exit.ofUsage) hline
  exact invoke_of_error hread hresolve false hperform

end CSharpTidy
