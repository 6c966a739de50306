import CSharpTidy.Settings.Basic
import CSharpTidy.Output.Summary

namespace CSharpTidy

namespace Output

def textJson (text : Text) : JsonValue := .string (String.ofList text)

def editJson (edit : Edit) : JsonValue :=
  .object [("span", spanJson edit.span), ("replacement", textJson edit.replacement)]

def noticeJson (notice : Notice) : JsonValue :=
  .object [("severity", .string notice.severity.render), ("message", .string notice.message),
    ("path", .ofOption (fun path : Path => .string path.text) notice.path)]

def findingJson (finding : Finding) : JsonValue :=
  .object [("rule_id", .string finding.rule),
    ("severity", .string finding.severity.render), ("message", .string finding.message),
    ("span", spanJson finding.span), ("document", .number finding.document.index),
    ("category", .string finding.category.render)]

def policyJson (policy : OrderPolicy) : JsonValue :=
  match policy with
  | .alphabetical => .object [("policy", .string policy.name)]
  | .externalFirst prefixes =>
      .object [("policy", .string policy.name), ("prefixes", .ofList textJson prefixes)]

def orderSettingsJson (settings : OrderSettings) : JsonValue :=
  .object [("external_first", .bool settings.externalFirst),
    ("external_prefixes", .ofList .string settings.externalPrefixes)]

def formatSettingsJson (options : FormatSettings) : JsonValue :=
  .object [("space_after_control_keyword", .bool options.spaceAfterControlKeyword),
    ("trim_trailing_whitespace", .bool options.trimTrailingWhitespace),
    ("insert_final_newline", .bool options.insertFinalNewline)]

def ruleSettingsJson (settings : RuleSettings) : JsonValue :=
  .object [("disabled_rules", .ofList .string settings.disabledRules.keys),
    ("severity_overrides", .object (settings.severityOverrides.entries.map fun (rule, severity) =>
      (rule, .string severity.render))),
    ("strict", .bool settings.strict), ("fail_on_rule_error", .bool settings.failOnRuleError)]

def outputSettingsJson (settings : OutputSettings) : JsonValue :=
  .object [("format", .string settings.format.render),
    ("verbose_rules", .bool settings.verboseRules),
    ("color", .bool settings.color)]

def settingsJson (settings : Settings) : JsonValue :=
  .object [("order", orderSettingsJson settings.order),
    ("format", formatSettingsJson settings.format),
    ("lint", ruleSettingsJson settings.rules), ("output", outputSettingsJson settings.output)]

end Output

end CSharpTidy
