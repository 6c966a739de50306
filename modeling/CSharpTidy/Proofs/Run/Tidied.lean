import CSharpTidy.Proofs.Format.FixedPoint
import CSharpTidy.Proofs.Order.Between
import CSharpTidy.Proofs.Order.Fix
import CSharpTidy.Proofs.Rule.Verdict
import CSharpTidy.Proofs.Run.Edit

/-!
# Documents with nothing to fix

Fixing a document sorts its directives and formats it, and formatting it once more brings it to rest:
its scopes are settled, and the formatter has no edits. On such a document the rules find no more than
scopes that they cannot sort, and neither fixing nor formatting proposes anything.
-/

namespace CSharpTidy

theorem Text.getD_changed (text changed : Text) :
    (if changed = text then none else some changed).getD text = changed := by
  split
  · next hsame => exact hsame.symm
  · rfl

/-- A document with the text that is proposed for it, if there is one. -/
def Document.revised (reader : Reader) (propose : Document → Option Text) (document : Document) :
    Document :=
  (document.withText reader ((propose document).getD document.text)).1

def Document.IsCSharp (document : Document) : Prop :=
  document = (Document.parse CSharp.reader document.id document.path document.text).1

/-- The text that the fixes of rules give a document, if it is another one. -/
def RuleSet.repaired (ruleSet : RuleSet) (document : Document) : Option Text :=
  (ruleSet.repair CSharp.reader document).text

/-- The scopes of a document are settled, and the formatter has no edits. -/
structure Document.Tidied (policy : OrderPolicy) (options : FormatSettings) (document : Document)
    (tree : Tree) : Prop where
  formatted : ∃ tokens, tokenize document.text = .ok tokens ∧
    Spacing.edits document.text tokens options = []
  settled : ∀ block ∈ tree.blocks, DirectiveOrder.Settled policy document.text
    (block.map ScopeDirective.ofDirective)

namespace Document

variable {reader : Reader} {document : Document} {propose : Document → Option Text} {tree : Tree}
  {policy : OrderPolicy} {options : FormatSettings}

theorem IsCSharp.revised_of_none (h : document.IsCSharp) (hnone : propose document = none) :
    document.revised CSharp.reader propose = document := by
  rw [revised, hnone, Option.getD_none, withText, ← h]

theorem isCSharp_revised (document : Document) (propose : Document → Option Text) :
    (document.revised CSharp.reader propose).IsCSharp := rfl

theorem IsCSharp.root_eq_ok_iff (h : document.IsCSharp) :
    document.root = .ok tree ↔ ∃ late, CSharp.read document.text = (late, .ok tree) := by
  conv_lhs => rw [h]
  exact root_parse_eq_ok_iff

end Document

namespace RuleSet

open Document (IsCSharp Tidied)

variable {document : Document} {tree tree' : Tree} {policy : OrderPolicy} {options : FormatSettings}
  {late : List Text} {text' : Text} {rule : Rule} {state : RepairState} {edits : List Edit}
  {fault : Fault}

theorem repairStep_of_nil (hfix : rule.fix state.document = .ok []) :
    repairStep CSharp.reader state rule = state := by
  rw [repairStep, fixedText?, hfix]
  rfl

theorem document_repairStep (h : state.document.IsCSharp) (hfix : rule.fix state.document = .ok edits)
    (happlied : Edit.applyAll state.document.text edits = .ok text') :
    (repairStep CSharp.reader state rule).document =
      (state.document.withText CSharp.reader text').1 := by
  cases edits with
  | nil =>
      rw [Edit.applyAll_nil, Except.ok.injEq] at happlied
      rw [repairStep_of_nil hfix, ← happlied, Document.withText, ← h]
  | cons edit edits =>
      rw [repairStep, fixedText?, hfix]
      simp only [List.isEmpty_cons, Bool.false_eq_true, if_false, happlied]

theorem document_repairStep_of_error (hfix : rule.fix state.document = .error fault) :
    (repairStep CSharp.reader state rule).document = state.document := by
  rw [repairStep, fixedText?, hfix]

theorem document_repairStep_sorting (h : state.document.IsCSharp) {mark : Text}
    {chunks chunks' : List Chunk} (hroot : state.document.root = .ok tree)
    (hfixed : DirectiveOrder.Fixed policy state.document.text tree text' tree' mark chunks chunks') :
    (repairStep CSharp.reader state (DirectiveOrder.rule policy)).document =
      (state.document.withText CSharp.reader text').1 := by
  have hfix : (DirectiveOrder.rule policy).fix state.document =
      .ok (DirectiveOrder.edits policy state.document.text tree) := by
    simp only [DirectiveOrder.rule, hroot]
  exact document_repairStep h hfix hfixed.turns.applyAll_eq

theorem document_repairStep_formatting (h : state.document.IsCSharp) {tokens tokens' : List Token}
    (hroot : state.document.root = .ok tree)
    (hformatted : Spacing.Formatted options state.document.text tokens tree text' tokens' tree') :
    (repairStep CSharp.reader state (FormatCheck.rule spacingFormatter options)).document =
      (state.document.withText CSharp.reader text').1 :=
  document_repairStep h (Spacing.spacingFormatter_eq hroot hformatted.tokenized options)
    hformatted.applied

/-- The rules with fixes are the two of the standard set, the order of directives first. -/
theorem getD_repaired (document : Document) :
    ((standard policy options).repaired document).getD document.text =
      (repairStep CSharp.reader
        (repairStep CSharp.reader ⟨document, [], []⟩ (DirectiveOrder.rule policy))
        (FormatCheck.rule spacingFormatter options)).document.text := by
  rw [repaired, repair, fixers_standard]
  exact Text.getD_changed ..

theorem repaired_eq_none_iff : (standard policy options).repaired document = none ↔
    (repairStep CSharp.reader
      (repairStep CSharp.reader ⟨document, [], []⟩ (DirectiveOrder.rule policy))
      (FormatCheck.rule spacingFormatter options)).document.text = document.text := by
  rw [repaired, repair, fixers_standard]
  simp only [ite_eq_left_iff, reduceCtorEq, imp_false, not_not]
  exact Iff.rfl

theorem exists_repaired (h : document.IsCSharp)
    (hread : CSharp.read document.text = (late, .ok tree)) (policy : OrderPolicy)
    (options : FormatSettings) :
    ∃ text' tree' mark chunks chunks' tokens tokens' tree'',
      CSharp.read text' = (late, .ok tree') ∧
      DirectiveOrder.Fixed policy document.text tree text' tree' mark chunks chunks' ∧
      CSharp.read (((standard policy options).repaired document).getD document.text) =
        (late, .ok tree'') ∧
      Spacing.Formatted options text' tokens tree'
        (((standard policy options).repaired document).getD document.text) tokens' tree'' := by
  obtain ⟨text', tree', mark, chunks, chunks', hread', hfixed⟩ :=
    DirectiveOrder.exists_fixed hread policy
  obtain ⟨tokens, text'', tokens', tree'', hread'', hformatted⟩ :=
    Spacing.exists_formatted hread' options
  have hroot := h.root_eq_ok_iff.mpr ⟨late, hread⟩
  have htext : ((standard policy options).repaired document).getD document.text = text'' := by
    rw [getD_repaired]
    let first : RepairState := ⟨document, [], []⟩
    have hsorted : (repairStep CSharp.reader first (DirectiveOrder.rule policy)).document =
        (document.withText CSharp.reader text').1 := document_repairStep_sorting h hroot hfixed
    generalize repairStep CSharp.reader first (DirectiveOrder.rule policy) = state at hsorted ⊢
    have hcsharp : state.document.IsCSharp := hsorted ▸ rfl
    have hsame : state.document.text = text' := by rw [hsorted]; rfl
    have hroot' : state.document.root = .ok tree' := by
      rw [hsorted, Document.withText, Document.parse_eq hread']
      rfl
    rw [← hsame] at hformatted
    rw [document_repairStep_formatting hcsharp hroot' hformatted]
    rfl
  rw [htext]
  exact ⟨text', tree', mark, chunks, chunks', tokens, tokens', tree'', hread', hfixed, hread'',
    hformatted⟩

end RuleSet

/-! ## Documents without a tree -/

namespace Document

open RuleSet (standard repaired RepairState repairStep document_repairStep_of_error)

variable {document : Document} {tree : Tree} {policy : OrderPolicy} {options : FormatSettings}
  {fault : Fault}

theorem sorting_of_error (hroot : document.root = .error fault) (policy : OrderPolicy) :
    (DirectiveOrder.rule policy).fix document = .error fault ∧
      (DirectiveOrder.rule policy).evaluate document = .error fault := by
  simp only [DirectiveOrder.rule, hroot, and_self]

theorem formatting_of_error (hroot : document.root = .error fault) (options : FormatSettings) :
    spacingFormatter document options = .error fault := by
  rw [spacingFormatter, hroot]

theorem repaired_of_error (hroot : document.root = .error fault) :
    (standard policy options).repaired document = none := by
  let first : RepairState := ⟨document, [], []⟩
  have hsorting : (repairStep CSharp.reader first (DirectiveOrder.rule policy)).document = document :=
    document_repairStep_of_error (sorting_of_error hroot policy).1
  rw [RuleSet.repaired_eq_none_iff]
  generalize repairStep CSharp.reader first (DirectiveOrder.rule policy) = state at hsorting ⊢
  have hformatting : spacingFormatter state.document options = .error fault := by
    rw [hsorting, formatting_of_error hroot]
  rw [document_repairStep_of_error hformatting, hsorting]

theorem reformed_of_error (hroot : document.root = .error fault) :
    reformed spacingFormatter options document = none := by
  rw [reformed, formattedText?, formatting_of_error hroot]

/-! ## Documents that are fixed and formatted -/

def tidied (policy : OrderPolicy) (options : FormatSettings) (document : Document) : Document :=
  (document.revised CSharp.reader (standard policy options).repaired).revised CSharp.reader
    (reformed spacingFormatter options)

theorem isCSharp_tidied (document : Document) (policy : OrderPolicy) (options : FormatSettings) :
    (document.tidied policy options).IsCSharp :=
  isCSharp_revised _ _

variable {late : List Text}

theorem exists_reformed (hcsharp : document.IsCSharp)
    (hread : CSharp.read document.text = (late, .ok tree)) (options : FormatSettings) :
    ∃ tokens tokens' tree',
      CSharp.read ((reformed spacingFormatter options document).getD document.text) =
        (late, .ok tree') ∧
      Spacing.Formatted options document.text tokens tree
        ((reformed spacingFormatter options document).getD document.text) tokens' tree' := by
  obtain ⟨tokens, text', tokens', tree', hread', hformatted⟩ :=
    Spacing.exists_formatted hread options
  have hedits := Spacing.spacingFormatter_eq (hcsharp.root_eq_ok_iff.mpr ⟨late, hread⟩)
    hformatted.tokenized options
  have htext : (reformed spacingFormatter options document).getD document.text = text' := by
    rw [reformed, Spacing.formattedText?_eq hedits hformatted.applied]
    exact Text.getD_changed ..
  rw [htext]
  exact ⟨tokens, tokens', tree', hread', hformatted⟩

/-- **Nothing is left to fix.** A document with a tree keeps one, and there its scopes are settled
and the formatter has no edits. -/
theorem exists_tidied (hcsharp : document.IsCSharp) (hroot : document.root = .ok tree)
    (policy : OrderPolicy) (options : FormatSettings) :
    ∃ tree', (document.tidied policy options).root = .ok tree' ∧
      (document.tidied policy options).Tidied policy options tree' := by
  obtain ⟨late, hread⟩ := hcsharp.root_eq_ok_iff.mp hroot
  obtain ⟨sorted, sortedTree, mark, chunks, chunks', tokens, tokens', fixedTree, hsorted, hfixed,
    hread', hformatted⟩ := RuleSet.exists_repaired hcsharp hread policy options
  have hrevised := document.isCSharp_revised (standard policy options).repaired
  obtain ⟨tokens₁, tokens'', tree', hread'', hformatted'⟩ := exists_reformed hrevised hread' options
  obtain rfl : tokens' = tokens₁ :=
    Except.ok.inj (hformatted.tokenized'.symm.trans hformatted'.tokenized)
  refine ⟨tree', (isCSharp_tidied _ _ _).root_eq_ok_iff.mpr ⟨late, hread''⟩, ?_, ?_⟩
  · exact ⟨tokens'', hformatted'.tokenized', hformatted.edits_twice_eq_nil hformatted'⟩
  · have hsettled := DirectiveOrder.settled_of_formatted hsorted hread' hformatted hfixed.settled
    exact DirectiveOrder.settled_of_formatted hread' hread'' hformatted' hsettled

theorem tidied_of_error (hcsharp : document.IsCSharp) (hroot : document.root = .error fault) :
    document.tidied policy options = document := by
  rw [tidied, hcsharp.revised_of_none (repaired_of_error hroot),
    hcsharp.revised_of_none (reformed_of_error hroot)]

/-! ## What the rules find on them -/

namespace Tidied

variable (h : document.Tidied policy options tree) (hroot : document.root = .ok tree)

include h hroot

theorem sorting_eq_nil : (DirectiveOrder.rule policy).fix document = .ok [] := by
  simp only [DirectiveOrder.rule, hroot, DirectiveOrder.edits_eq_nil h.settled]

theorem formatting_eq_nil : spacingFormatter document options = .ok [] := by
  obtain ⟨tokens, htokens, hedits⟩ := h.formatted
  rw [Spacing.spacingFormatter_eq hroot htokens, hedits]

theorem repaired_eq_none : (standard policy options).repaired document = none := by
  let first : RepairState := ⟨document, [], []⟩
  have hsorting : repairStep CSharp.reader first (DirectiveOrder.rule policy) = first :=
    RuleSet.repairStep_of_nil (h.sorting_eq_nil hroot)
  have hformatting : repairStep CSharp.reader first (FormatCheck.rule spacingFormatter options) =
      first := RuleSet.repairStep_of_nil (h.formatting_eq_nil hroot)
  rw [RuleSet.repaired_eq_none_iff, hsorting, hformatting]

theorem reformed_eq_none : reformed spacingFormatter options document = none := by
  rw [reformed, formattedText?, h.formatting_eq_nil hroot]
  rfl

theorem formatCheck_eq_nil :
    (FormatCheck.rule spacingFormatter options).evaluate document = .ok [] := by
  simp only [FormatCheck.rule, h.formatting_eq_nil hroot, List.map_nil]

end Tidied

theorem proposals_tidied (hcsharp : document.IsCSharp) (policy : OrderPolicy)
    (options : FormatSettings) :
    (standard policy options).repaired (document.tidied policy options) = none ∧
      reformed spacingFormatter options (document.tidied policy options) = none := by
  cases hroot : document.root with
  | error fault =>
      rw [tidied_of_error hcsharp hroot]
      exact ⟨repaired_of_error hroot, reformed_of_error hroot⟩
  | ok tree =>
      obtain ⟨tree', hroot', htidied⟩ := exists_tidied hcsharp hroot policy options
      exact ⟨htidied.repaired_eq_none hroot', htidied.reformed_eq_none hroot'⟩

end Document

/-- A preprocessor line stands between two directives of a scope, or only some of them are global. -/
def Scope.Divided (tokens : List Token) (scope : Scope) : Prop :=
  (∃ first ∈ scope.directives, ∃ second ∈ scope.directives,
    Token.splits tokens first.span.stop second.span.start = true) ∨
  ∃ first ∈ scope.directives, ∃ second ∈ scope.directives,
    first.isGlobal = true ∧ second.isGlobal = false

theorem Scope.divided_of_settled {text : Text} {late : List Text} {tree : Tree}
    {policy : OrderPolicy} {tokens : List Token} {scope : Scope}
    (hread : CSharp.read text = (late, .ok tree)) (htokens : tokenize text = .ok tokens)
    (hsettled : ∀ block ∈ tree.blocks,
      DirectiveOrder.Settled policy text (block.map ScopeDirective.ofDirective))
    (hscope : scope ∈ tree.scopes) (hsorted : policy.isSorted scope.directives = false) :
    scope.Divided tokens := by
  have hmem := List.mem_map_of_mem (f := Scope.directives) hscope
  rw [tree.scopes_map_directives] at hmem
  obtain ⟨block, hblock, hdirectives⟩ := List.mem_map.mp hmem
  rw [← hdirectives] at hsorted
  obtain ⟨before, first, second, after, hcut, hreason⟩ :=
    (hsettled block hblock).exists_of_not_isSorted hsorted
  have hfirst : first ∈ scope.directives := by simp [← hdirectives, hcut]
  have hsecond : second ∈ scope.directives := by simp [← hdirectives, hcut]
  rcases hreason with hsplit | hglobal
  · left
    obtain ⟨before', rest, hblockCut, rfl, hrest⟩ := List.map_eq_append_iff.mp hcut
    obtain ⟨first', rest', rfl, rfl, hrest'⟩ := List.map_eq_cons_iff.mp hrest
    obtain ⟨second', after', rfl, rfl, rfl⟩ := List.map_eq_cons_iff.mp hrest'
    refine ⟨_, hfirst, _, hsecond, ?_⟩
    rw [DirectiveOrder.splitsBy_of_read hread htokens block hblock before' first' second' after'
      hblockCut] at hsplit
    exact hsplit
  · exact .inr ⟨first, hfirst, second, hsecond, hglobal⟩

/-! ## What a report says about them -/

namespace Document

open RuleSet (standard builtIn)

variable {document : Document} {tree : Tree} {policy : OrderPolicy} {options : FormatSettings}
  {fault : Fault} {rule : Rule} {found : List Finding} {finding : Finding}

theorem evaluate_of_error (hroot : document.root = .error fault)
    (hrule : rule ∈ builtIn policy options) : rule.evaluate document = .error fault := by
  rcases List.mem_pair.mp hrule with rfl | rfl
  · exact (sorting_of_error hroot policy).2
  · simp only [FormatCheck.rule, formatting_of_error hroot]

/-- All that is found on a document with nothing to fix are divided scopes. -/
theorem Tidied.exists_of_finding (h : document.Tidied policy options tree)
    (hcsharp : document.IsCSharp) (hroot : document.root = .ok tree)
    (hrule : rule ∈ builtIn policy options) (hfound : rule.evaluate document = .ok found)
    (hfinding : finding ∈ found) :
    finding.rule = DirectiveOrder.ruleId ∧ finding.document = document.id ∧
      ∃ tokens, tokenize document.text = .ok tokens ∧
        ∃ scope ∈ tree.scopes, scope.block? = some finding.span ∧ scope.Divided tokens := by
  rcases List.mem_pair.mp hrule with rfl | rfl
  · simp only [DirectiveOrder.rule, hroot, Except.ok.injEq] at hfound
    rw [← hfound, DirectiveOrder.findings, List.mem_filterMap] at hfinding
    obtain ⟨scope, hdisordered, hreported⟩ := hfinding
    obtain ⟨hscope, hsorted⟩ := List.mem_filter.mp hdisordered
    obtain ⟨block, hblock, rfl⟩ := Option.map_eq_some_iff.mp hreported
    obtain ⟨tokens, htokens, -⟩ := h.formatted
    obtain ⟨late, hread⟩ := hcsharp.root_eq_ok_iff.mp hroot
    exact ⟨rfl, rfl, tokens, htokens, scope, hscope, hblock,
      Scope.divided_of_settled hread htokens h.settled hscope (by simpa using hsorted)⟩
  · rw [h.formatCheck_eq_nil hroot, Except.ok.injEq] at hfound
    rw [← hfound] at hfinding
    cases hfinding

theorem failuresOn_of_error (hroot : document.root = .error fault) :
    (standard policy options).failuresOn document =
      [.ofFault DirectiveOrder.ruleId document.id fault,
        .ofFault FormatCheck.ruleId document.id fault] := by
  have hsorting : (DirectiveOrder.rule policy).evaluate document = .error fault :=
    evaluate_of_error hroot (List.mem_pair.mpr (.inl rfl) : _ ∈ builtIn policy options)
  have hformatting : (FormatCheck.rule spacingFormatter options).evaluate document = .error fault :=
    evaluate_of_error hroot (List.mem_pair.mpr (.inr rfl) : _ ∈ builtIn policy options)
  rw [RuleSet.failuresOn, RuleSet.active_standard, builtIn]
  simp only [List.filterMap_cons, List.filterMap_nil, hsorting, hformatting]
  rfl

theorem failuresOn_of_ok (hcsharp : document.IsCSharp) (hroot : document.root = .ok tree) :
    (standard policy options).failuresOn document = [] := by
  obtain ⟨late, hread⟩ := hcsharp.root_eq_ok_iff.mp hroot
  obtain ⟨tokens, text', tokens', tree', -, hformatted⟩ := Spacing.exists_formatted hread options
  have hsorting : (DirectiveOrder.rule policy).evaluate document =
      .ok (DirectiveOrder.findings policy document.id tree) := by
    simp only [DirectiveOrder.rule, hroot]
  have hedits := Spacing.spacingFormatter_eq hroot hformatted.tokenized options
  have hformatting : ((FormatCheck.rule spacingFormatter options).evaluate document).isOk = true := by
    simp only [FormatCheck.rule, hedits]
    rfl
  rw [RuleSet.failuresOn, RuleSet.active_standard, builtIn]
  simp only [List.filterMap_cons, List.filterMap_nil, hsorting]
  cases hevaluate : (FormatCheck.rule spacingFormatter options).evaluate document with
  | ok found => rfl
  | error fault =>
      rw [hevaluate] at hformatting
      cases hformatting

theorem exists_failure_iff (hcsharp : document.IsCSharp) {id : DocumentId} :
    (∃ failure ∈ (standard policy options).failuresOn document, failure.document = id) ↔
      document.id = id ∧ ¬∃ tree, document.root = .ok tree := by
  cases hroot : document.root with
  | ok tree => simp [failuresOn_of_ok hcsharp hroot]
  | error fault => simp [failuresOn_of_error hroot, FailedRule.ofFault]

theorem failuresOn_tidied (hcsharp : document.IsCSharp) :
    (standard policy options).failuresOn (document.tidied policy options) =
      (standard policy options).failuresOn document := by
  cases hroot : document.root with
  | error fault => rw [tidied_of_error hcsharp hroot]
  | ok tree =>
      obtain ⟨tree', hroot', -⟩ := exists_tidied hcsharp hroot policy options
      rw [failuresOn_of_ok hcsharp hroot,
        failuresOn_of_ok (document.isCSharp_tidied policy options) hroot']

end Document

namespace RuleSet

variable {documents : List Document} {policy : OrderPolicy} {options : FormatSettings}
  {finding : Finding}

theorem exists_failure_run_iff (hcsharp : ∀ document ∈ documents, document.IsCSharp)
    {id : DocumentId} :
    (∃ failure ∈ ((standard policy options).run documents).failures, failure.document = id) ↔
      ∃ document ∈ documents, document.id = id ∧ ¬∃ tree, document.root = .ok tree := by
  rw [run_eq]
  constructor
  · rintro ⟨failure, hfailure, hid⟩
    obtain ⟨document, hmem, hfailure⟩ := List.mem_flatMap.mp hfailure
    exact ⟨document, hmem,
      (Document.exists_failure_iff (hcsharp document hmem)).mp ⟨failure, hfailure, hid⟩⟩
  · rintro ⟨document, hmem, hfails⟩
    obtain ⟨failure, hfailure, hid⟩ := (Document.exists_failure_iff (hcsharp document hmem)).mpr hfails
    exact ⟨failure, List.mem_flatMap.mpr ⟨document, hmem, hfailure⟩, hid⟩

theorem failures_run_tidied (hcsharp : ∀ document ∈ documents, document.IsCSharp) :
    ((standard policy options).run (documents.map (Document.tidied policy options))).failures =
      ((standard policy options).run documents).failures := by
  simp only [run_eq, List.flatMap_map]
  exact List.flatMap_congr fun document hmem => Document.failuresOn_tidied (hcsharp document hmem)

/-- A report on documents that are fixed and formatted finds nothing but divided scopes. -/
theorem exists_of_finding_run_tidied (hcsharp : ∀ document ∈ documents, document.IsCSharp)
    (hfinding : finding ∈
      ((standard policy options).run (documents.map (Document.tidied policy options))).findings) :
    finding.rule = DirectiveOrder.ruleId ∧
      ∃ document ∈ documents.map (Document.tidied policy options),
        finding.document = document.id ∧
        ∃ tree tokens, document.root = .ok tree ∧ tokenize document.text = .ok tokens ∧
          ∃ scope ∈ tree.scopes, scope.block? = some finding.span ∧ scope.Divided tokens := by
  obtain ⟨document', hmem', rule, hrule, found, hfound, hadjusted⟩ := mem_findings_run_iff.mp hfinding
  rw [List.map_congr_left fun found _ => adjust_standard found, List.map_id'] at hadjusted
  obtain ⟨document, hmem, rfl⟩ := List.mem_map.mp hmem'
  rw [active_standard] at hrule
  cases hroot : document.root with
  | error fault =>
      rw [Document.tidied_of_error (hcsharp document hmem) hroot,
        Document.evaluate_of_error hroot hrule] at hfound
      cases hfound
  | ok tree =>
      obtain ⟨tree', hroot', htidied⟩ :=
        Document.exists_tidied (hcsharp document hmem) hroot policy options
      obtain ⟨hid, hdocument, tokens, htokens, hscope⟩ := htidied.exists_of_finding
        (document.isCSharp_tidied policy options) hroot' hrule hfound hadjusted
      exact ⟨hid, _, hmem', hdocument, tree', tokens, hroot', htokens, hscope⟩

end RuleSet

end CSharpTidy
