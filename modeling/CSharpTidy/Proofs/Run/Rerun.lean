import CSharpTidy.Proofs.Run.Lifecycle
import CSharpTidy.Proofs.Run.Tidied

/-!
# A second run has nothing to do

A run that analyzes, fixes, formats and commits leaves a workspace whose documents have nothing to
fix. A second run over it finds no more than scopes that cannot be sorted, fails where the first did,
changes no document and commits nothing.
-/

namespace CSharpTidy

open Solution (Variant)

variable {base next : Solution} {propose : Document → Option Text}

theorem Changes.get?_ofTexts_or (h : base.Sound) {document : Document}
    (hmem : document ∈ base.documents) :
    ((Changes.ofTexts propose base.documents).get? document.id).or (base.text? document.id) =
      some ((propose document).getD document.text) := by
  cases hpropose : propose document with
  | some text =>
      rw [(get?_ofTexts_eq_some_iff h.nodup).mpr ⟨document, hmem, rfl, hpropose⟩]
      rfl
  | none =>
      cases hget : (Changes.ofTexts propose base.documents).get? document.id with
      | none => exact Solution.text?_of_mem h.nodup hmem
      | some text =>
          obtain ⟨other, hother, hid, hproposed⟩ := (get?_ofTexts_eq_some_iff h.nodup).mp hget
          rw [List.inj_on_of_nodup_map h.nodup hother hmem hid, hpropose] at hproposed
          cases hproposed

theorem Changes.ofTexts_eq_empty {documents : List Document}
    (h : ∀ document ∈ documents, propose document = none) : ofTexts propose documents = {} := by
  have hnone : (documents.filterMap fun document =>
      (propose document).map fun text => (document.id, text)) = [] :=
    List.filterMap_eq_nil_iff.mpr fun document hmem => by rw [h document hmem]; rfl
  rw [ofTexts, hnone]
  rfl

theorem Solution.documents_eq_map_revised (h : base.Sound) (hnext : base.Variant next)
    (htexts : ∀ id, next.text? id =
      ((Changes.ofTexts propose base.documents).get? id).or (base.text? id)) :
    next.documents = base.documents.map (Document.revised base.reader propose) := by
  have hplaces : next.documents.map (fun document => (document.id, document.path)) =
      base.documents.map fun document => (document.id, document.path) :=
    congrArg Frame.places hnext.frame
  have hlength := congrArg List.length hplaces
  rw [List.length_map, List.length_map] at hlength
  refine List.ext_getElem (by rw [hlength, List.length_map]) fun i hi hi' => ?_
  rw [List.length_map] at hi'
  have hplace := List.getElem_of_eq hplaces (by simpa using hi)
  simp only [List.getElem_map, Prod.mk.injEq] at hplace
  have htext := htexts next.documents[i].id
  rw [text?_of_mem hnext.sound.nodup (List.getElem_mem hi), hplace.1,
    Changes.get?_ofTexts_or h (List.getElem_mem hi'), Option.some.injEq] at htext
  rw [List.getElem_map, Document.revised, Document.withText, ← htext, ← hplace.1, ← hplace.2,
    ← hnext.reader_eq]
  exact hnext.sound.parsed _ (List.getElem_mem hi)

namespace Run

variable {σ : Type} [Store σ] {workspace workspace' : Workspace σ} {live : Solution}
  {notices : List Notice} {run run' : Run} {policy : OrderPolicy} {options : FormatSettings}
  {commit : Commit}

theorem commit_of_call (h : run.call workspace .commit = (.ok (.commit commit), run', workspace')) :
    run.commit workspace = (.ok commit, run', workspace') := by
  rw [call] at h
  cases hcommit : run.commit workspace with
  | mk result rest =>
      rw [hcommit] at h
      cases result with
      | error fault => cases h
      | ok found =>
          cases h
          rfl

theorem Kept.pendingTexts_eq_nil_iff (h : run.Kept live) :
    run.pendingTexts.keys = [] ↔ run.working = live := by
  constructor
  · intro hpending
    refine Solution.eq_of_frame h.sound h.working.sound h.working.frame h.version fun id => ?_
    have hnone : run.pendingTexts.get? id = none :=
      SortedMap.get?_eq_none_of_not_mem (by rw [hpending]; exact List.not_mem_nil)
    rw [h.text?_working, hnone, Option.none_or]
  · intro hworking
    have hsame : run.working.changedFrom run.base = [] := by
      rw [h.base, hworking, Solution.changedFrom_eq_nil_iff h.sound.nodup rfl]
      exact fun _ => rfl
    rw [pendingTexts, hsame]
    rfl

theorem Kept.exists_commit (h : run.Kept workspace.live) (hopen : run.isOpen = true)
    (haccepts : ∀ changes, (Store.writeAll workspace.store changes).1 = .ok ()) :
    ∃ commit run' workspace', run.commit workspace = (.ok commit, run', workspace') ∧
      workspace'.live = { run.working with version := workspace'.live.version } := by
  have houtcome := h.outcome_commit hopen workspace
  generalize hcall : run.call workspace .commit = answer at houtcome
  cases houtcome with
  | refused hrefused => cases (hopen.symm.trans hrefused : true = false)
  | edited hedits => cases hedits
  | idle _ hpending =>
      refine ⟨_, _, _, commit_of_call hcall, ?_⟩
      rw [h.pendingTexts_eq_nil_iff.mp hpending]
  | stale _ _ hversion => exact absurd rfl hversion
  | unwritten _ _ _ fault store hwrite =>
      have haccepted := haccepts (Workspace.fileChanges workspace.live run.working)
      rw [hwrite] at haccepted
      cases haccepted
  | committed _ _ _ store hwrite => exact ⟨_, _, _, commit_of_call hcall, rfl⟩

/-- A run whose working snapshot is the one it began with commits nothing. -/
theorem Kept.commit_of_working (h : run.Kept workspace.live) (hopen : run.isOpen = true)
    (hworking : run.working = workspace.live) :
    ∃ commit run', run.commit workspace = (.ok commit, run', workspace) := by
  have hpending := h.pendingTexts_eq_nil_iff.mpr hworking
  have houtcome := h.outcome_commit hopen workspace
  generalize hcall : run.call workspace .commit = answer at houtcome
  cases houtcome with
  | refused hrefused => cases (hopen.symm.trans hrefused : true = false)
  | edited hedits => cases hedits
  | idle _ _ => exact ⟨_, _, commit_of_call hcall⟩
  | stale _ hne => exact absurd hpending hne
  | unwritten _ hne => exact absurd hpending hne
  | committed _ hne => exact absurd hpending hne

theorem edit_empty (run : Run) : run.edit {} = (.ok [], { run with state := .edited }) := rfl

theorem fix_of_none {ruleSet : RuleSet} (hopen : run.isOpen = true)
    (h : ∀ document ∈ run.working.documents,
      (ruleSet.repair run.working.reader document).text = none) :
    ∃ failures, run.fix ruleSet = (.ok ⟨[], failures⟩, { run with state := .edited }) := by
  have hchanges := changes_repairAll ruleSet run.working.reader run.working.documents
  rw [Changes.ofTexts_eq_empty h] at hchanges
  refine ⟨(ruleSet.repairAll run.working.reader run.working.documents).failures, ?_⟩
  simp only [fix, if_pos hopen, hchanges, edit_empty, Except.map]

theorem format_of_none {formatter : Formatter} (hopen : run.isOpen = true)
    (h : ∀ document ∈ run.working.documents, reformed formatter options document = none) :
    ∃ skipped, run.format formatter options = (.ok ⟨[], skipped⟩, { run with state := .edited }) := by
  have hchanges := changes_formatAll formatter run.working options
  rw [Changes.ofTexts_eq_empty h] at hchanges
  refine ⟨(formatAll formatter run.working options).failures.map fun failure =>
    FailedRule.ofFault "format" failure.1 failure.2, ?_⟩
  simp only [format, if_pos hopen, hchanges, edit_empty]
  rfl

/-- Asked for everything in turn, a run over a workspace answers, up to its commit. -/
def Passes (run : Run) (ruleSet : RuleSet) (options : FormatSettings) (workspace : Workspace σ)
    (report : Report) (fixes formats : EditResult) (workspace' : Workspace σ) : Prop :=
  ∃ analyzed fixed formatted committed commit,
    run.analyze ruleSet = (.ok report, analyzed) ∧
    analyzed.fix ruleSet = (.ok fixes, fixed) ∧
    fixed.format spacingFormatter options = (.ok formats, formatted) ∧
    formatted.commit workspace = (.ok commit, committed, workspace')

/-- The run that an analysis with the standard rules leads to. -/
def analyzed (policy : OrderPolicy) (options : FormatSettings) (live : Solution) : Run :=
  ⟨live, live, .analyzed, some ((RuleSet.standard policy options).run live.documents)⟩

theorem analyze_of_start (hstart : start live notices = .ok run) (policy : OrderPolicy)
    (options : FormatSettings) :
    run.analyze (.standard policy options) =
      (.ok ((RuleSet.standard policy options).run live.documents), analyzed policy options live) := by
  rw [start] at hstart
  split at hstart
  · obtain rfl := Except.ok.inj hstart
    rw [analyze, if_pos rfl, RuleSet.check_standard]
    rfl
  · cases hstart

/-- A run of the standard rules over a workspace leaves its documents tidied. -/
theorem exists_passes (hlive : workspace.live.Sound)
    (hreader : workspace.live.reader = CSharp.reader)
    (haccepts : ∀ changes, (Store.writeAll workspace.store changes).1 = .ok ())
    (hstart : start workspace.live notices = .ok run) (policy : OrderPolicy)
    (options : FormatSettings) :
    ∃ fixes formats workspace',
      run.Passes (.standard policy options) options workspace
        ((RuleSet.standard policy options).run workspace.live.documents) fixes formats workspace' ∧
      workspace.live.Variant workspace'.live ∧
      workspace'.live.documents = workspace.live.documents.map (Document.tidied policy options) := by
  have hsound : (analyzed policy options workspace.live).working.Sound := hlive
  obtain ⟨fixes, fixed, hfix, hfixed, hversion, hfixedTexts⟩ :=
    exists_fix hsound rfl (.standard policy options)
  have hfixedDocuments := Solution.documents_eq_map_revised hsound hfixed hfixedTexts
  -- the run between fixing and formatting
  let middle : Run :=
    { analyzed policy options workspace.live with working := fixed, state := .edited }
  have hmiddle : middle.working.Sound := hfixed.sound
  obtain ⟨formats, formatted, hformat, hformatted, hversion', hformattedTexts⟩ :=
    exists_format hmiddle rfl spacingFormatter options
  have hformattedDocuments := Solution.documents_eq_map_revised hmiddle hformatted hformattedTexts
  have hkept : Kept workspace.live { middle with working := formatted, state := .edited } :=
    ⟨rfl, hlive, hfixed.trans hformatted, hversion'.trans hversion⟩
  obtain ⟨commit, committed, workspace', hcommit, hnext⟩ := hkept.exists_commit rfl haccepts
  have hdocuments : workspace'.live.documents =
      workspace.live.documents.map (Document.tidied policy options) := by
    have hfixedReader : fixed.reader = CSharp.reader := hfixed.reader_eq.trans hreader
    have hanalyzedReader : (analyzed policy options workspace.live).working.reader = CSharp.reader :=
      hreader
    rw [hanalyzedReader] at hfixedDocuments
    -- what is committed is the snapshot that was fixed and then formatted
    calc workspace'.live.documents = formatted.documents := by rw [hnext]
      _ = fixed.documents.map
            (Document.revised fixed.reader (reformed spacingFormatter options)) := hformattedDocuments
      _ = workspace.live.documents.map (Document.tidied policy options) := by
          rw [hfixedReader, hfixedDocuments, List.map_map]
          rfl
  refine ⟨fixes, formats, workspace', ⟨_, _, _, committed, commit,
    analyze_of_start hstart policy options, hfix, hformat, hcommit⟩, ?_, hdocuments⟩
  rw [hnext]
  exact (hfixed.trans hformatted).withVersion _

/-- A run of the standard rules over a workspace where nothing is proposed leaves it as it is. -/
theorem exists_passes_of_none (hlive : workspace.live.Sound)
    (hreader : workspace.live.reader = CSharp.reader)
    (hstart : start workspace.live notices = .ok run)
    (hrepaired : ∀ document ∈ workspace.live.documents,
      (RuleSet.standard policy options).repaired document = none)
    (hreformed : ∀ document ∈ workspace.live.documents,
      reformed spacingFormatter options document = none) :
    ∃ fixes formats,
      run.Passes (.standard policy options) options workspace
        ((RuleSet.standard policy options).run workspace.live.documents) fixes formats workspace ∧
      fixes.changed = [] ∧ formats.changed = [] := by
  let edited : Run := { analyzed policy options workspace.live with state := .edited }
  obtain ⟨failures, hfix⟩ : ∃ failures, (analyzed policy options workspace.live).fix
      (.standard policy options) = (.ok ⟨[], failures⟩, edited) := by
    refine fix_of_none rfl fun document hmem => ?_
    have hsame : (analyzed policy options workspace.live).working.reader = CSharp.reader := hreader
    rw [hsame]
    exact hrepaired document hmem
  obtain ⟨skipped, hformat⟩ : ∃ skipped, edited.format spacingFormatter options =
      (.ok ⟨[], skipped⟩, edited) := format_of_none rfl hreformed
  have hkept : Kept workspace.live edited := ⟨rfl, hlive, .refl hlive, rfl⟩
  obtain ⟨commit, committed, hcommit⟩ := hkept.commit_of_working rfl rfl
  exact ⟨⟨[], failures⟩, ⟨[], skipped⟩, ⟨_, _, _, committed, commit,
    analyze_of_start hstart policy options, hfix, hformat, hcommit⟩, rfl, rfl⟩

/-- **A second run has nothing to do.** A run of the standard rules fixes, formats and commits. Another
run over what it leaves finds at most divided scopes, fails where the first did, on the documents
without a tree, and neither its edits nor its commit change anything. -/
theorem rerun_changes_nothing (hlive : workspace.live.Sound)
    (hreader : workspace.live.reader = CSharp.reader)
    (haccepts : ∀ changes, (Store.writeAll workspace.store changes).1 = .ok ())
    (hstart : start workspace.live notices = .ok run) (policy : OrderPolicy)
    (options : FormatSettings) :
    ∃ report fixes formats next,
      run.Passes (.standard policy options) options workspace report fixes formats next ∧
      ∀ notices' run', start next.live notices' = .ok run' →
        ∃ report' fixes' formats',
          run'.Passes (.standard policy options) options next report' fixes' formats' next ∧
          fixes'.changed = [] ∧ formats'.changed = [] ∧
          (∀ finding ∈ report'.findings, finding.rule = DirectiveOrder.ruleId ∧
            ∃ document ∈ next.live.documents, finding.document = document.id ∧
              ∃ tree tokens, document.root = .ok tree ∧ tokenize document.text = .ok tokens ∧
                ∃ scope ∈ tree.scopes, scope.block? = some finding.span ∧ scope.Divided tokens) ∧
          report'.failures = report.failures ∧
          ∀ id, (∃ failure ∈ report'.failures, failure.document = id) ↔
            ∃ document ∈ workspace.live.documents, document.id = id ∧
              ¬∃ tree, document.root = .ok tree := by
  obtain ⟨fixes, formats, next, hpasses, hvariant, hdocuments⟩ :=
    exists_passes hlive hreader haccepts hstart policy options
  have hcsharp : ∀ document ∈ workspace.live.documents, document.IsCSharp := fun document hmem => by
    rw [Document.IsCSharp, ← hreader]
    exact hlive.parsed document hmem
  refine ⟨_, fixes, formats, next, hpasses, fun notices' run' hstart' => ?_⟩
  -- the first run leaves documents that are tidied, for which nothing more is proposed
  have hproposals : ∀ document ∈ next.live.documents,
      (RuleSet.standard policy options).repaired document = none ∧
        reformed spacingFormatter options document = none := by
    rw [hdocuments]
    refine List.forall_mem_map.mpr fun document hmem => ?_
    exact Document.proposals_tidied (hcsharp document hmem) policy options
  obtain ⟨fixes', formats', hpasses', hfixes, hformats⟩ :=
    exists_passes_of_none hvariant.sound (hvariant.reader_eq.trans hreader) hstart'
      (fun document hmem => (hproposals document hmem).1)
      (fun document hmem => (hproposals document hmem).2)
  refine ⟨_, fixes', formats', hpasses', hfixes, hformats, fun finding hfinding => ?_, ?_, fun id => ?_⟩
  · rw [hdocuments] at hfinding ⊢
    exact RuleSet.exists_of_finding_run_tidied hcsharp hfinding
  · rw [hdocuments, RuleSet.failures_run_tidied hcsharp]
  · rw [hdocuments, RuleSet.failures_run_tidied hcsharp]
    exact RuleSet.exists_failure_run_iff hcsharp

theorem rerun_changes_nothing_of_unsorted :
    ∃ (workspace : Workspace MapStore) (run : Run), workspace.live.Sound ∧
      workspace.live.reader = CSharp.reader ∧
      (∀ changes, (Store.writeAll workspace.store changes).1 = .ok ()) ∧
      workspace.live.documents.map Document.text = ["using B;  \nusing A;".toList, "'".toList] ∧
      start workspace.live [] = .ok run ∧
      ∃ report fixes formats next,
        run.Passes (.standard .alphabetical {}) {} workspace report fixes formats next ∧
        ∀ notices' run', start next.live notices' = .ok run' →
          ∃ report' fixes' formats',
            run'.Passes (.standard .alphabetical {}) {} next report' fixes' formats' next ∧
            fixes'.changed = [] ∧ formats'.changed = [] ∧
            ∀ id, (∃ failure ∈ report'.failures, failure.document = id) ↔ id = ⟨1⟩ := by
  let parse (id : Nat) (path : String) (text : String) : Document :=
    (Document.parse CSharp.reader ⟨id⟩ ⟨path⟩ text.toList).1
  let unsorted := parse 0 "A.cs" "using B;  \nusing A;"
  let broken := parse 1 "B.cs" "'"
  let workspace : Workspace MapStore := ⟨⟨0, [], [unsorted, broken], CSharp.reader⟩, {}⟩
  let run : Run := ⟨workspace.live, workspace.live, .loaded, none⟩
  have hlive : workspace.live.Sound := by
    refine ⟨by decide, ?_⟩
    exact List.forall_mem_cons.mpr ⟨rfl, List.forall_mem_singleton.mpr rfl⟩
  have haccepts : ∀ changes, (Store.writeAll workspace.store changes).1 = .ok () := fun changes => by
    rw [MapStore.writeAll_of_accepts rfl]
  have hstart : start workspace.live [] = .ok run := rfl
  have hunsorted : unsorted.root.isOk = true := by decide +kernel
  have hbroken : broken.root.isOk = false := by decide +kernel
  obtain ⟨report, fixes, formats, next, hpasses, hrerun⟩ :=
    rerun_changes_nothing hlive rfl haccepts hstart .alphabetical {}
  refine ⟨workspace, run, hlive, rfl, haccepts, rfl, hstart, report, fixes, formats, next, hpasses,
    fun notices' run' hstart' => ?_⟩
  obtain ⟨report', fixes', formats', hpasses', hfixes, hformats, -, -, hfailures⟩ :=
    hrerun notices' run' hstart'
  refine ⟨report', fixes', formats', hpasses', hfixes, hformats, fun id => (hfailures id).trans ?_⟩
  constructor
  · rintro ⟨document, hmem, rfl, hfails⟩
    rcases List.mem_pair.mp hmem with rfl | rfl
    · cases hroot : unsorted.root with
      | ok tree => exact absurd ⟨tree, hroot⟩ hfails
      | error fault =>
          rw [hroot] at hunsorted
          cases hunsorted
    · rfl
  · rintro rfl
    refine ⟨broken, List.mem_pair.mpr (.inr rfl), rfl, ?_⟩
    rintro ⟨tree, hroot⟩
    rw [hroot] at hbroken
    cases hbroken

end Run

end CSharpTidy
