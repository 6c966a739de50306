import CSharpTidy.Format.Spacing
import CSharpTidy.Proofs.Run.Edit

/-!
# The life of a run

A run is asked things one after another, over a workspace that others may have changed in between. It
keeps the snapshot it began with, and its working snapshot stays a variant of that; a commit proposes
just the working snapshot.
-/

namespace CSharpTidy

open Solution (Variant)

namespace Run

inductive Call where
  | analyze (ruleSet : RuleSet)
  | fix (ruleSet : RuleSet)
  | format (formatter : Formatter) (options : FormatSettings)
  | commit

namespace Call

def action : Call → String
  | analyze _ => "analyze"
  | fix _ => "fix"
  | format _ _ => "format"
  | commit => "commit"

/-- Whether a run that has come so far answers. -/
def allowedIn : Call → Phase → Bool
  | analyze _, phase => phase == .loaded
  | _, phase => phase == .analyzed || phase == .edited

/-- Where a run gets to that was allowed to answer. -/
def target : Call → Phase → Bool → Phase
  | analyze _, phase, succeeded => if succeeded then .analyzed else phase
  | commit, _, succeeded => if succeeded then .committed else .rejected
  | _, _, _ => .edited

/-- Whether a call changes no text but those of the working snapshot. -/
def edits : Call → Bool
  | fix _ => true
  | format _ _ => true
  | _ => false

end Call

/-- What a run answers to a call that goes well. -/
inductive Reply where
  | report (report : Report)
  | edits (result : EditResult)
  | commit (commit : Commit)

variable {σ : Type} [Store σ]

/-- Answers a call over the workspace as it is at that time. -/
def call (run : Run) (workspace : Workspace σ) :
    Call → Except Fault Reply × Run × Workspace σ
  | .analyze ruleSet =>
      let (result, next) := run.analyze ruleSet
      (result.map .report, next, workspace)
  | .fix ruleSet =>
      let (result, next) := run.fix ruleSet
      (result.map .edits, next, workspace)
  | .format formatter options =>
      let (result, next) := run.format formatter options
      (result.map .edits, next, workspace)
  | .commit =>
      let (result, next) := run.commit workspace
      (result.map .commit, next)

/-- The runs that calls lead to from the start over a live snapshot. Between two calls the workspace
may have become any other. -/
inductive Reached (σ : Type) [Store σ] (live : Solution) : Run → Prop
  | start {run : Run} (notices : List Notice) (h : start live notices = .ok run) : Reached σ live run
  | call {run : Run} (h : Reached σ live run) (workspace : Workspace σ) (call : Call) :
      Reached σ live (run.call workspace call).2.1

/-- What every call keeps. -/
structure Kept (live : Solution) (run : Run) : Prop where
  base : run.base = live
  sound : live.Sound
  working : live.Variant run.working
  version : run.working.version = live.version

variable {live : Solution} {run : Run} {ruleSet : RuleSet} {formatter : Formatter}
  {options : FormatSettings} {workspace : Workspace σ} {call' : Call}

theorem kept_start (hlive : live.Sound) {notices : List Notice}
    (h : start live notices = .ok run) : run.Kept live := by
  rw [start] at h
  split at h
  · obtain rfl := Except.ok.inj h
    exact ⟨rfl, hlive, .refl hlive, rfl⟩
  · cases h

theorem exists_fix (h : run.working.Sound) (hopen : run.isOpen = true) (ruleSet : RuleSet) :
    ∃ result working, run.fix ruleSet = (.ok result, { run with working, state := .edited }) ∧
      run.working.Variant working ∧ working.version = run.working.version ∧
      ∀ id, working.text? id =
        ((Changes.ofTexts (fun document => (ruleSet.repair run.working.reader document).text)
          run.working.documents).get? id).or (run.working.text? id) := by
  obtain ⟨changed, working, hedit, hworking⟩ := exists_edit_ofTexts h fun document =>
    (ruleSet.repair run.working.reader document).text
  let failures := (ruleSet.repairAll run.working.reader run.working.documents).failures
  refine ⟨⟨changed, failures⟩, working, ?_, hworking⟩
  rw [← changes_repairAll] at hedit
  simp only [fix, if_pos hopen, hedit, Except.map, failures]

theorem exists_format (h : run.working.Sound) (hopen : run.isOpen = true) (formatter : Formatter)
    (options : FormatSettings) :
    ∃ result working,
      run.format formatter options = (.ok result, { run with working, state := .edited }) ∧
      run.working.Variant working ∧ working.version = run.working.version ∧
      ∀ id, working.text? id =
        ((Changes.ofTexts (reformed formatter options) run.working.documents).get? id).or
          (run.working.text? id) := by
  obtain ⟨changed, working, hedit, hworking⟩ := exists_edit_ofTexts h (reformed formatter options)
  let skipped := (formatAll formatter run.working options).failures.map fun failure =>
    FailedRule.ofFault "format" failure.1 failure.2
  refine ⟨⟨changed, skipped⟩, working, ?_, hworking⟩
  rw [← changes_formatAll] at hedit
  simp only [format, if_pos hopen, hedit]
  rfl

namespace Kept

theorem ids_eq (h : run.Kept live) : run.working.ids = live.ids := h.working.ids_eq

theorem get?_pendingTexts_eq_some_iff (h : run.Kept live) (id : DocumentId) (text : Text) :
    run.pendingTexts.get? id = some text ↔
      run.working.text? id = some text ∧ live.text? id ≠ some text := by
  have hkeys : ((run.working.changedFrom run.base).filterMap fun id =>
      (run.working.text? id).map fun text => (id, text)).map Prod.fst =
      run.working.changedFrom run.base := by
    rw [List.map_filterMap]
    refine (List.filterMap_congr fun id hmem => ?_).trans List.filterMap_some
    obtain ⟨text, htext, -⟩ := (Solution.mem_changedFrom_iff h.working.sound.nodup).mp hmem
    rw [htext]
    rfl
  rw [pendingTexts, SortedMap.get?_ofList_eq_some_iff]
  · simp only [List.mem_filterMap, Option.map_eq_some_iff, Prod.mk.injEq,
      Solution.mem_changedFrom_iff h.working.sound.nodup, h.base]
    constructor
    · rintro ⟨id, ⟨text, htext, hne⟩, text', htext', rfl, rfl⟩
      obtain rfl := Option.some.inj (htext.symm.trans htext')
      exact ⟨htext, hne⟩
    · rintro ⟨htext, hne⟩
      exact ⟨id, ⟨text, htext, hne⟩, text, htext, rfl, rfl⟩
  · rw [hkeys]
    exact Solution.nodup_changedFrom h.working.sound.nodup run.base

theorem ordered_pendingTexts (run : Run) : run.pendingTexts.Ordered := SortedMap.ordered_ofList _

/-- The working texts are those of the start but for what is pending. -/
theorem text?_working (h : run.Kept live) (id : DocumentId) :
    run.working.text? id = (run.pendingTexts.get? id).or (live.text? id) := by
  have hpending := h.get?_pendingTexts_eq_some_iff id
  cases hget : run.pendingTexts.get? id with
  | some text => exact ((hpending text).mp hget).1
  | none =>
      rw [Option.none_or]
      cases htext : run.working.text? id with
      | none =>
          rw [Solution.text?_eq_none_iff, h.ids_eq] at htext
          exact (Solution.text?_eq_none_iff.mpr htext).symm
      | some text =>
          by_contra hne
          rw [(hpending text).mpr ⟨htext, Ne.symm hne⟩] at hget
          cases hget

theorem stage_pendingTexts (h : run.Kept live) :
    ∃ notices, stage run.base run.pendingTexts =
      .ok ⟨run.working, run.pendingTexts.keys, notices⟩ := by
  have hpending := h.get?_pendingTexts_eq_some_iff
  rw [h.base]
  obtain ⟨staged, hstage, hstaged⟩ := exists_stage h.sound (ordered_pendingTexts run)
    fun id text hget => by
      by_contra hid
      rw [← h.ids_eq, ← Solution.text?_eq_none_iff, ((hpending id text).mp hget).1] at hid
      cases hid
  have hsolution : staged.solution = run.working := by
    refine Solution.eq_of_frame h.working.sound hstaged.variant.sound ?_ ?_ fun id => ?_
    · rw [hstaged.variant.frame, h.working.frame]
    · rw [hstaged.version, h.version]
    · rw [hstaged.texts, h.text?_working]
  have hchanged : staged.changed = run.pendingTexts.keys := by
    rw [hstaged.changed, Changes.effective_eq_self (ordered_pendingTexts run)]
    exact fun id text hget => ((hpending id text).mp hget).2
  refine ⟨staged.notices, hstage.trans ?_⟩
  rw [← hsolution, ← hchanged]

end Kept

/-- What can become of a call. -/
inductive Outcome (live : Solution) (run : Run) (workspace : Workspace σ) :
    Call → Except Fault Reply × Run × Workspace σ → Prop
  | refused {call : Call} (h : call.allowedIn run.state = false) :
      Outcome live run workspace call (.error (run.stateFault call.action), run, workspace)
  | failed {ruleSet : RuleSet} (h : run.state = .loaded) (fault : Fault) :
      Outcome live run workspace (.analyze ruleSet) (.error fault, run, workspace)
  | analyzed {ruleSet : RuleSet} (h : run.state = .loaded) (report : Report) :
      Outcome live run workspace (.analyze ruleSet)
        (.ok (.report report), { run with state := .analyzed, report := some report }, workspace)
  | edited {call : Call} (hedits : call.edits = true) (hopen : run.isOpen = true)
      (result : EditResult) (working : Solution) (hvariant : run.working.Variant working)
      (hversion : working.version = run.working.version) :
      Outcome live run workspace call
        (.ok (.edits result), { run with working, state := .edited }, workspace)
  | idle (hopen : run.isOpen = true) (hpending : run.pendingTexts.keys = []) :
      Outcome live run workspace .commit
        (.ok (.commit ⟨workspace.live.version, []⟩), { run with state := .committed }, workspace)
  | stale (hopen : run.isOpen = true) (hpending : run.pendingTexts.keys ≠ [])
      (hversion : workspace.live.version ≠ live.version) (reason : String) :
      Outcome live run workspace .commit
        (.error (.commitRejected reason), { run with state := .rejected }, workspace)
  | unwritten (hopen : run.isOpen = true) (hpending : run.pendingTexts.keys ≠ [])
      (hversion : workspace.live.version = live.version) (fault : Fault) (store : σ)
      (hwrite : Store.writeAll workspace.store
        (Workspace.fileChanges workspace.live run.working) = (.error fault, store))
      (reason : String) :
      Outcome live run workspace .commit
        (.error (.commitRejected reason), { run with state := .rejected },
          { workspace with store })
  | committed (hopen : run.isOpen = true) (hpending : run.pendingTexts.keys ≠ [])
      (hversion : workspace.live.version = live.version) (store : σ)
      (hwrite : Store.writeAll workspace.store
        (Workspace.fileChanges workspace.live run.working) = (.ok (), store)) :
      Outcome live run workspace .commit
        (.ok (.commit ⟨live.version + 1, run.pendingTexts.keys⟩), { run with state := .committed },
          ⟨{ run.working with version := live.version + 1 }, store⟩)

/-- A commit of an open run proposes the working snapshot, unless it holds nothing new. -/
theorem Kept.outcome_commit (h : run.Kept live) (hopen : run.isOpen = true)
    (workspace : Workspace σ) :
    Outcome live run workspace .commit (run.call workspace .commit) := by
  obtain ⟨notices, hstage⟩ := h.stage_pendingTexts
  have happly : workspace.apply run.base run.pendingTexts =
      workspace.commit ⟨run.working, run.pendingTexts.keys, notices⟩ := by
    rw [Workspace.apply, hstage]
  rw [Run.call, commit, if_pos hopen, happly]
  rcases Workspace.commit_cases workspace ⟨run.working, run.pendingTexts.keys, notices⟩ with
    ⟨hpending, hcommit⟩ | ⟨hpending, ⟨haccept, hcommit⟩ | ⟨haccept, reason, hcommit⟩⟩ <;>
    rw [hcommit]
  · exact .idle hopen hpending
  all_goals
    simp only at hpending haccept ⊢
    rcases Workspace.accept_cases workspace run.working with
      ⟨hversion, hresult⟩ | ⟨hversion, ⟨fault, store, hwrite, hresult⟩ | ⟨store, hwrite, hresult⟩⟩ <;>
      rw [h.version] at hversion <;> rw [hresult] at haccept ⊢
  · cases haccept
  · cases haccept
  · rw [← hversion]
    exact .committed hopen hpending hversion.symm store hwrite
  · exact .stale hopen hpending (Ne.symm hversion) reason
  · exact .unwritten hopen hpending hversion.symm fault store hwrite reason
  · exact absurd rfl haccept

theorem Kept.outcome (h : run.Kept live) (workspace : Workspace σ) (call : Call) :
    Outcome live run workspace call (run.call workspace call) := by
  cases call with
  | analyze ruleSet =>
      by_cases hstate : run.state = .loaded
      · rw [Run.call, analyze, if_pos hstate]
        cases ruleSet.check run.working.documents with
        | error fault => exact .failed hstate fault
        | ok report => exact .analyzed hstate report
      · rw [Run.call, analyze, if_neg hstate]
        exact .refused (beq_eq_false_iff_ne.mpr hstate)
  | fix ruleSet =>
      cases hopen : run.isOpen with
      | false =>
          rw [Run.call, fix, if_neg (by simp [hopen])]
          exact .refused hopen
      | true =>
          obtain ⟨result, working, hresult, hvariant, hversion, -⟩ :=
            exists_fix h.working.sound hopen ruleSet
          rw [Run.call, hresult]
          exact .edited rfl hopen result working hvariant hversion
  | format formatter options =>
      cases hopen : run.isOpen with
      | false =>
          rw [Run.call, format, if_neg (by simp [hopen])]
          exact .refused hopen
      | true =>
          obtain ⟨result, working, hresult, hvariant, hversion, -⟩ :=
            exists_format h.working.sound hopen formatter options
          rw [Run.call, hresult]
          exact .edited rfl hopen result working hvariant hversion
  | commit =>
      cases hopen : run.isOpen with
      | false =>
          rw [Run.call, commit, if_neg (by simp [hopen])]
          exact .refused hopen
      | true => exact h.outcome_commit hopen workspace

theorem Outcome.kept {call : Call} {result : Except Fault Reply} {next : Run}
    {workspace' : Workspace σ} (h : run.Kept live)
    (houtcome : Outcome live run workspace call (result, next, workspace')) : next.Kept live := by
  cases houtcome with
  | edited _ _ _ working hvariant hversion =>
      exact ⟨h.base, h.sound, h.working.trans hvariant, hversion.trans h.version⟩
  | _ => exact ⟨h.base, h.sound, h.working, h.version⟩

theorem Reached.kept (hlive : live.Sound) (h : Reached σ live run) : run.Kept live := by
  induction h with
  | start notices hstart => exact kept_start hlive hstart
  | call _ workspace call ih => exact (ih.outcome workspace call).kept ih

/-- However a run is used, it moves only forward, keeps what it has when a call fails, holds pending
just what differs from the start, and a commit either changes nothing or makes the working snapshot
the live one. -/
theorem Reached.lifecycle (hlive : live.Sound) (h : Reached σ live run) :
    (∀ id text, run.pendingTexts.get? id = some text ↔
      run.working.text? id = some text ∧ live.text? id ≠ some text) ∧
    ∀ (workspace : Workspace σ) (call : Call) (result : Except Fault Reply) (next : Run)
      (workspace' : Workspace σ), run.call workspace call = (result, next, workspace') →
      (call.allowedIn run.state = false →
        result = .error (run.stateFault call.action) ∧ next = run ∧ workspace' = workspace) ∧
      (call.allowedIn run.state = true → next.state = call.target run.state result.isOk) ∧
      (call.edits = true → ∀ fault, result = .error fault →
        call.allowedIn run.state = false ∧ fault = run.stateFault call.action) ∧
      (call ≠ .commit → ∀ fault, result = .error fault → next = run) ∧
      ((∀ commit, result ≠ .ok (.commit commit)) →
        workspace'.live = workspace.live ∧ (Store.AllOrNothing σ → workspace' = workspace)) ∧
      (run.pendingTexts.keys ≠ [] → ∀ commit, result = .ok (.commit commit) →
        commit = ⟨live.version + 1, run.pendingTexts.keys⟩ ∧
        workspace'.live = { next.working with version := live.version + 1 }) := by
  have hkept := h.kept hlive
  refine ⟨hkept.get?_pendingTexts_eq_some_iff, ?_⟩
  intro workspace call result next workspace' hcall
  have houtcome := hkept.outcome workspace call
  rw [hcall] at houtcome
  -- each outcome has its own answers to all six questions
  cases houtcome with
  | refused hrefused => simp [hrefused]
  | @failed ruleSet hstate fault =>
      have hallowed : (Call.analyze ruleSet).allowedIn run.state = true := by rw [hstate]; rfl
      simp [hallowed, Call.target, Call.edits, Except.isOk, Except.toBool]
  | @analyzed ruleSet hstate report =>
      have hallowed : (Call.analyze ruleSet).allowedIn run.state = true := by rw [hstate]; rfl
      simp [hallowed, Call.target, Call.edits, Except.isOk, Except.toBool]
  | edited hedits hopen result working hvariant hversion =>
      have hallowed : call.allowedIn run.state = true := by
        cases call <;> first | exact hopen | cases hedits
      have htarget : call.target run.state true = .edited := by
        cases call <;> first | rfl | cases hedits
      simp [hallowed, htarget, Except.isOk, Except.toBool]
  | idle hopen hpending =>
      have hallowed : Call.commit.allowedIn run.state = true := hopen
      simp [hallowed, hpending, Call.target, Call.edits, Except.isOk, Except.toBool]
  | stale hopen hpending hversion reason =>
      have hallowed : Call.commit.allowedIn run.state = true := hopen
      simp [hallowed, Call.target, Call.edits, Except.isOk, Except.toBool]
  | unwritten hopen hpending hversion fault store hwrite reason =>
      have hallowed : Call.commit.allowedIn run.state = true := hopen
      -- the store may hold anything after a failed write, unless it writes all or nothing
      have hsame : Store.AllOrNothing σ → { workspace with store } = workspace := by
        intro hall
        rw [hall _ _ _ _ hwrite]
      simpa [hallowed, Call.target, Call.edits, Except.isOk, Except.toBool] using hsame
  | committed hopen hpending hversion store hwrite =>
      have hallowed : Call.commit.allowedIn run.state = true := hopen
      simp [hallowed, Call.target, Call.edits, Except.isOk, Except.toBool]

theorem Reached.lifecycle_of_trailing_blanks :
    ∃ (live : Solution) (run next : Run) (workspace' : Workspace MapStore),
      live.Sound ∧ Reached MapStore live run ∧ run.pendingTexts.keys = [⟨0⟩] ∧
      run.call ⟨live, {}⟩ .commit =
        (.ok (.commit ⟨live.version + 1, [⟨0⟩]⟩), next, workspace') ∧
      workspace'.live = { next.working with version := live.version + 1 } := by
  obtain ⟨live, edited, hlive, hreached, hpending, hok⟩ :
      ∃ (live : Solution) (run : Run), live.Sound ∧ Reached MapStore live run ∧
        run.pendingTexts.keys = [⟨0⟩] ∧
        (run.commit (⟨live, {}⟩ : Workspace MapStore)).1.isOk = true := by
    let live : Solution :=
      ⟨0, [], [(Document.parse CSharp.reader ⟨0⟩ ⟨"A.cs"⟩ "using A;  \n".toList).1], CSharp.reader⟩
    let workspace : Workspace MapStore := ⟨live, {}⟩
    let analyzed := ((⟨live, live, .loaded, none⟩ : Run).call workspace (.analyze ⟨[], {}⟩)).2.1
    refine ⟨live, (analyzed.call workspace (.format spacingFormatter {})).2.1, ?_,
      .call (.call (.start [] rfl) workspace _) workspace _, by decide +kernel, by decide +kernel⟩
    refine ⟨List.nodup_singleton _, fun document hmem => ?_⟩
    rw [List.mem_singleton.mp hmem]
    rfl
  let workspace : Workspace MapStore := ⟨live, {}⟩
  obtain ⟨-, hcalls⟩ := hreached.lifecycle hlive
  obtain ⟨-, -, -, -, -, hcommit⟩ := hcalls workspace .commit _ _ _ rfl
  cases hresult : (edited.commit workspace).1 with
  | error fault =>
      rw [hresult] at hok
      cases hok
  | ok commit =>
      have hreply : (edited.call workspace .commit).1 = .ok (.commit commit) :=
        congrArg (Except.map Reply.commit) hresult
      obtain ⟨rfl, hworkspace⟩ := hcommit (by simp [hpending]) commit hreply
      refine ⟨live, edited, _, _, hlive, hreached, hpending, Prod.ext ?_ rfl, hworkspace⟩
      rw [hreply, hpending]

end Run

end CSharpTidy
